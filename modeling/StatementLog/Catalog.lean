import StatementLog.Broker
import StatementLog.Command.Basic
import StatementLog.Statement.Basic

namespace StatementLog

structure Source where
  name : String
  kind : SourceKind
  topic : String
  statement : String
  createdAt : Option Nat
  deriving DecidableEq, Repr

inductive QueryState where
  | restored
  | running
  deriving DecidableEq, Repr

def QueryState.ofMode : Mode → QueryState
  | .replay => .restored
  | .live => .running

structure Query where
  id : String
  sink : String
  sources : List String
  statement : String
  overrides : Properties
  state : QueryState
  deriving DecidableEq

def Query.touches (q : Query) (source : String) : Bool :=
  q.sink == source || q.sources.contains source

def Query.start (q : Query) : Query :=
  { q with state := .running }

structure Catalog where
  sources : Std.ExtTreeMap String Source compare := ∅
  queries : Std.ExtTreeMap String Query compare := ∅
  managed : Topics := ∅
  applied : Std.ExtTreeMap CommandId Nat compare := ∅
  terminated : Bool := false
  deriving DecidableEq

namespace Catalog

def source? (c : Catalog) (name : String) : Option Source :=
  c.sources[name]?

def queriesTouching (c : Catalog) (source : String) : List String :=
  ((c.queries.toList.map Prod.snd).filter fun q => q.touches source).map Query.id

def runningQueries (c : Catalog) : Nat :=
  (c.queries.toList.filter fun q => q.2.state = .running).length

def alreadyApplied (c : Catalog) (id : CommandId) (offset : Nat) : Bool :=
  match c.applied[id]? with
  | some applied => offset ≤ applied
  | none => false

def addSource (c : Catalog) (s : Source) : Catalog :=
  { c with sources := c.sources.insert s.name s }

def addQuery (c : Catalog) (q : Query) : Catalog :=
  { c with queries := c.queries.insert q.id q }

def manage (c : Catalog) (topic : String) : Catalog :=
  { c with managed := c.managed.insert topic }

def unmanage (c : Catalog) (topic : String) : Catalog :=
  { c with managed := c.managed.erase topic }

def recordApplied (c : Catalog) (command : Command) : Catalog :=
  { c with applied := c.applied.insert command.id command.offset }

def startQueries (c : Catalog) : Catalog :=
  { c with queries := c.queries.map fun _ q => q.start }

end Catalog

end StatementLog
