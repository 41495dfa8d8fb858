import StatementLog.Catalog
import StatementLog.Error
import StatementLog.Executor
import StatementLog.Statement.Reader

namespace StatementLog

inductive Refusal where
  | unreadable (fault : ParseFault)
  | clusterTerminated
  | sourceExists (wanted : SourceKind) (name : String) (existing : SourceKind)
  | sinkExists (wanted : SourceKind) (name : String)
  | noSource (name : String)
  | noTopic (topic : String)
  | noSink (target : String)
  | tableSink (target : String)
  | wrongKind (existing wanted : SourceKind)
  | builtIn (name : String)
  | inUse (name : String) (queries : List String)
  | unknownQuery (query : String)
  | broker (failure : Failure)
  deriving DecidableEq, Repr

namespace Refusal

def upperLabel (kind : SourceKind) : String :=
  kind.label.map Char.toUpper

def message : Refusal → String
  | unreadable fault => (Error.parse fault).message
  | clusterTerminated => "The cluster has been terminated; no further statements are accepted"
  | sourceExists wanted name existing =>
    "Cannot add " ++ wanted.label ++ s!" '{name}': A " ++ existing.label ++
      " with the same name already exists"
  | sinkExists wanted name =>
    "Cannot add " ++ wanted.label ++ s!" '{name}': A source with the same name already exists"
  | noSource name => s!"{name} does not exist."
  | noTopic topic => s!"Kafka topic does not exist: {topic}"
  | noSink target => s!"Sink does not exist for the INSERT INTO statement: {target}"
  | tableSink target =>
    s!"INSERT INTO can only be used to insert into a stream. {target} is a table."
  | wrongKind existing wanted =>
    "Incompatible data source type is " ++ upperLabel existing ++ ", but statement was DROP " ++
      upperLabel wanted
  | builtIn name => s!"Cannot drop built-in source {name}"
  | inUse name queries =>
    s!"Cannot drop {name}. The following queries read from this source: [" ++
      ", ".intercalate queries ++
      "] and the following queries write into this source: []. " ++
      s!"You need to terminate them before dropping {name}."
  | unknownQuery query => s!"Unknown queryId: {query}"
  | broker failure => failure.message

def kind : Refusal → FailureKind
  | noTopic _ => .transient
  | broker failure => failure.kind
  | _ => .fatal

def failure (r : Refusal) : Failure :=
  ⟨r.kind, r.message⟩

end Refusal

namespace Catalog

def commandsStream : String := "KSQL_COMMANDS"

def builtIn (topic : String) : Source where
  name := commandsStream
  kind := .stream
  topic := topic
  statement := "CREATE STREAM " ++ commandsStream ++
    " (STATEMENT STRING) WITH(VALUE_FORMAT='JSON', KAFKA_TOPIC='" ++ topic ++ "');"
  createdAt := none

def ofCommandTopic (topic : String) : Catalog :=
  (({} : Catalog).addSource (builtIn topic)).manage topic

abbrev Outcome := Effect × Catalog × Broker

def skipped (kind : SourceKind) (name : String) : Effect where
  message := "Cannot add " ++ kind.label ++ s!" '{name}': it already exists, skipping"

def onBroker {α : Type} (r : Except Failure α) : Except Refusal α :=
  r.mapError .broker

def requireTopic (b : Broker) (topic : String) : Except Refusal Unit := do
  if !(← onBroker (b.topicExists topic)) then throw (.noTopic topic)

def requireSources (c : Catalog) : List String → Except Refusal Unit
  | [] => .ok ()
  | s :: ss => if (c.source? s).isSome then c.requireSources ss else .error (.noSource s)

def newSource (command : Command) (kind : SourceKind) (name topic : String) : Source :=
  ⟨name, kind, topic, command.payload.statement, some command.offset⟩

def newQuery (command : Command) (mode : Mode) (id sink : String) (sources : List String) :
    Query :=
  ⟨id, sink, sources, command.payload.statement, command.payload.overrides, .ofMode mode⟩

def createSource (c : Catalog) (b : Broker) (command : Command) (kind : SourceKind)
    (name : String) (topic : Option String) (ifNotExists : Bool) : Except Refusal Outcome := do
  match c.source? name with
  | some existing =>
    if ifNotExists then return (skipped kind name, c, b)
    else throw (.sourceExists kind name existing.kind)
  | none =>
    let topic := topic.getD name
    requireTopic b topic
    let message := match kind with
      | .stream => "Stream created"
      | .table => "Table created"
    return ({ message }, c.addSource (newSource command kind name topic), b)

/-- Queries have upper-case ids, as a plain identifier names them. -/
def selectQueryId (kind : SourceKind) (name : String) (offset : Nat) : String :=
  let tag := match kind with
    | .stream => "CSAS_"
    | .table => "CTAS_"
  tag ++ name.map Char.toUpper ++ "_" ++ toString offset

def createAsSelect (c : Catalog) (b : Broker) (command : Command) (mode : Mode)
    (kind : SourceKind) (name : String) (sources : List String) (ifNotExists : Bool) :
    Except Refusal Outcome := do
  if (c.source? name).isSome then
    if ifNotExists then return (skipped kind name, c, b)
    else throw (.sinkExists kind name)
  else
    c.requireSources sources
    let b ← onBroker (b.createTopic name)
    let query := selectQueryId kind name command.offset
    let message := match kind with
      | .stream => "Stream created and running"
      | .table => "Table created and running"
    let c := (c.addSource (newSource command kind name name)).manage name
    return ({ message, query := some query }, c.addQuery (newQuery command mode query name sources),
      b)

def insertQueryId (offset : Nat) : String :=
  "INSERTQUERY_" ++ toString offset

def insertInto (c : Catalog) (b : Broker) (command : Command) (mode : Mode) (target : String)
    (sources : List String) : Except Refusal Outcome := do
  match c.source? target with
  | none => throw (.noSink target)
  | some sink =>
    if sink.kind = .table then throw (.tableSink target)
    c.requireSources sources
    let query := insertQueryId command.offset
    return ({ message := "Insert Into query is running.", query := some query },
      c.addQuery (newQuery command mode query target sources), b)

def dropSource (c : Catalog) (b : Broker) (kind : SourceKind) (name : String)
    (ifExists deleteTopic : Bool) : Except Refusal Outcome := do
  match c.source? name with
  | none =>
    if ifExists then
      return ({ message := s!"Source {name} does not exist, nothing to drop" }, c, b)
    else throw (.noSource name)
  | some existing =>
    if existing.kind ≠ kind then throw (.wrongKind existing.kind kind)
    if existing.createdAt.isNone then throw (.builtIn name)
    let blocking := c.queriesTouching name
    if !blocking.isEmpty then throw (.inUse name blocking)
    let (c, b) ←
      if deleteTopic then
        let b ← onBroker (b.deleteTopic existing.topic)
        pure (c.unmanage existing.topic, b)
      else pure (c, b)
    let c := { c with sources := c.sources.erase name }
    return ({ message := "Source \x60" ++ name ++ "\x60 (topic: " ++ existing.topic ++
      ") was dropped." }, c, b)

def terminateQuery (c : Catalog) (b : Broker) (query : String) : Except Refusal Outcome := do
  match c.queries[query]? with
  | none => throw (.unknownQuery query)
  | some _ =>
    return ({ message := "Query terminated.", query := some query },
      { c with queries := c.queries.erase query }, b)

def cleanupMessage (stopped : Nat) (report : CleanupReport) : String :=
  let done := s!"Cluster terminated: {stopped} queries stopped, " ++
    s!"{report.deleted.length} topics deleted"
  if report.isClean then done
  else done ++ "; failed to delete: " ++
    ", ".intercalate (report.failed.map fun (topic, reason) => s!"{topic} ({reason})")

def releaseTargets (c : Catalog) (topics : List String) : Topics :=
  topics.foldl Std.ExtTreeSet.insert c.managed

def terminateCluster (c : Catalog) (b : Broker) (topics : List String) : Outcome :=
  let (report, b) := b.release (c.releaseTargets topics).toList
  ({ message := cleanupMessage c.queries.size report, shutdown := true },
    { c with
      sources := ∅, queries := ∅, terminated := true
      managed := report.deleted.foldl Std.ExtTreeSet.erase c.managed },
    b)

def execute (c : Catalog) (b : Broker) (command : Command) (mode : Mode) :
    Statement → Except Refusal Outcome
  | .createSource kind name topic ifNotExists =>
    c.createSource b command kind name topic ifNotExists
  | .createAsSelect kind name sources ifNotExists =>
    c.createAsSelect b command mode kind name sources ifNotExists
  | .insertInto target sources => c.insertInto b command mode target sources
  | .dropSource kind name ifExists deleteTopic => c.dropSource b kind name ifExists deleteTopic
  | .terminateQuery query => c.terminateQuery b query
  | .terminateCluster topics => .ok (c.terminateCluster b topics)

def perform (c : Catalog) (b : Broker) (command : Command) (mode : Mode) :
    Except Refusal Outcome := do
  match Statement.read command.payload.statement with
  | .error fault => throw (.unreadable fault)
  | .ok statement =>
    if c.terminated && !statement.isTerminateCluster then throw .clusterTerminated
    let (effect, c, b) ← c.execute b command mode statement
    return (effect, c.recordApplied command, b)

end Catalog

/-- The catalog, its last published snapshot, and how many have been published. -/
structure Engine where
  catalog : Catalog := {}
  snapshot : Catalog := {}
  published : Nat := 0
  deriving DecidableEq

namespace Engine

def ofCommandTopic (topic : String) : Engine :=
  { catalog := .ofCommandTopic topic, snapshot := .ofCommandTopic topic }

def publish (e : Engine) (c : Catalog) : Engine :=
  { catalog := c, snapshot := c, published := e.published + 1 }

def replayedEffect (command : Command) : Effect where
  message := "Command '" ++ command.id.text ++ s!"' at offset {command.offset} was already applied"
  replayed := true
  shutdown := command.id.isClusterTerminate

def apply (e : Engine) (b : Broker) (command : Command) (mode : Mode) :
    Except Failure Effect × Engine × Broker :=
  if e.catalog.alreadyApplied command.id command.offset then
    (.ok (replayedEffect command), e, b)
  else
    match e.catalog.perform b command mode with
    | .error refusal => (.error refusal.failure, e, b)
    | .ok (effect, c, b) => (.ok effect, e.publish c, b)

def finishReplay (e : Engine) : Engine :=
  e.publish e.catalog.startQueries

instance : Executor Engine where
  apply := apply
  finishReplay e := (.ok (), e.finishReplay)

end Engine

end StatementLog
