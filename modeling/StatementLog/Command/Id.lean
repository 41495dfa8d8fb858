import Std.Data.ExtTreeMap
import StatementLog.ParseFault
import StatementLog.Text.Caseless

namespace StatementLog

open Std

inductive EntityKind where
  | stream
  | table
  | topic
  | terminate
  | cluster
  deriving DecidableEq, Repr, Ord

inductive Action where
  | create
  | drop
  | execute
  | terminate
  deriving DecidableEq, Repr, Ord

namespace EntityKind

def name : EntityKind → String
  | .stream => "stream"
  | .table => "table"
  | .topic => "topic"
  | .terminate => "terminate"
  | .cluster => "cluster"

def all : List EntityKind :=
  [.stream, .table, .topic, .terminate, .cluster]

def named? (s : String) : Option EntityKind :=
  all.find? fun k => k.name == s

def read (cs : List Char) : Except ParseFault EntityKind :=
  let s := String.ofList (Text.lower cs)
  match named? s with
  | some k => .ok k
  | none => .error (.unknownEntityKind s)

instance : TransOrd EntityKind where
  eq_swap := by intro x y; cases x <;> cases y <;> rfl
  isLE_trans := by intro x y z; cases x <;> cases y <;> cases z <;> decide

instance : LawfulEqOrd EntityKind where
  eq_of_compare := by intro x y; cases x <;> cases y <;> decide

end EntityKind

namespace Action

def name : Action → String
  | .create => "create"
  | .drop => "drop"
  | .execute => "execute"
  | .terminate => "terminate"

def all : List Action :=
  [.create, .drop, .execute, .terminate]

def named? (s : String) : Option Action :=
  all.find? fun a => a.name == s

def read (cs : List Char) : Except ParseFault Action :=
  let s := String.ofList (Text.lower cs)
  match named? s with
  | some a => .ok a
  | none => .error (.unknownAction s)

instance : TransOrd Action where
  eq_swap := by intro x y; cases x <;> cases y <;> rfl
  isLE_trans := by intro x y z; cases x <;> cases y <;> cases z <;> decide

instance : LawfulEqOrd Action where
  eq_of_compare := by intro x y; cases x <;> cases y <;> decide

end Action

structure CommandId where
  kind : EntityKind
  entity : String
  action : Action
  deriving DecidableEq, Repr

namespace CommandId

def text (id : CommandId) : String :=
  id.kind.name ++ "/" ++ id.entity ++ "/" ++ id.action.name

def isClusterTerminate (id : CommandId) : Bool :=
  id.kind == .cluster && id.action == .terminate

def cutFirst : List Char → Option (List Char × List Char)
  | [] => none
  | '/' :: r => some ([], r)
  | c :: r => (cutFirst r).map fun (a, b) => (c :: a, b)

def cutLast (cs : List Char) : Option (List Char × List Char) :=
  (cutFirst cs.reverse).map fun (a, b) => (b.reverse, a.reverse)

def readChars (cs : List Char) : Except ParseFault CommandId :=
  match cutFirst cs with
  | none => .error (.malformedId (String.ofList cs))
  | some (kind, rest) =>
    match cutLast rest with
    | none => .error (.malformedId (String.ofList cs))
    | some (entity, action) =>
      if entity.isEmpty then .error (.emptyEntity (String.ofList cs))
      else do
        let kind ← EntityKind.read kind
        let action ← Action.read action
        return ⟨kind, String.ofList entity, action⟩

def read (s : String) : Except ParseFault CommandId :=
  readChars s.toList

instance : Ord CommandId :=
  ⟨compareLex (compareOn kind) (compareLex (compareOn entity) (compareOn action))⟩

instance : TransOrd CommandId :=
  inferInstanceAs
    (TransCmp (compareLex (compareOn kind) (compareLex (compareOn entity) (compareOn action))))

instance : LawfulEqOrd CommandId where
  eq_of_compare := by
    intro ⟨k, e, a⟩ ⟨k', e', a'⟩ h
    obtain ⟨hk, h⟩ := compareLex_eq_eq.1 h
    obtain ⟨he, ha⟩ := compareLex_eq_eq.1 h
    cases (LawfulEqOrd.eq_of_compare hk : k = k')
    cases (LawfulEqOrd.eq_of_compare he : e = e')
    cases (LawfulEqOrd.eq_of_compare ha : a = a')
    rfl

end CommandId

end StatementLog
