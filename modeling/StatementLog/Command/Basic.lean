import StatementLog.Command.Id
import StatementLog.Word

namespace StatementLog

abbrev Properties := Std.ExtTreeMap String String compare

def Properties.ofList (entries : List (String × String)) : Properties :=
  Std.ExtTreeMap.ofList entries compare

structure Payload where
  statement : String
  overrides : Properties := ∅
  properties : Properties := ∅
  deriving DecidableEq

structure Command where
  id : CommandId
  payload : Payload
  offset : Nat
  deriving DecidableEq

namespace Offset

def next (n : Nat) : Nat :=
  Word.add n 1

end Offset

inductive Mode where
  | replay
  | live
  deriving DecidableEq, Repr

structure Effect where
  message : String
  query : Option String := none
  replayed : Bool := false
  shutdown : Bool := false
  deriving DecidableEq, Repr

def findTermination (backlog : List Command) : Option Command :=
  backlog.reverse.find? fun c => c.id.isClusterTerminate

end StatementLog
