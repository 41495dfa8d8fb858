import StatementLog.Command.Basic

namespace StatementLog

structure Numeral where
  negative : Bool := false
  whole : Nat
  integral : Bool := true
  deriving DecidableEq, Repr

inductive Json where
  | null
  | bool (value : Bool)
  | number (value : Numeral)
  | text (value : Option String)
  | array (items : List Json)
  | object (members : List (Option String × Json))

namespace Numeral

def ofNat (n : Nat) : Numeral :=
  { whole := n }

def ofInt (i : Int) : Numeral :=
  { negative := i < 0, whole := i.natAbs }

/-- A minus sign before zero makes no integer. -/
def nat? (n : Numeral) (max : Nat) : Option Nat :=
  if n.integral && !n.negative && n.whole ≤ max then some n.whole else none

def int64? (n : Numeral) : Option Int :=
  if !n.integral then none
  else if n.negative then
    if 0 < n.whole && n.whole ≤ 0x8000000000000000 then some (-(n.whole : Int)) else none
  else if n.whole < 0x8000000000000000 then some n.whole else none

end Numeral

namespace Json

def asText? : Json → Option String
  | .text value => value
  | _ => none

def asBool? : Json → Option Bool
  | .bool value => some value
  | _ => none

def asNat? (max : Nat) : Json → Option Nat
  | .number value => value.nat? max
  | _ => none

def asInt64? : Json → Option Int
  | .number value => value.int64?
  | _ => none

def maxHalfWord : Nat := 0xFFFFFFFF

def entry? : Option String × Json → Option (String × String)
  | (some key, .text (some value)) => some (key, value)
  | _ => none

def asProperties? : Json → Option Properties
  | .object members => (members.mapM entry?).map Properties.ofList
  | _ => none

def ofProperties (p : Properties) : Json :=
  .object (p.toList.map fun (k, v) => (some k, .text (some v)))

def member? (members : List (Option String × Json)) (name : String) : Option (Option Json) :=
  match members.filter fun m => m.1 == some name with
  | [] => some none
  | [m] => some (some m.2)
  | _ => none

/-- The fields of a record in their order, from an object or from an array of their values.
Unknown names are passed over; a name given twice, a name that is no text and an item too many
make the record unreadable. -/
def fields? (names : List String) : Json → Option (List (Option Json))
  | .object members =>
    if members.all fun m => m.1.isSome then names.mapM (member? members) else none
  | .array items =>
    if items.length ≤ names.length then
      some (items.map some ++ List.replicate (names.length - items.length) none)
    else none
  | _ => none

def orDefault {α : Type} (default : α) (read : Json → Option α) : Option Json → Option α
  | none => some default
  | some j => read j

def required {α : Type} (read : Json → Option α) : Option Json → Option α
  | none => none
  | some j => read j

end Json

end StatementLog
