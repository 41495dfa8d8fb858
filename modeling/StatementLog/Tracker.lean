import StatementLog.Error
import StatementLog.Status

namespace StatementLog

open Std

structure Slot where
  id : CommandId
  offset : Nat
  deriving DecidableEq, Repr

namespace Slot

instance : Ord Slot :=
  ⟨compareLex (compareOn id) (compareOn offset)⟩

instance : TransOrd Slot :=
  inferInstanceAs (TransCmp (compareLex (compareOn id) (compareOn offset)))

instance : LawfulEqOrd Slot where
  eq_of_compare := by
    intro ⟨i, n⟩ ⟨i', n'⟩ h
    obtain ⟨hi, hn⟩ := compareLex_eq_eq.1 h
    cases (LawfulEqOrd.eq_of_compare hi : i = i')
    cases (LawfulEqOrd.eq_of_compare hn : n = n')
    rfl

end Slot

/-- Entries in the order of their last use, the most recent first, and at most `capacity` of them. -/
structure Recent where
  capacity : Nat
  entries : List (Slot × Status) := []
  deriving DecidableEq, Repr

namespace Recent

def lookup? (r : Recent) (slot : Slot) : Option Status :=
  (r.entries.find? fun e => e.1 = slot).map Prod.snd

def without (r : Recent) (slot : Slot) : List (Slot × Status) :=
  r.entries.filter fun e => e.1 ≠ slot

def put (r : Recent) (slot : Slot) (status : Status) : Recent :=
  { r with entries := ((slot, status) :: r.without slot).take r.capacity }

/-- A hit counts as a use, a miss does not. -/
def touch (r : Recent) (slot : Slot) : Recent :=
  match r.lookup? slot with
  | some status => { r with entries := (slot, status) :: r.without slot }
  | none => r

end Recent

structure StatusHandle where
  slot : Slot
  waiter : Nat
  deriving DecidableEq, Repr

structure Tracker where
  waiters : ExtTreeMap Slot (List Nat) compare := ∅
  completed : Recent
  latest : ExtTreeMap CommandId (Nat × Status) compare := ∅
  delivered : List (Nat × Status) := []
  nextWaiter : Nat := 0
  deriving DecidableEq

namespace Tracker

def ofCapacity (capacity : Nat) : Tracker :=
  { completed := { capacity := max capacity 1 } }

def waitersOf (t : Tracker) (slot : Slot) : List Nat :=
  (t.waiters[slot]?).getD []

def register (t : Tracker) (slot : Slot) : StatusHandle × Tracker :=
  let t' := { t with completed := t.completed.touch slot, nextWaiter := t.nextWaiter + 1 }
  match t.completed.lookup? slot with
  | some status =>
    (⟨slot, t.nextWaiter⟩, { t' with delivered := (t.nextWaiter, status) :: t.delivered })
  | none =>
    (⟨slot, t.nextWaiter⟩,
      { t' with waiters := t.waiters.insert slot (t.waitersOf slot ++ [t.nextWaiter]) })

/-- Whether a status replaces the last known one: it comes from a later offset, or from the same
offset, where it is further along and the known one is not final. -/
def supersedes (offset : Nat) (status : Status) : Option (Nat × Status) → Bool
  | none => true
  | some (n, known) =>
    n < offset ||
      (n == offset && !known.isTerminal && known.kind.progress ≤ status.kind.progress)

def note (t : Tracker) (slot : Slot) (status : Status) : Tracker :=
  if supersedes slot.offset status t.latest[slot.id]? then
    { t with latest := t.latest.insert slot.id (slot.offset, status) }
  else t

def resolve (t : Tracker) (slot : Slot) (status : Status) : Tracker :=
  { t with
    completed := t.completed.put slot status
    waiters := t.waiters.erase slot
    delivered := (t.waitersOf slot).map (fun w => (w, status)) ++ t.delivered }

def publish (t : Tracker) (slot : Slot) (status : Status) : Tracker :=
  if status.isTerminal then (t.note slot status).resolve slot status else t.note slot status

def markQueued (t : Tracker) (slot : Slot) : Tracker :=
  t.publish slot .queued

inductive Waiting where
  | resolved (status : Status)
  | pending
  | dropped
  deriving DecidableEq, Repr

def outcome (t : Tracker) (h : StatusHandle) : Waiting :=
  match t.delivered.lookup h.waiter with
  | some status => .resolved status
  | none => if h.waiter ∈ t.waitersOf h.slot then .pending else .dropped

/-- Takes one waiter off the table, and its slot with the last one. -/
def evict (t : Tracker) (h : StatusHandle) : Tracker :=
  match t.waiters[h.slot]? with
  | none => t
  | some ws =>
    match ws.filter (· ≠ h.waiter) with
    | [] => { t with waiters := t.waiters.erase h.slot }
    | ws => { t with waiters := t.waiters.insert h.slot ws }

def status? (t : Tracker) (id : CommandId) : Option Status :=
  (t.latest[id]?).map Prod.snd

def statuses (t : Tracker) : List (CommandId × Status) :=
  t.latest.toList.map fun (id, _, status) => (id, status)

def pendingWaiters (t : Tracker) : Nat :=
  (t.waiters.toList.flatMap Prod.snd).length

def close (t : Tracker) : Tracker :=
  { t with waiters := ∅ }

end Tracker

end StatementLog
