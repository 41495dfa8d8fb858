import StatementLog.Node.Basic

namespace StatementLog

variable {μ κ ε : Type} [CommandLog μ κ]

inductive Appending where
  | writing (id : CommandId) (payload : Payload)
  | announcing (offset : Nat)

def Appending.step (s : Site μ κ ε) :
    Appending → Move (Site μ κ ε) Appending (Except Error Nat)
  | writing id payload =>
    match CommandLog.append s.log s.node.client ⟨id, payload, s.origin + s.now⟩ with
    | (.error e, log) => .done { s with log } (.error e)
    | (.ok offset, log) => .next { s with log } (announcing offset)
  | announcing offset => .done s.announce (.ok offset)

inductive Polling where
  | arriving (timeout : Nat)
  | queued (timeout : Nat)
  | enlisting (deadline : Nat)
  | checking (deadline epoch : Nat)
  | reading (deadline epoch : Nat)
  | waiting (deadline epoch : Nat) (look : Option Nat)

namespace Polling

def finish (s : Site μ κ ε) (task : Nat) (result : Except Error (List Command)) :
    Move (Site μ κ ε) Polling (Except Error (List Command)) :=
  .done (s.mapNode fun n => n.depart task) result

def step (task : Nat) (s : Site μ κ ε) :
    Polling → Move (Site μ κ ε) Polling (Except Error (List Command))
  | arriving timeout => .next (s.mapNode fun n => n.arrive task) (queued timeout)
  | queued timeout =>
    if s.node.hasTurn task then .next s (enlisting (s.now + timeout)) else .wait
  | enlisting deadline => .next s (checking deadline s.epoch)
  | checking deadline epoch =>
    match s.check with
    | .error e => finish s task (.error e)
    | .ok () => .next s (reading deadline epoch)
  | reading deadline epoch =>
    let patience := CommandLog.patience s.log s.node.client
    match CommandLog.read s.log s.node.client with
    | (.error e, client) => finish (s.mapNode fun n => { n with client }) task (.error e)
    | (.ok [], client) =>
      let s := s.mapNode fun n => { n with client }
      match patience with
      | none => .next s (waiting deadline epoch none)
      | some p =>
        if deadline ≤ s.now then finish s task (.ok [])
        else .next s (waiting deadline epoch (some (s.now + p)))
    | (.ok (c :: cs), client) =>
      finish (s.mapNode fun n => { n with client }) task (.ok (c :: cs))
  | waiting deadline epoch look =>
    if s.epoch ≠ epoch then .next s (enlisting deadline)
    else match look with
      | none => if deadline ≤ s.now then finish s task (.ok []) else .wait
      | some t => if min t deadline ≤ s.now then .next s (enlisting deadline) else .wait

def alarm : Polling → Option Nat
  | waiting deadline _ none => some deadline
  | waiting deadline _ (some t) => some (min t deadline)
  | _ => none

end Polling

inductive Rewinding where
  | arriving
  | queued

namespace Rewinding

def step (task : Nat) (s : Site μ κ ε) :
    Rewinding → Move (Site μ κ ε) Rewinding (Except Error Unit)
  | arriving =>
    match s.check with
    | .error e => .done s (.error e)
    | .ok () => .next (s.mapNode fun n => n.arrive task) queued
  | queued =>
    if s.node.hasTurn task then
      .done (s.mapNode fun n =>
        { n.depart task with client := CommandLog.rewind μ n.client }) (.ok ())
    else .wait

end Rewinding

def Site.endPosition (s : Site μ κ ε) : Except Error Nat × Site μ κ ε :=
  let (r, log) := CommandLog.endPosition s.log s.node.client
  (r, { s with log })

end StatementLog
