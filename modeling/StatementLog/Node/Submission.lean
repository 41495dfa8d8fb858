import StatementLog.Node.Log
import StatementLog.Statement.Reader

namespace StatementLog

variable {μ κ ε : Type}

inductive Awaiting where
  | arriving (handle : StatusHandle) (timeout : Nat)
  | waiting (handle : StatusHandle) (deadline : Nat)

namespace Awaiting

def step (s : Site μ κ ε) : Awaiting → Move (Site μ κ ε) Awaiting (Except Error Status)
  | arriving handle timeout => .next s (waiting handle (s.now + timeout))
  | waiting handle deadline =>
    match s.tracker.outcome handle with
    | .resolved status => .done s (.ok status)
    | .dropped =>
      .done s (.error (.runnerStopped (.beforeStatus handle.slot.id handle.slot.offset)))
    | .pending =>
      if deadline ≤ s.now then
        .done { s with tracker := s.tracker.evict handle }
          (.error (.statusTimeout handle.slot.id handle.slot.offset))
      else .wait

def alarm : Awaiting → Option Nat
  | waiting _ deadline => some deadline
  | arriving _ _ => none

end Awaiting

inductive Following where
  | registering (slot : Slot) (timeout : Nat)
  | testing (handle : StatusHandle) (timeout : Nat)
  | awaiting (stopped : Bool) (stage : Awaiting)

namespace Following

/-- Once the runner has stopped, no status can follow the ones already published. -/
def conclude (stopped : Bool) : Except Error Status → Except Error Status
  | .error (.statusTimeout id offset) =>
    if stopped then .error (.runnerStopped (.beforeStatus id offset))
    else .error (.statusTimeout id offset)
  | r => r

def step (s : Site μ κ ε) : Following → Move (Site μ κ ε) Following (Except Error Status)
  | registering slot timeout =>
    let (handle, tracker) := s.tracker.register slot
    .next { s with tracker } (testing handle timeout)
  | testing handle timeout =>
    if s.node.runnerStopped then .next s (awaiting true (.arriving handle 0))
    else .next s (awaiting false (.arriving handle timeout))
  | awaiting stopped stage =>
    (stage.step s).within (awaiting stopped) fun s r => .done s (conclude stopped r)

def alarm : Following → Option Nat
  | awaiting _ stage => stage.alarm
  | _ => none

end Following

structure Request where
  text : String
  overrides : Properties := ∅
  deriving DecidableEq

def Request.payload (r : Request) (properties : Properties) : Payload :=
  ⟨r.text, r.overrides, properties⟩

inductive Submitting where
  | gate (request : Request)
  | testing (request : Request)
  | naming (request : Request)
  | appending (id : CommandId) (stage : Appending)
  | marking (slot : Slot)

namespace Submitting

variable [CommandLog μ κ]

def step (s : Site μ κ ε) : Submitting → Move (Site μ κ ε) Submitting (Except Error Slot)
  | gate request =>
    if s.node.queue.ready then .next s (testing request) else .done s (.error .notReady)
  | testing request =>
    if s.node.runnerStopped then
      .done (s.mapNode Node.markNotReady) (.error (.runnerStopped .notAccepting))
    else .next s (naming request)
  | naming request =>
    match Statement.readId request.text with
    | .error fault => .done s (.error (.parse fault))
    | .ok id => .next s (appending id (.writing id (request.payload s.node.queue.properties)))
  | appending id stage =>
    (stage.step s).within (appending id) fun s r =>
      match r with
      | .error e => .done s (.error e)
      | .ok offset => .next s (marking ⟨id, offset⟩)
  | marking slot =>
    .done { s with tracker := s.tracker.markQueued slot } (.ok slot)

end Submitting

inductive Executing where
  | submitting (stage : Submitting) (timeout : Nat)
  | following (stage : Following)

namespace Executing

variable [CommandLog μ κ]

def step (s : Site μ κ ε) : Executing → Move (Site μ κ ε) Executing (Except Error Status)
  | submitting stage timeout =>
    (stage.step s).within (submitting · timeout) fun s r =>
      match r with
      | .error e => .done s (.error e)
      | .ok slot => .next s (following (.registering slot timeout))
  | following stage => (stage.step s).within following .done

def alarm : Executing → Option Nat
  | following stage => stage.alarm
  | submitting _ _ => none

end Executing

end StatementLog
