import StatementLog.Node.Lifecycle

namespace StatementLog

inductive Answer where
  | done
  | appended (offset : Nat)
  | batch (commands : List Command)
  | status (status : Status)
  | submitted (slot : Slot)
  | ended (status : Option Status)
  | replayed (outcome : ReplayOutcome)
  | ending (position : Nat)
  | flag (value : Bool)
  | vacant
  deriving DecidableEq

abbrev Reply := Except Error Answer

inductive Activity where
  | sleeping (wake : Nat)
  | appending (stage : Appending)
  | polling (stage : Polling)
  | rewinding (stage : Rewinding)
  | measuring
  | probing
  | detaching
  | awaiting (stage : Awaiting)
  | submitting (stage : Submitting)
  | following (stage : Following)
  | executing (stage : Executing)
  | preparing (stage : Preparing)
  | running (stage : Running)
  | retiring (stage : Retiring)
  | attending (stage : Attending)
  | watching (state : RunnerState)
  | terminating (stage : Terminating)
  | closing (stage : Closing)
  | starting (stage : Starting)

namespace Activity

variable {μ κ ε : Type} [CommandLog μ κ] [Executor ε]

def answer {α : Type} (f : α → Answer) (s : Site μ κ ε) (r : Except Error α) :
    Move (Site μ κ ε) Activity Reply :=
  .done s (r.map f)

def step (task : Nat) (s : Site μ κ ε) : Activity → Move (Site μ κ ε) Activity Reply
  | sleeping wake => if wake ≤ s.now then .done s (.ok .done) else .wait
  | appending stage => (stage.step s).within appending (answer .appended)
  | polling stage => (stage.step task s).within polling (answer .batch)
  | rewinding stage => (stage.step task s).within rewinding (answer fun _ => .done)
  | measuring =>
    let (r, s) := s.endPosition
    answer .ending s r
  | probing =>
    let (r, s) := s.endPosition
    answer (fun n => .flag (n == 0)) s r
  | detaching => .done s.closeClient (.ok .done)
  | awaiting stage => (stage.step s).within awaiting (answer .status)
  | submitting stage => (stage.step s).within submitting (answer .submitted)
  | following stage => (stage.step s).within following (answer .status)
  | executing stage => (stage.step s).within executing (answer .status)
  | preparing stage =>
    (stage.step task s).within preparing (answer fun r => r.elim .done .replayed)
  | running stage => (stage.step task s).within running (answer fun _ => .done)
  | retiring stage => (stage.step s).within retiring fun s _ => .done s (.ok .done)
  | attending stage =>
    (stage.step s).within attending fun s r =>
      match r with
      | some result => answer (fun _ => .done) s result
      | none => .done s (.ok .vacant)
  | watching state =>
    if s.node.runner.state = state then .done s (.ok (.flag true))
    else if s.node.runner.gone then .done s (.ok (.flag false))
    else .wait
  | terminating stage => (stage.step s).within terminating (answer .ended)
  | closing stage => (stage.step s).within closing (answer fun _ => .done)
  | starting stage => (stage.step task s).within starting (answer .replayed)

def alarm : Activity → Option Nat
  | sleeping wake => some wake
  | polling stage => stage.alarm
  | awaiting stage => stage.alarm
  | following stage => stage.alarm
  | executing stage => stage.alarm
  | preparing stage => stage.alarm
  | running stage => stage.alarm
  | terminating stage => stage.alarm
  | starting stage => stage.alarm
  | _ => none

/-- The tasks that a step sets off: a runner goes into service, in a node that has caught up
together with the closer. -/
def offspring : Activity → List Activity
  | starting (.launching _) => [running .starting, retiring .watching]
  | preparing (.waiting true) => [running .starting]
  | _ => []

def holdsHandle : Activity → Bool
  | attending stage => stage.holdsHandle
  | terminating stage => stage.holdsHandle
  | closing stage => stage.holdsHandle
  | _ => false

def isOwn : Activity → Bool
  | running _ | retiring _ => true
  | _ => false

end Activity

end StatementLog
