import StatementLog.Node.Runner
import StatementLog.Node.Submission
import StatementLog.Statement.Termination

namespace StatementLog

variable {μ κ ε : Type}

inductive Joining where
  | watching
  | collecting

namespace Joining

def step (s : Site μ κ ε) : Joining → Move (Site μ κ ε) Joining (Except Error Unit)
  | watching =>
    if s.node.runner.state = .stopped || s.node.runner.gone then .next s collecting else .wait
  | collecting =>
    match s.node.runner.result with
    | some result => .done s result
    | none => .wait

end Joining

/-- Takes the handle on a runner and sees the runner to its end, which it may have to ask for. -/
inductive Attending where
  | taking (stop : Bool)
  | joining (stage : Joining)

namespace Attending

def step (s : Site μ κ ε) : Attending → Move (Site μ κ ε) Attending (Option (Except Error Unit))
  | taking stop =>
    if !s.node.handle then .done s none
    else if stop then .next (s.mapNode fun n => n.requestStop.takeHandle) (joining .collecting)
    else .next (s.mapNode Node.takeHandle) (joining .watching)
  | joining stage => (stage.step s).within joining fun s r => .done s (some r)

def holdsHandle : Attending → Bool
  | joining _ => true
  | taking _ => false

end Attending

/-- Closes the queue and the tracker once the runner has stopped, for whatever reason. -/
inductive Retiring where
  | watching
  | closingQueue
  | closingTracker

namespace Retiring

def step (s : Site μ κ ε) : Retiring → Move (Site μ κ ε) Retiring Unit
  | watching =>
    if s.node.runner.state = .stopped || s.node.runner.gone then .next s closingQueue else .wait
  | closingQueue => .next (s.mapNode Node.markNotReady) closingTracker
  | closingTracker => .done s.closeTracker ()

end Retiring

inductive Leaving where
  | closingQueue
  | closingTracker
  | closingLog

namespace Leaving

variable [CommandLog μ κ]

def step (s : Site μ κ ε) : Leaving → Move (Site μ κ ε) Leaving Unit
  | closingQueue => .next (s.mapNode Node.markNotReady) closingTracker
  | closingTracker => .next s.closeTracker closingLog
  | closingLog => .done s.closeClient ()

end Leaving

inductive Terminating where
  | checking (text : String)
  | taking (text : String)
  | submitting (stage : Submitting)
  | registering (slot : Slot)
  | returning (error : Error)
  | joining (handle : StatusHandle) (stage : Joining)
  | settling (stage : Awaiting)
  | leaving (status : Option Status) (stage : Leaving)

namespace Terminating

variable [CommandLog μ κ]

def step (s : Site μ κ ε) :
    Terminating → Move (Site μ κ ε) Terminating (Except Error (Option Status))
  | checking text =>
    match Statement.readId text with
    | .error fault => .done s (.error (.parse fault))
    | .ok id =>
      if id.isClusterTerminate then .next s (taking text)
      else .done s (.error (.parse (.notTermination text)))
  | taking text =>
    if s.node.handle then
      .next (s.mapNode Node.takeHandle) (submitting (.gate { text }))
    else .done s (.ok none)
  | submitting stage =>
    (stage.step s).within submitting fun s r =>
      match r with
      | .error e => .next s (returning e)
      | .ok slot => .next s (registering slot)
  | registering slot =>
    let (handle, tracker) := s.tracker.register slot
    .next { s with tracker } (joining handle .watching)
  | returning e => .done (s.mapNode fun n => { n with handle := true }) (.error e)
  | joining handle stage =>
    (stage.step s).within (joining handle) fun s r =>
      match r with
      | .error e => .done s (.error e)
      | .ok () => .next s (settling (.arriving handle 0))
  | settling stage =>
    (stage.step s).within settling fun s r => .next s (leaving r.toOption .closingQueue)
  | leaving status stage =>
    (stage.step s).within (leaving status) fun s _ => .done s (.ok status)

/-- Whether the handle on the runner is lost when the call is given up here. -/
def holdsHandle : Terminating → Bool
  | submitting _ | registering _ | returning _ | joining _ _ => true
  | _ => false

def alarm : Terminating → Option Nat
  | settling stage => stage.alarm
  | _ => none

end Terminating

inductive Closing where
  | closingQueue
  | taking
  | collecting
  | leaving (result : Except Error Unit) (stage : Leaving)

namespace Closing

variable [CommandLog μ κ]

def step (s : Site μ κ ε) : Closing → Move (Site μ κ ε) Closing (Except Error Unit)
  | closingQueue => .next (s.mapNode Node.markNotReady) taking
  | taking =>
    if s.node.handle then
      .next (s.mapNode fun n => n.requestStop.takeHandle) collecting
    else
      .next (s.mapNode Node.stop) (leaving (.ok ()) .closingQueue)
  | collecting =>
    match s.node.runner.result with
    | some result => .next s (leaving result .closingQueue)
    | none => .wait
  | leaving result stage =>
    (stage.step s).within (leaving result) fun s _ => .done s result

def holdsHandle : Closing → Bool
  | collecting => true
  | _ => false

end Closing

structure Parts where
  log : Bool := true
  executor : Bool := true
  broker : Bool := true
  deriving DecidableEq, Repr

/-- Starts a node. On an empty log it first enqueues the processing-log stream, if the
configuration asks for it; it serves once the replay is through. -/
inductive Starting where
  | checking (parts : Parts)
  | probing (broker : Bool)
  | provisioning (broker : Bool)
  | creatingTopic
  | enqueuing (stage : Submitting)
  | replaying (stage : Replaying)
  | opening (replayed : Nat)
  | launching (replayed : Nat)
  | refusing (error : Option String)

namespace Starting

variable [CommandLog μ κ] [Executor ε]

def check (config : Config) (parts : Parts) : Except ConfigFault Unit := do
  config.validate
  if !parts.log then throw .noLog
  if !parts.executor then throw .noExecutor

def enqueue (s : Site μ κ ε) : Starting :=
  enqueuing (.naming { text := s.node.config.processingLogStatement })

def step (task : Nat) (s : Site μ κ ε) :
    Starting → Move (Site μ κ ε) Starting (Except Error ReplayOutcome)
  | checking parts =>
    match check s.node.config parts with
    | .error fault => .done s (.error (.config fault))
    | .ok () =>
      if s.node.config.processingLog then .next s (probing parts.broker)
      else .next s (replaying .starting)
  | probing broker =>
    match s.endPosition with
    | (.error e, s) => .done s (.error e)
    | (.ok n, s) => if n = 0 then .next s (provisioning broker) else .next s (replaying .starting)
  | provisioning broker =>
    if !broker then .next s (replaying .starting)
    else match s.broker.topicExists s.node.config.processingLogTopic with
      | .error _ => .next s (replaying .starting)
      | .ok true => .next s (enqueue s)
      | .ok false => .next s creatingTopic
  | creatingTopic =>
    match s.broker.createTopic s.node.config.processingLogTopic with
    | .error _ => .next s (replaying .starting)
    | .ok broker => .next { s with broker } (enqueue s)
  | enqueuing stage =>
    (stage.step s).within enqueuing fun s r =>
      match r with
      | .error e => .done s (.error e)
      | .ok _ => .next s (replaying .starting)
  | replaying stage =>
    (stage.step task s).within replaying fun s r =>
      match r with
      | .error e => .done s (.error e)
      | .ok (.completed replayed) => .next s (opening replayed)
      | .ok (.terminated error) => .next s (refusing error)
      | .ok .interrupted => .done s (.ok .interrupted)
  | opening replayed => .next (s.mapNode Node.markReady) (launching replayed)
  | launching replayed =>
    .done (s.mapNode Node.launch) (.ok (.completed replayed))
  | refusing error => .done (s.closeTracker.mapNode Node.dropRunner) (.ok (.terminated error))

def alarm : Starting → Option Nat
  | replaying stage => stage.alarm
  | _ => none

end Starting

end StatementLog
