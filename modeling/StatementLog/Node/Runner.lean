import StatementLog.Node.Log

namespace StatementLog

variable {μ κ ε : Type}

inductive Conclusion where
  | applied (effect : Effect)
  | failed (failure : Failure)
  | interrupted
  deriving DecidableEq, Repr

inductive AttemptStage where
  | announcing
  | trying
  | pausing (wake : Nat)
  | reporting (status : Status) (conclusion : Conclusion)
  | advancing (conclusion : Conclusion)

structure Applying where
  command : Command
  mode : Mode
  transient : Nat := 0
  infrastructure : Nat := 0
  stage : AttemptStage := .announcing

namespace Applying

def slot (a : Applying) : Slot :=
  ⟨a.command.id, a.command.offset⟩

def failureMessage (a : Applying) (message : String) : String :=
  if 0 < a.transient then message ++ s!" (gave up after {a.transient} attempts)" else message

def count (a : Applying) : FailureKind → Applying
  | .transient => { a with transient := a.transient + 1 }
  | .infrastructure => { a with infrastructure := a.infrastructure + 1 }
  | .fatal => a

def attempts (a : Applying) : FailureKind → Nat
  | .transient => a.transient
  | .infrastructure => a.infrastructure
  | .fatal => 1

def afterFailure (a : Applying) (s : Site μ κ ε) (f : Failure) :
    Move (Site μ κ ε) Applying Conclusion :=
  match s.node.runner.policy.decide f.kind (a.attempts f.kind) with
  | .retryAfter delay => .next s { a with stage := .pausing (s.now + delay) }
  | .pauseAfter delay =>
    .next (s.setState .degraded) { a with stage := .pausing (s.now + delay) }
  | .terminal =>
    .next (s.setState (.ofMode a.mode))
      { a with stage := .reporting (.error (a.failureMessage f.message)) (.failed f) }

def attempt [Executor ε] (a : Applying) (s : Site μ κ ε) :
    Except Failure Effect × Site μ κ ε :=
  let (result, executor, broker) := Executor.apply s.executor s.broker a.command a.mode
  (result, { s with executor, broker }.record (.apply a.command a.mode result))

def step [Executor ε] (s : Site μ κ ε) (a : Applying) : Move (Site μ κ ε) Applying Conclusion :=
  match a.stage with
  | .announcing => .next (s.publish a.slot .executing) { a with stage := .trying }
  | .trying =>
    match a.attempt s with
    | (.ok effect, s) =>
      .next (s.setState (.ofMode a.mode))
        { a with stage := .reporting (.success effect.message) (.applied effect) }
    | (.error f, s) => (a.count f.kind).afterFailure s f
  | .pausing wake =>
    if s.node.runner.stopRequested then .done s .interrupted
    else if wake ≤ s.now then .next s { a with stage := .trying }
    else .wait
  | .reporting status conclusion =>
    .next (s.publish a.slot status) { a with stage := .advancing conclusion }
  | .advancing conclusion =>
    .done (s.mapRunner fun r =>
      { r with applied := max r.applied (Offset.next a.command.offset) }) conclusion

def alarm (a : Applying) : Option Nat :=
  match a.stage with
  | .pausing wake => some wake
  | _ => none

end Applying

inductive Replaying where
  | starting
  | rewinding (stage : Rewinding)
  | measuring
  | fetching (limit : Nat) (backlog : List Command)
  | polling (limit : Nat) (backlog : List Command) (stage : Polling)
  | sorting (limit : Nat) (backlog : List Command)
  | terminating (limit : Nat) (attempt : Applying)
  | resuming (rest : List Command) (replayed : Nat)
  | applying (rest : List Command) (replayed : Nat) (attempt : Applying)
  | finishing (replayed : Nat)

namespace Replaying

variable [CommandLog μ κ] [Executor ε]

def below (limit : Nat) (batch : List Command) : List Command :=
  batch.filter fun c => c.offset < limit

def beyond (limit : Nat) (batch : List Command) : List Command :=
  batch.filter fun c => limit ≤ c.offset

/-- The log ends with the cluster: nothing before or after the termination is applied. -/
def terminate (s : Site μ κ ε) (limit : Nat) (error : Option String) :
    Move (Site μ κ ε) Replaying (Except Error ReplayOutcome) :=
  .done (s.mapRunner fun r =>
    { r with applied := limit, terminated := true, state := .stopped })
    (.ok (.terminated error))

def step (task : Nat) (s : Site μ κ ε) :
    Replaying → Move (Site μ κ ε) Replaying (Except Error ReplayOutcome)
  | starting => .next (s.setState .starting) (rewinding .arriving)
  | rewinding stage =>
    (stage.step task s).within rewinding fun s r =>
      match r with
      | .error e => .done s (.error e)
      | .ok () => .next s measuring
  | measuring =>
    match s.endPosition with
    | (.error e, s) => .done s (.error e)
    | (.ok limit, s) => .next s (fetching limit [])
  | fetching limit backlog =>
    if s.position < limit then
      if s.node.runner.stopRequested then .done s (.ok .interrupted)
      else .next s (polling limit backlog (.arriving s.node.runner.pollTimeout))
    else .next s (sorting limit backlog)
  | polling limit backlog stage =>
    (stage.step task s).within (polling limit backlog) fun s r =>
      match r with
      | .error e => .done s (.error e)
      | .ok batch =>
        .next (s.mapRunner fun r => { r with pending := r.pending ++ beyond limit batch })
          (fetching limit (backlog ++ below limit batch))
  | sorting limit backlog =>
    match findTermination backlog with
    | some c =>
      .next (s.mapRunner fun r => { r with pending := [] })
        (terminating limit { command := c, mode := .replay })
    | none => .next s (resuming backlog 0)
  | terminating limit attempt =>
    (attempt.step s).within (terminating limit) fun s conclusion =>
      match conclusion with
      | .interrupted => .done s (.ok .interrupted)
      | .applied _ => terminate s limit none
      | .failed f => terminate s limit (some f.message)
  | resuming rest replayed =>
    match rest with
    | [] => .next s (finishing replayed)
    | c :: rest => .next s (applying rest replayed { command := c, mode := .replay })
  | applying rest replayed attempt =>
    (attempt.step s).within (applying rest replayed) fun s conclusion =>
      match conclusion with
      | .interrupted => .done s (.ok .interrupted)
      | _ => .next s (resuming rest (replayed + 1))
  | finishing replayed =>
    let (result, executor) := Executor.finishReplay s.executor
    let s := { s with executor }.record (.finishReplay result)
    match result with
    | .error f => .done s (.error (.applyFailed f))
    | .ok () => .done s (.ok (.completed replayed))

def alarm : Replaying → Option Nat
  | polling _ _ stage => stage.alarm
  | terminating _ attempt => attempt.alarm
  | applying _ _ attempt => attempt.alarm
  | _ => none

end Replaying

inductive Running where
  | starting
  | idle
  | polling (stage : Polling)
  | batch (rest : List Command)
  | applying (rest : List Command) (attempt : Applying)
  | stopping (result : Except Error Unit)

namespace Running

variable [CommandLog μ κ] [Executor ε]

def finish (s : Site μ κ ε) (result : Option (Except Error Unit)) :
    Move (Site μ κ ε) Running (Except Error Unit) :=
  .done (s.mapRunner fun r => { r with gone := true, result }) (result.getD (.ok ()))

def step (task : Nat) (s : Site μ κ ε) (stage : Running) :
    Move (Site μ κ ε) Running (Except Error Unit) :=
  if s.node.runner.aborted then finish (s.mapNode fun n => n.depart task) none
  else match stage with
    | starting =>
      if s.node.runner.terminated then .next s (stopping (.ok ()))
      else .next (s.setState .running) idle
    | idle =>
      if s.node.runner.stopRequested then .next s (stopping (.ok ()))
      else match s.node.runner.pending with
        | [] => .next s (polling (.arriving s.node.runner.pollTimeout))
        | c :: cs => .next (s.mapRunner fun r => { r with pending := [] }) (batch (c :: cs))
    | polling stage =>
      if s.node.runner.stopRequested then
        .next (s.mapNode fun n => n.depart task) (stopping (.ok ()))
      else
        (stage.step task s).within polling fun s r =>
          match r with
          | .error e => .next s (stopping (.error e))
          | .ok commands => .next s (batch commands)
    | batch [] => .next s idle
    | batch (c :: rest) =>
      if c.offset < s.node.runner.applied then .next s (batch rest)
      else .next s (applying rest { command := c, mode := .live })
    | applying rest attempt =>
      (attempt.step s).within (applying rest) fun s conclusion =>
        match conclusion with
        | .interrupted => .next s (stopping (.ok ()))
        | .applied effect =>
          if effect.shutdown then
            .next (s.mapRunner fun r => { r with terminated := true }) (stopping (.ok ()))
          else .next s (batch rest)
        | .failed _ => .next s (batch rest)
    | stopping result => finish (s.setState .stopped) (some result)

def alarm : Running → Option Nat
  | polling stage => stage.alarm
  | applying _ attempt => attempt.alarm
  | _ => none

end Running

/-- What is done with a runner before it is in service, by one task at a time: it replays the log,
or it is put into service. -/
inductive Preparing where
  | claiming (launch : Bool)
  | waiting (launch : Bool)
  | replaying (stage : Replaying)

namespace Preparing

variable [CommandLog μ κ] [Executor ε]

def step (task : Nat) (s : Site μ κ ε) :
    Preparing → Move (Site μ κ ε) Preparing (Except Error (Option ReplayOutcome))
  | claiming launch => .next (s.mapNode fun n => n.claim task) (waiting launch)
  | waiting launch =>
    if s.node.hasRunner task then
      if launch then .done (s.mapNode fun n => (n.release task).launch) (.ok none)
      else .next s (replaying .starting)
    else .wait
  | replaying stage =>
    (stage.step task s).within replaying fun s r =>
      .done (s.mapNode fun n => n.release task) (r.map some)

def alarm : Preparing → Option Nat
  | replaying stage => stage.alarm
  | _ => none

end Preparing

end StatementLog
