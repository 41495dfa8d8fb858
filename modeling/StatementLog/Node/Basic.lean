import StatementLog.Config.Basic
import StatementLog.Executor
import StatementLog.Log.Basic
import StatementLog.RetryPolicy
import StatementLog.Tracker

/-!
A node: its client of the log, its queue and its runner. The tracker and the executor that it
works with are known to it by number, for a node may take them over from another. A site is what
one task of a node sees and changes: the node with its tracker and its executor, and the log and
the broker that all nodes share.
-/

namespace StatementLog

inductive RunnerState where
  | starting
  | running
  | degraded
  | stopped
  deriving DecidableEq, Repr

def RunnerState.name : RunnerState → String
  | .starting => "STARTING"
  | .running => "RUNNING"
  | .degraded => "DEGRADED"
  | .stopped => "STOPPED"

def RunnerState.all : List RunnerState :=
  [.starting, .running, .degraded, .stopped]

def RunnerState.named? (s : String) : Option RunnerState :=
  all.find? fun k => k.name == s

def RunnerState.ofMode : Mode → RunnerState
  | .replay => .starting
  | .live => .running

inductive ReplayOutcome where
  | completed (replayed : Nat)
  | terminated (error : Option String)
  | interrupted
  deriving DecidableEq, Repr

inductive ExecutorCall where
  | apply (command : Command) (mode : Mode) (result : Except Failure Effect)
  | finishReplay (result : Except Failure Unit)

structure Runner where
  policy : RetryPolicy := {}
  pollTimeout : Nat := 100
  pending : List Command := []
  applied : Nat := 0
  state : RunnerState := .starting
  terminated : Bool := false
  stopRequested : Bool := false
  aborted : Bool := false
  /-- The task has ended, so the state changes no more. -/
  gone : Bool := false
  result : Option (Except Error Unit) := none

structure Queue where
  ready : Bool := false
  properties : Properties := ∅
  followsRunner : Bool := true
  deriving DecidableEq

structure Node (κ : Type) where
  config : Config := {}
  client : κ
  /-- Those who read or rewind through the client, in the order of arrival; the first has the turn. -/
  turns : List Nat := []
  tracker : Nat
  executor : Nat
  queue : Queue := {}
  runner : Runner
  /-- Those who want the runner before it is in service, in the order of arrival; the first has it. -/
  claims : List Nat := []
  spawned : Bool := false
  handle : Bool := false
  /-- Nobody holds the node any more but its own calls. -/
  forgotten : Bool := false
  /-- Another runner has taken the place of the node's own. -/
  replaced : Bool := false

structure Site (μ κ ε : Type) where
  now : Nat
  origin : Int
  log : μ
  broker : Broker
  tracker : Tracker
  executor : ε
  node : Node κ
  /-- What reached the executor in this step, the latest first. -/
  calls : List ExecutorCall := []

/-- What a task does next: wait for a change, go on, or end with a result. -/
inductive Move (σ π α : Type) where
  | wait
  | next (site : σ) (stage : π)
  | done (site : σ) (result : α)

namespace Move

variable {σ π π' α β : Type}

def within (m : Move σ π α) (wrap : π → π') (finish : σ → α → Move σ π' β) : Move σ π' β :=
  match m with
  | wait => wait
  | next site stage => next site (wrap stage)
  | done site result => finish site result

end Move

namespace Node

variable {κ : Type}

def ofConfig (config : Config) (client : κ) (tracker executor : Nat) : Node κ where
  config
  client
  tracker
  executor
  queue := { properties := config.properties }
  runner := { policy := config.retryPolicy, pollTimeout := config.pollTimeout }

def successor (n : Node κ) (client : κ) (tracker : Nat) : Node κ where
  config := n.config
  client
  tracker
  executor := n.executor
  queue := n.queue
  runner := { policy := n.runner.policy, pollTimeout := n.runner.pollTimeout }

def runnerStopped (n : Node κ) : Bool :=
  n.queue.followsRunner && n.runner.state = .stopped

def isReady (n : Node κ) : Bool :=
  n.queue.ready && !n.runnerStopped

def markReady (n : Node κ) : Node κ :=
  { n with queue := { n.queue with ready := true } }

def markNotReady (n : Node κ) : Node κ :=
  { n with queue := { n.queue with ready := false } }

def setState (n : Node κ) (state : RunnerState) : Node κ :=
  { n with runner := { n.runner with state } }

def requestStop (n : Node κ) : Node κ :=
  { n with runner := { n.runner with stopRequested := true } }

/-- Tells the runner to stop, which only one in service can be told. -/
def stop (n : Node κ) : Node κ :=
  if n.spawned then n.requestStop else n

/-- Without its handle a runner that has not ended is aborted. -/
def dropHandle (n : Node κ) : Node κ :=
  { n with
    handle := false
    runner := { n.runner with stopRequested := true, aborted := true } }

def launch (n : Node κ) : Node κ :=
  { n with spawned := true, handle := true }

def takeHandle (n : Node κ) : Node κ :=
  { n with handle := false }

def dropRunner (n : Node κ) : Node κ :=
  { n with runner := { n.runner with gone := true } }

def arrive (n : Node κ) (task : Nat) : Node κ :=
  { n with turns := n.turns ++ [task] }

def depart (n : Node κ) (task : Nat) : Node κ :=
  { n with turns := n.turns.erase task }

def claim (n : Node κ) (task : Nat) : Node κ :=
  { n with claims := n.claims ++ [task] }

def release (n : Node κ) (task : Nat) : Node κ :=
  { n with claims := n.claims.erase task }

def hasRunner (n : Node κ) (task : Nat) : Bool :=
  n.claims.head? = some task

def hasTurn (n : Node κ) (task : Nat) : Bool :=
  n.turns.head? = some task

end Node

namespace Site

variable {μ κ ε : Type}

def mapNode (s : Site μ κ ε) (f : Node κ → Node κ) : Site μ κ ε :=
  { s with node := f s.node }

def mapRunner (s : Site μ κ ε) (f : Runner → Runner) : Site μ κ ε :=
  s.mapNode fun n => { n with runner := f n.runner }

def setState (s : Site μ κ ε) (state : RunnerState) : Site μ κ ε :=
  s.mapNode fun n => n.setState state

def publish (s : Site μ κ ε) (slot : Slot) (status : Status) : Site μ κ ε :=
  { s with tracker := s.tracker.publish slot status }

def closeTracker (s : Site μ κ ε) : Site μ κ ε :=
  { s with tracker := s.tracker.close }

def record (s : Site μ κ ε) (call : ExecutorCall) : Site μ κ ε :=
  { s with calls := call :: s.calls }

def check [CommandLog μ κ] (s : Site μ κ ε) : Except Error Unit :=
  CommandLog.check s.log s.node.client

def position [CommandLog μ κ] (s : Site μ κ ε) : Nat :=
  CommandLog.position μ s.node.client

def epoch [CommandLog μ κ] (s : Site μ κ ε) : Nat :=
  CommandLog.epoch s.log s.node.client

def announce [CommandLog μ κ] (s : Site μ κ ε) : Site μ κ ε :=
  { s with log := CommandLog.announce s.log s.node.client }

def closeClient [CommandLog μ κ] (s : Site μ κ ε) : Site μ κ ε :=
  (s.mapNode fun n => { n with client := CommandLog.close μ n.client }).announce

end Site

end StatementLog
