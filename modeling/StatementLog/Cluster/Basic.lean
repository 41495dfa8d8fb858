import StatementLog.Node.Activity

namespace StatementLog

structure Task where
  number : Nat
  node : Nat
  activity : Activity
  since : Nat := 0

/-- A call of an executor, as the node saw it that took the executor over last. -/
structure ExecutorEvent where
  time : Nat
  state : RunnerState
  status : Option StatusKind
  call : ExecutorCall

structure Cluster (μ κ ε : Type) where
  now : Nat := 0
  origin : Int := 0
  log : μ
  broker : Broker := {}
  trackers : List Tracker := []
  executors : List ε := []
  nodes : List (Node κ) := []
  history : List ExecutorEvent := []
  tasks : List Task := []
  replies : List (Nat × Reply) := []
  nextTask : Nat := 0

namespace Cluster

variable {μ κ ε : Type}

def site? (c : Cluster μ κ ε) (node : Nat) : Option (Site μ κ ε) := do
  let n ← c.nodes[node]?
  return {
    now := c.now, origin := c.origin, log := c.log, broker := c.broker
    tracker := ← c.trackers[n.tracker]?, executor := ← c.executors[n.executor]?, node := n }

def holder? (c : Cluster μ κ ε) (executor : Nat) : Option (Node κ) :=
  c.nodes.findRev? fun n => n.executor == executor

def statusKind? (c : Cluster μ κ ε) (n : Node κ) : ExecutorCall → Option StatusKind
  | .apply command _ _ => do return (← (← c.trackers[n.tracker]?).status? command.id).kind
  | .finishReplay _ => none

def observe (c : Cluster μ κ ε) (n : Node κ) (call : ExecutorCall) : ExecutorEvent :=
  let holder := (c.holder? n.executor).getD n
  ⟨c.now, holder.runner.state, c.statusKind? holder call, call⟩

def absorb (c : Cluster μ κ ε) (node : Nat) (s : Site μ κ ε) : Cluster μ κ ε :=
  { c with
    log := s.log
    broker := s.broker
    trackers := c.trackers.set s.node.tracker s.tracker
    executors := c.executors.set s.node.executor s.executor
    nodes := c.nodes.set node s.node
    history := s.calls.map (c.observe s.node) ++ c.history }

def addNode (c : Cluster μ κ ε) (config : Config) (client : κ) (executor : ε) :
    Nat × Cluster μ κ ε :=
  (c.nodes.length,
    { c with
      trackers := c.trackers ++ [.ofCapacity config.statusCapacity]
      executors := c.executors ++ [executor]
      nodes := c.nodes ++ [.ofConfig config client c.trackers.length c.executors.length] })

def mapNode (c : Cluster μ κ ε) (node : Nat) (f : Node κ → Node κ) : Cluster μ κ ε :=
  { c with nodes := c.nodes.modify node f }

def mapTracker (c : Cluster μ κ ε) (node : Nat) (f : Tracker → Tracker) : Cluster μ κ ε :=
  match c.nodes[node]? with
  | some n => { c with trackers := c.trackers.modify n.tracker f }
  | none => c

def tracker? (c : Cluster μ κ ε) (node : Nat) : Option Tracker :=
  (c.nodes[node]?).bind fun n => c.trackers[n.tracker]?

def executor? (c : Cluster μ κ ε) (node : Nat) : Option ε :=
  (c.nodes[node]?).bind fun n => c.executors[n.executor]?

def task? (c : Cluster μ κ ε) (task : Nat) : Option Task :=
  c.tasks.find? fun t => t.number == task

def setTask (c : Cluster μ κ ε) (task : Nat) (f : Task → Task) : Cluster μ κ ε :=
  { c with tasks := c.tasks.map fun t => if t.number == task then f t else t }

def removeTask (c : Cluster μ κ ε) (task : Nat) : Cluster μ κ ε :=
  { c with tasks := c.tasks.filter fun t => t.number != task }

def spawn (c : Cluster μ κ ε) (node : Nat) (activity : Activity) : Nat × Cluster μ κ ε :=
  (c.nextTask,
    { c with
      tasks := c.tasks ++ [{ number := c.nextTask, node, activity }]
      nextTask := c.nextTask + 1 })

def spawnAll (c : Cluster μ κ ε) (node : Nat) (activities : List Activity) : Cluster μ κ ε :=
  activities.foldl (fun c a => (c.spawn node a).2) c

def inUse (c : Cluster μ κ ε) (node : Nat) : Bool :=
  c.tasks.any fun t => t.node == node && !t.activity.isOwn

/-- A forgotten node that nobody uses loses the handle on its runner, and a replaced runner that
nobody has in hand is dropped. -/
def tidy (c : Cluster μ κ ε) (node : Nat) : Cluster μ κ ε :=
  c.mapNode node fun n =>
    if n.forgotten && n.handle && !c.inUse node then n.dropHandle
    else if n.replaced && !n.spawned && n.claims.isEmpty then n.dropRunner
    else n

def forget (c : Cluster μ κ ε) (node : Nat) : Cluster μ κ ε :=
  (c.mapNode node fun n => { n with forgotten := true }).tidy node

def abandon (c : Cluster μ κ ε) (task : Nat) : Cluster μ κ ε :=
  match c.task? task with
  | none => c
  | some t =>
    let c := (c.removeTask task).mapNode t.node fun n =>
      let n := (n.depart task).release task
      if t.activity.holdsHandle then n.dropHandle else n
    c.tidy t.node

def replace (c : Cluster μ κ ε) (node : Nat) : Cluster μ κ ε :=
  (c.mapNode node fun n =>
    { (if n.handle then n.dropHandle else n) with replaced := true }).tidy node

def succeed (c : Cluster μ κ ε) (node : Nat) (client : κ) (tracker : Option Tracker) :
    Nat × Cluster μ κ ε :=
  match c.nodes[node]? with
  | none => (node, c)
  | some n =>
    let number := if tracker.isSome then c.trackers.length else n.tracker
    (c.nodes.length,
      { c with
        trackers := c.trackers ++ tracker.toList
        nodes := c.nodes ++ [n.successor client number] }.replace node)

variable [CommandLog μ κ] [Executor ε]

def step? (c : Cluster μ κ ε) (task : Nat) : Option (Cluster μ κ ε) := do
  let t ← c.task? task
  let site ← c.site? t.node
  match t.activity.step task site with
  | .wait => none
  | .next site activity =>
    return ((c.absorb t.node site).setTask task fun t => { t with activity }).spawnAll t.node
      t.activity.offspring
  | .done site reply =>
    let c := ((c.absorb t.node site).removeTask task).spawnAll t.node t.activity.offspring
    return { c with replies := (task, reply) :: c.replies }.tidy t.node

end Cluster

end StatementLog
