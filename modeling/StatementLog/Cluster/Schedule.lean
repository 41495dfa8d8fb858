import StatementLog.Cluster.Basic

/-!
One schedule of a cluster: tasks that can go on are queued in the order in which they became able
to, each runs until it has to wait, and the clock moves only when nobody can go on, straight to
the next alarm. A call made from outside runs ahead of the queue. After a wait it goes on when the
queue is empty, but ahead of the queue if it is the clock that lets it go on.
-/

namespace StatementLog

structure Schedule (μ κ ε : Type) where
  cluster : Cluster μ κ ε
  queue : List Nat := []
  waits : Nat := 0

namespace Schedule

variable {μ κ ε : Type} [CommandLog μ κ] [Executor ε]

def isAble (s : Schedule μ κ ε) (task : Nat) : Bool :=
  (s.cluster.step? task).isSome

def rouse (s : Schedule μ κ ε) (busy : List Nat) : Schedule μ κ ε :=
  let able := s.cluster.tasks.filter fun t =>
    !busy.contains t.number && !s.queue.contains t.number && s.isAble t.number
  let able := able.mergeSort fun a b => a.since ≤ b.since
  { s with queue := s.queue ++ able.map Task.number }

def act (s : Schedule μ κ ε) (f : Cluster μ κ ε → Cluster μ κ ε) : Schedule μ κ ε :=
  ({ s with cluster := f s.cluster }).rouse []

def spawn (s : Schedule μ κ ε) (node : Nat) (activity : Activity) : Nat × Schedule μ κ ε :=
  let (task, cluster) := s.cluster.spawn node activity
  (task, { s with cluster, queue := s.queue ++ [task] })

def beginWait (s : Schedule μ κ ε) (task : Nat) : Schedule μ κ ε :=
  { s with
    cluster := s.cluster.setTask task fun t => { t with since := s.waits }
    waits := s.waits + 1 }

def run : Nat → Schedule μ κ ε → List Nat → Nat → Schedule μ κ ε
  | 0, s, _, _ => s
  | fuel + 1, s, busy, task =>
    match s.cluster.step? task with
    | none => s.beginWait task
    | some cluster => run fuel (({ s with cluster }).rouse (task :: busy)) busy task

def nextAlarm (s : Schedule μ κ ε) : Option Nat :=
  (s.cluster.tasks.filterMap fun t => t.activity.alarm).min?

def reply? (s : Schedule μ κ ε) (task : Nat) : Option Reply :=
  s.cluster.replies.lookup task

def takeReply (s : Schedule μ κ ε) (task : Nat) : Schedule μ κ ε :=
  { s with
    cluster := { s.cluster with replies := s.cluster.replies.filter fun r => r.1 != task } }

def setClock (s : Schedule μ κ ε) (now : Nat) : Schedule μ κ ε :=
  { s with cluster := { s.cluster with now } }

def fuel : Nat := 1000000000

/-- Goes on until the task has replied or the clock has reached the limit. A call from outside,
which `ahead` tells, runs ahead of the queue when the clock has moved, and else after it. -/
def settle : Nat → Schedule μ κ ε → Bool → Nat → Nat → Option Reply × Schedule μ κ ε
  | 0, s, _, _, _ => (none, s)
  | fuel' + 1, s, ahead, task, limit =>
    let busy := if ahead then [task] else []
    let reply := if ahead || s.queue.isEmpty then s.reply? task else none
    match reply, s.queue with
    | some r, _ => (some r, s.takeReply task)
    | none, t :: queue => settle fuel' (run fuel { s with queue } busy t) ahead task limit
    | none, [] =>
      if ahead && s.isAble task then settle fuel' (run fuel s busy task) ahead task limit
      else
        let now := min (s.nextAlarm.getD limit) limit
        let s := (s.setClock now).rouse busy
        let s := if ahead && s.isAble task then run fuel s busy task else s
        if now < limit then settle fuel' s ahead task limit
        else (s.reply? task, s.takeReply task)

def call (s : Schedule μ κ ε) (node : Nat) (activity : Activity) (patience : Nat) :
    Option Reply × Schedule μ κ ε :=
  let limit := s.cluster.now + patience
  let (task, cluster) := s.cluster.spawn node activity
  let s := run fuel { s with cluster } [task] task
  match s.reply? task with
  | some r => (some r, s.takeReply task)
  | none =>
    match settle fuel s true task limit with
    | (some r, s) => (some r, s)
    | (none, s) => (none, s.act fun c => c.abandon task)

def sleep (s : Schedule μ κ ε) (duration : Nat) : Schedule μ κ ε :=
  (s.call 0 (.sleeping (s.cluster.now + duration)) duration).2

def join (s : Schedule μ κ ε) (task : Nat) (patience : Nat) :
    Option Reply × Schedule μ κ ε :=
  match s.reply? task with
  | some r => (some r, s.takeReply task)
  | none => settle fuel s false task (s.cluster.now + patience)

end Schedule

end StatementLog
