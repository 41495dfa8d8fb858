import Mathlib.Logic.Relation
import StatementLog.Node.Runner
import StatementLog.Proofs.Log.Contract

/-!
The life of a runner in one process: it replays the log and then runs, one step at a time, while
whatever is around it changes between its steps. Beside the site stand the end of the log that the
replay captured, and the books: how the executor settled each command, what the runner published
and what became of each command, the latest first.
-/

namespace StatementLog

variable {μ κ ε : Type}

inductive Phase where
  | replaying (stage : Replaying)
  | replayed (result : Except Error ReplayOutcome)
  | running (stage : Running)
  | ended (result : Except Error Unit)

def Phase.limit? : Phase → Option Nat
  | .replaying (.fetching limit _) => some limit
  | _ => none

def Phase.attempt? : Phase → Option Applying
  | .replaying (.terminating _ a) => some a
  | .replaying (.applying _ _ a) => some a
  | .running (.applying _ a) => some a
  | _ => none

structure Lifetime (μ κ ε : Type) where
  task : Nat
  site : Site μ κ ε
  phase : Phase := .replaying .starting
  captured : Option Nat := none
  settled : List (Command × Status) := []
  published : List (Slot × Status) := []
  concluded : List (Command × Conclusion) := []

namespace Applying

def Waiting (a : Applying) : Prop :=
  match a.stage with
  | .announcing | .trying | .pausing _ => True
  | _ => False

def publication? (a : Applying) : Option (Slot × Status) :=
  match a.stage with
  | .announcing => some (a.slot, .executing)
  | .reporting status _ => some (a.slot, status)
  | _ => none

def settlement? [Executor ε] (a : Applying) (s : Site μ κ ε) : Option (Command × Status) :=
  match a.stage, a.step s with
  | .trying, .next _ { stage := .reporting status _, .. } => some (a.command, status)
  | _, _ => none

def verdict? (a : Applying) : Option (Command × Conclusion) :=
  match a.stage with
  | .advancing conclusion => some (a.command, conclusion)
  | _ => none

end Applying

namespace Lifetime

def applied (x : Lifetime μ κ ε) : Nat :=
  x.site.node.runner.applied

def pending (x : Lifetime μ κ ε) : List Command :=
  x.site.node.runner.pending

def attempt? (x : Lifetime μ κ ε) : Option Applying :=
  match x.phase with
  | .replaying (.terminating _ a) => some a
  | .replaying (.applying _ _ a) => some a
  | .running (.applying _ a) => if x.site.node.runner.aborted then none else some a
  | _ => none

theorem phase_attempt? {x : Lifetime μ κ ε} {a : Applying} (h : x.attempt? = some a) :
    x.phase.attempt? = some a := by
  unfold attempt? at h
  split at h
  · next hp =>
    rw [hp]
    exact h
  · next hp =>
    rw [hp]
    exact h
  · next hp =>
    split at h
    · cases h
    · rw [hp]
      exact h
  · cases h

variable [Executor ε]

/-- The life goes on at a site and in a phase, and the books are kept. -/
def take (x : Lifetime μ κ ε) (s : Site μ κ ε) (phase : Phase) : Lifetime μ κ ε where
  task := x.task
  site := s
  phase := phase
  captured := x.captured.or phase.limit?
  settled := (x.attempt?.bind fun a => a.settlement? x.site).toList ++ x.settled
  published := (x.attempt?.bind Applying.publication?).toList ++ x.published
  concluded := (x.attempt?.bind Applying.verdict?).toList ++ x.concluded

theorem captured_take {x : Lifetime μ κ ε} {limit : Nat} (h : x.captured = some limit)
    (s : Site μ κ ε) (p : Phase) : (x.take s p).captured = some limit := by
  rw [take, h, Option.some_or]

theorem settled_take {x : Lifetime μ κ ε} {a : Applying} (h : x.attempt? = some a)
    (s : Site μ κ ε) (p : Phase) :
    (x.take s p).settled = (a.settlement? x.site).toList ++ x.settled := by
  simp only [take, h, Option.bind_some]

theorem published_take {x : Lifetime μ κ ε} {a : Applying} (h : x.attempt? = some a)
    (s : Site μ κ ε) (p : Phase) :
    (x.take s p).published = a.publication?.toList ++ x.published := by
  simp only [take, h, Option.bind_some]

theorem concluded_take {x : Lifetime μ κ ε} {a : Applying} (h : x.attempt? = some a)
    (s : Site μ κ ε) (p : Phase) :
    (x.take s p).concluded = a.verdict?.toList ++ x.concluded := by
  simp only [take, h, Option.bind_some]

def enter {π α : Type} (x : Lifetime μ κ ε) (m : Move (Site μ κ ε) π α) (next : π → Phase)
    (done : α → Phase) : Option (Lifetime μ κ ε) :=
  match m with
  | .wait => none
  | .next s stage => some (x.take s (next stage))
  | .done s r => some (x.take s (done r))

theorem enter_cases {π α : Type} {x y : Lifetime μ κ ε} {m : Move (Site μ κ ε) π α}
    {next : π → Phase} {done : α → Phase} (h : x.enter m next done = some y) :
    (∃ s stage, m = .next s stage ∧ y = x.take s (next stage)) ∨
      ∃ s r, m = .done s r ∧ y = x.take s (done r) := by
  cases m with
  | wait => cases h
  | next s stage =>
    cases h
    exact .inl ⟨s, stage, rfl, rfl⟩
  | done s r =>
    cases h
    exact .inr ⟨s, r, rfl, rfl⟩

theorem enter_within_cases {π π' α β : Type} {x y : Lifetime μ κ ε}
    {m : Move (Site μ κ ε) π α} {wrap : π → π'} {finish : Site μ κ ε → α → Move (Site μ κ ε) π' β}
    {next : π' → Phase} {done : β → Phase} (h : x.enter (m.within wrap finish) next done = some y) :
    (∃ s stage, m = .next s stage ∧ y = x.take s (next (wrap stage))) ∨
      ∃ s r, m = .done s r ∧ x.enter (finish s r) next done = some y := by
  cases m with
  | wait => cases h
  | next s stage =>
    cases h
    exact .inl ⟨s, stage, rfl, rfl⟩
  | done s r => exact .inr ⟨s, r, rfl, h⟩

variable [CommandLog μ κ]

/-- The next step of the runner. It goes on to run only when the replay has not failed. -/
def advance? (x : Lifetime μ κ ε) : Option (Lifetime μ κ ε) :=
  match x.phase with
  | .replaying stage => x.enter (stage.step x.task x.site) .replaying .replayed
  | .replayed (.ok _) => some (x.take x.site (.running .starting))
  | .running stage => x.enter (stage.step x.task x.site) .running .ended
  | _ => none

def steps? : Nat → Lifetime μ κ ε → Option (Lifetime μ κ ε)
  | 0, x => some x
  | n + 1, x => x.advance?.bind (steps? n)

inductive Step (world : Site μ κ ε → Site μ κ ε → Prop) :
    Lifetime μ κ ε → Lifetime μ κ ε → Prop where
  | act {x y : Lifetime μ κ ε} : x.advance? = some y → Step world x y
  | change {x : Lifetime μ κ ε} {s : Site μ κ ε} : world x.site s →
      Step world x { x with site := s }

def ofSite (task : Nat) (s : Site μ κ ε) : Lifetime μ κ ε where
  task := task
  site := s

def Reaches (world : Site μ κ ε → Site μ κ ε → Prop) :
    Lifetime μ κ ε → Lifetime μ κ ε → Prop :=
  Relation.ReflTransGen (Step world)

theorem Reaches.mono {world world' : Site μ κ ε → Site μ κ ε → Prop}
    (h : ∀ s s', world s s' → world' s s') {x y : Lifetime μ κ ε} (hr : Reaches world x y) :
    Reaches world' x y := by
  induction hr with
  | refl => exact .refl
  | tail _ hs ih =>
    cases hs with
    | act ha => exact ih.tail (.act ha)
    | change hw => exact ih.tail (.change (h _ _ hw))

theorem steps?_reaches {world : Site μ κ ε → Site μ κ ε → Prop} {n : Nat}
    {x y : Lifetime μ κ ε} (h : steps? n x = some y) : Reaches world x y := by
  induction n generalizing x with
  | zero =>
    cases h
    exact .refl
  | succ n ih =>
    obtain ⟨z, hz, hy⟩ := Option.bind_eq_some_iff.1 h
    exact .head (.act hz) (ih hy)

end Lifetime

/-- What others may do to the site of a runner. The log grows, the broker and the executor, the
tracker and the clock may change in any way, the client may be closed, the runner may be told to
stop or be aborted; its books and its cursor are its own. -/
structure Site.Drift [CommandLog μ κ] [LawfulLog μ] (s s' : Site μ κ ε) : Prop where
  log : Grows s.log s'.log
  position : s'.position = s.position
  calls : s'.calls = s.calls
  applied : s'.node.runner.applied = s.node.runner.applied
  pending : s'.node.runner.pending = s.node.runner.pending
  policy : s'.node.runner.policy = s.node.runner.policy
  state : s'.node.runner.state = s.node.runner.state
  terminated : s'.node.runner.terminated = s.node.runner.terminated
  stop : s.node.runner.stopRequested = true → s'.node.runner.stopRequested = true

structure Site.Spans [CommandLog μ κ] [LawfulLog μ] (s s' : Site μ κ ε) : Prop
    extends s.Drift s' where
  executor : s'.executor = s.executor

structure Site.Fresh [CommandLog μ κ] [LawfulLog μ] (s : Site μ κ ε) : Prop where
  calls : s.calls = []
  runner : ∃ policy pollTimeout, s.node.runner = { policy, pollTimeout }
  bounded : LawfulLog.size s.log ≤ Word.max

end StatementLog
