import Mathlib.Algebra.GroupWithZero.Nat
import Mathlib.Data.List.Induction
import StatementLog.Proofs.Runner.Attempt

namespace StatementLog

variable {μ κ ε : Type}

def isFailure (kind : FailureKind) : Except Failure Effect → Bool
  | .ok _ => false
  | .error f => f.kind = kind

def failures (kind : FailureKind) (rs : List (Except Failure Effect)) : Nat :=
  rs.countP (isFailure kind)

theorem failures_concat (kind : FailureKind) (rs : List (Except Failure Effect))
    (r : Except Failure Effect) :
    failures kind (rs ++ [r]) = failures kind rs + if isFailure kind r then 1 else 0 := by
  simp [failures, List.countP_append, List.countP_singleton]

namespace RetryPolicy

def pause (p : RetryPolicy) (kind : FailureKind) (n : Nat) : Nat :=
  match kind with
  | .transient => p.transient.delay n
  | .infrastructure => p.infrastructure.delay n
  | .fatal => 0

def Settles (p : RetryPolicy) (rs : List (Except Failure Effect)) : Prop :=
  ∃ r, rs.getLast? = some r ∧
    match r with
    | .ok _ => True
    | .error f => f.kind = .fatal ∨
        f.kind = .transient ∧ failures .transient rs = p.maxRetries + 1

theorem settles_concat_ok (p : RetryPolicy) (rs : List (Except Failure Effect)) (effect : Effect) :
    p.Settles (rs ++ [.ok effect]) :=
  ⟨.ok effect, by simp, trivial⟩

theorem settles_concat_error {p : RetryPolicy} {rs : List (Except Failure Effect)} {f : Failure} :
    p.Settles (rs ++ [.error f]) ↔
      f.kind = .fatal ∨ f.kind = .transient ∧ failures .transient rs = p.maxRetries := by
  have hcount (hk : f.kind = .transient) :
      failures .transient (rs ++ [.error f]) = failures .transient rs + 1 := by
    simp [failures_concat, isFailure, hk]
  constructor
  · rintro ⟨r, hr, h⟩
    cases (by simpa using hr : Except.error f = r)
    refine h.imp_right fun ⟨hk, hn⟩ => ⟨hk, ?_⟩
    rw [hcount hk] at hn
    omega
  · intro h
    refine ⟨.error f, by simp, h.imp_right fun ⟨hk, hn⟩ => ⟨hk, ?_⟩⟩
    rw [hcount hk, hn]

theorem not_settles_nil (p : RetryPolicy) : ¬ p.Settles [] := by
  rintro ⟨r, hr, -⟩
  cases hr

theorem totalBackoff_eq (p : RetryPolicy) : p.totalBackoff =
    min ((List.range p.maxRetries).map fun i => p.pause .transient (i + 1)).sum Word.max := by
  have hfold (l : List Nat) (n : Nat) (hn : n ≤ Word.max) :
      l.foldl (fun sum i => Word.add sum (p.transient.delay (i + 1))) n =
        min (n + (l.map fun i => p.pause .transient (i + 1)).sum) Word.max := by
    induction l generalizing n with
    | nil => simp [hn]
    | cons i l ih =>
      have hle : Word.add n (p.transient.delay (i + 1)) ≤ Word.max := Nat.min_le_right ..
      rw [List.foldl_cons, ih _ hle, List.map_cons, List.sum_cons]
      simp only [Word.add, pause]
      omega
  have h := hfold (List.range p.maxRetries) 0 (Nat.zero_le _)
  rw [Nat.zero_add] at h
  exact h

theorem failures_le_of_unsettled {p : RetryPolicy} {rs : List (Except Failure Effect)}
    (h : ∀ rs', rs' <+: rs → ¬ p.Settles rs') : failures .transient rs ≤ p.maxRetries := by
  induction rs using List.reverseRecOn with
  | nil => exact Nat.zero_le _
  | append_singleton rs r ih =>
    have ih := ih fun rs' hrs => h rs' (hrs.trans (List.prefix_append ..))
    have hr := h _ (List.prefix_refl _)
    rw [failures_concat]
    split
    · next hf =>
      cases r with
      | ok => cases hf
      | error f =>
        rw [settles_concat_error, not_or] at hr
        have hne : failures .transient rs ≠ p.maxRetries := fun hn =>
          hr.2 ⟨of_decide_eq_true hf, hn⟩
        omega
    · exact ih

end RetryPolicy

def Conclusion.ofAnswer : Except Failure Effect → Conclusion
  | .ok effect => .applied effect
  | .error f => .failed f

def Status.ofAnswer (transient : Nat) : Except Failure Effect → Status
  | .ok effect => .success effect.message
  | .error f => .error
    (if 0 < transient then f.message ++ s!" (gave up after {transient} attempts)" else f.message)

namespace Applying

theorem afterFailure_pauses_for {a : Applying} {s : Site μ κ ε} {f : Failure}
    (h : ¬ a.GivesUp s.node.runner.policy f) :
    ∃ state, a.afterFailure s f = .next (s.setState state)
      { a with stage :=
          .pausing (s.now + s.node.runner.policy.pause f.kind (a.attempts f.kind)) } := by
  rw [GivesUp, not_or] at h
  unfold afterFailure
  cases hk : f.kind with
  | fatal => exact absurd hk h.1
  | infrastructure => exact ⟨.degraded, rfl⟩
  | transient =>
    have hn : ¬ s.node.runner.policy.maxRetries < a.transient := fun hn => h.2 ⟨hk, hn⟩
    refine ⟨s.node.runner.state, ?_⟩
    simp only [RetryPolicy.decide, attempts, gt_iff_lt, hn, if_false, RetryPolicy.pause]
    rfl

theorem step_of_ok [Executor ε] {a : Applying} (ht : a.stage = .trying) {s : Site μ κ ε}
    {effect : Effect} (h : (a.attempt s).1 = .ok effect) :
    a.step s = .next ((a.attempt s).2.setState (.ofMode a.mode))
      { a with stage := .reporting (.success effect.message) (.applied effect) } := by
  rw [step, ht]
  generalize a.attempt s = answer at h
  obtain ⟨r, s'⟩ := answer
  cases h
  rfl

theorem step_of_error [Executor ε] {a : Applying} (ht : a.stage = .trying) {s : Site μ κ ε}
    {f : Failure} (h : (a.attempt s).1 = .error f) :
    a.step s = (a.count f.kind).afterFailure (a.attempt s).2 f := by
  rw [step, ht]
  generalize a.attempt s = answer at h
  obtain ⟨r, s'⟩ := answer
  cases h
  rfl

theorem step_of_givesUp [Executor ε] {a : Applying} (ht : a.stage = .trying) {s : Site μ κ ε}
    {f : Failure} (h : (a.attempt s).1 = .error f)
    (hg : (a.count f.kind).GivesUp s.node.runner.policy f) :
    a.step s = .next ((a.attempt s).2.setState (.ofMode (a.count f.kind).mode))
      { a.count f.kind with
        stage := .reporting (.error ((a.count f.kind).failureMessage f.message)) (.failed f) } := by
  rw [step_of_error ht h]
  rcases (a.count f.kind).afterFailure_cases (a.attempt s).2 f with ⟨hn, -⟩ | ⟨-, he⟩
  · exact absurd hg hn
  · exact he

theorem step_of_not_givesUp [Executor ε] {a : Applying} (ht : a.stage = .trying) {s : Site μ κ ε}
    {f : Failure} (h : (a.attempt s).1 = .error f)
    (hg : ¬ (a.count f.kind).GivesUp s.node.runner.policy f) :
    ∃ state, a.step s = .next ((a.attempt s).2.setState state)
      { a.count f.kind with stage := .pausing (s.now +
          s.node.runner.policy.pause f.kind ((a.count f.kind).attempts f.kind)) } := by
  rw [step_of_error ht h]
  exact afterFailure_pauses_for (s := (a.attempt s).2) hg

structure Counts (a : Applying) (rs : List (Except Failure Effect)) : Prop where
  transient : a.transient = failures .transient rs
  infrastructure : a.infrastructure = failures .infrastructure rs

namespace Counts

variable {a : Applying} {rs : List (Except Failure Effect)}

theorem staged (h : a.Counts rs) (stage : AttemptStage) : { a with stage }.Counts rs :=
  ⟨h.transient, h.infrastructure⟩

theorem ok (h : a.Counts rs) (effect : Effect) : a.Counts (rs ++ [.ok effect]) := by
  constructor
  · rw [h.transient, failures_concat]
    rfl
  · rw [h.infrastructure, failures_concat]
    rfl

theorem error (h : a.Counts rs) (f : Failure) : (a.count f.kind).Counts (rs ++ [.error f]) := by
  constructor <;> rw [failures_concat] <;> cases hk : f.kind <;>
    simp [count, isFailure, hk, h.transient, h.infrastructure]

theorem pause_attempts (h : a.Counts rs) (p : RetryPolicy) (kind : FailureKind) :
    p.pause kind (a.attempts kind) = p.pause kind (failures kind rs) := by
  cases kind with
  | transient => rw [attempts, h.transient]
  | infrastructure => rw [attempts, h.infrastructure]
  | fatal => rfl

theorem givesUp_iff (h : a.Counts rs) {p : RetryPolicy}
    (hrs : failures .transient rs ≤ p.maxRetries) (f : Failure) :
    (a.count f.kind).GivesUp p f ↔ p.Settles (rs ++ [.error f]) := by
  rw [RetryPolicy.settles_concat_error, GivesUp, ← h.transient]
  rw [← h.transient] at hrs
  refine or_congr_right (and_congr_right fun hk => ?_)
  simp only [hk, count]
  omega

end Counts

end Applying

end StatementLog
