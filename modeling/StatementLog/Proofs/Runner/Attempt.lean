import StatementLog.Proofs.Runner.Lifetime

namespace StatementLog

variable {μ κ ε : Type}

namespace Applying

def GivesUp (a : Applying) (policy : RetryPolicy) (f : Failure) : Prop :=
  f.kind = .fatal ∨ f.kind = .transient ∧ policy.maxRetries < a.transient

theorem afterFailure_cases (a : Applying) (s : Site μ κ ε) (f : Failure) :
    (¬ a.GivesUp s.node.runner.policy f ∧
      ∃ state wake, a.afterFailure s f = .next (s.setState state) { a with stage := .pausing wake }) ∨
    (a.GivesUp s.node.runner.policy f ∧
      a.afterFailure s f = .next (s.setState (.ofMode a.mode))
        { a with stage := .reporting (.error (a.failureMessage f.message)) (.failed f) }) := by
  unfold GivesUp afterFailure
  cases hf : f.kind with
  | fatal => exact .inr ⟨.inl rfl, rfl⟩
  | infrastructure => exact .inl ⟨by simp, .degraded, _, rfl⟩
  | transient =>
    by_cases hg : s.node.runner.policy.maxRetries < a.transient
    · refine .inr ⟨.inr ⟨rfl, hg⟩, ?_⟩
      simp only [RetryPolicy.decide, attempts, gt_iff_lt, hg, if_true]
    · refine .inl ⟨by simp [hg], s.node.runner.state, s.now + s.node.runner.policy.transient.delay a.transient, ?_⟩
      simp only [RetryPolicy.decide, attempts, gt_iff_lt, hg, if_false]
      rfl

@[simp]
theorem count_command (a : Applying) (kind : FailureKind) : (a.count kind).command = a.command := by
  cases kind <;> rfl

@[simp]
theorem count_mode (a : Applying) (kind : FailureKind) : (a.count kind).mode = a.mode := by
  cases kind <;> rfl

structure Onward (s s' : Site μ κ ε) (a a' : Applying) : Prop where
  log : s'.log = s.log
  client : s'.node.client = s.node.client
  runner : ∃ state, s'.node.runner = { s.node.runner with state }
  command : a'.command = a.command
  mode : a'.mode = a.mode

variable [Executor ε]

theorem trying_cases {a : Applying} (ht : a.stage = .trying) (s : Site μ κ ε) :
    (∃ effect, (a.attempt s).1 = .ok effect ∧
      a.step s = .next ((a.attempt s).2.setState (.ofMode a.mode))
        { a with stage := .reporting (.success effect.message) (.applied effect) }) ∨
    (∃ f state wake, (a.attempt s).1 = .error f ∧
      ¬ (a.count f.kind).GivesUp s.node.runner.policy f ∧
      a.step s = .next ((a.attempt s).2.setState state)
        { a.count f.kind with stage := .pausing wake }) ∨
    (∃ f, (a.attempt s).1 = .error f ∧ (a.count f.kind).GivesUp s.node.runner.policy f ∧
      a.step s = .next ((a.attempt s).2.setState (.ofMode (a.count f.kind).mode))
        { a.count f.kind with
          stage := .reporting (.error ((a.count f.kind).failureMessage f.message)) (.failed f) }) := by
  have hn : (a.attempt s).2.node = s.node := rfl
  rw [step, ht]
  rw [← hn]
  obtain ⟨r, s'⟩ := a.attempt s
  cases r with
  | ok effect => exact .inl ⟨effect, rfl, rfl⟩
  | error f =>
    rcases (a.count f.kind).afterFailure_cases s' f with ⟨hg, state, wake, h⟩ | ⟨hg, h⟩
    · exact .inr (.inl ⟨f, state, wake, rfl, hg, h⟩)
    · exact .inr (.inr ⟨f, rfl, hg, h⟩)

theorem pausing_cases {a : Applying} {wake : Nat} (hp : a.stage = .pausing wake)
    (s : Site μ κ ε) :
    (s.node.runner.stopRequested = true ∧ a.step s = .done s .interrupted) ∨
    (s.node.runner.stopRequested = false ∧ wake ≤ s.now ∧
      a.step s = .next s { a with stage := .trying }) ∨
    (s.node.runner.stopRequested = false ∧ s.now < wake ∧ a.step s = .wait) := by
  rw [step, hp]
  cases ht : s.node.runner.stopRequested with
  | true => exact .inl ⟨rfl, by simp⟩
  | false =>
    rcases Nat.lt_or_ge s.now wake with hw | hw
    · exact .inr (.inr ⟨rfl, hw, by simp [Nat.not_le.2 hw]⟩)
    · exact .inr (.inl ⟨rfl, hw, by simp [hw]⟩)

theorem step_next {a a' : Applying} {s s' : Site μ κ ε} (h : a.step s = .next s' a') :
    Onward s s' a a' := by
  cases ht : a.stage with
  | announcing =>
    rw [step, ht] at h
    cases h
    exact ⟨rfl, rfl, ⟨_, rfl⟩, rfl, rfl⟩
  | trying =>
    rcases trying_cases ht s with ⟨_, -, he⟩ | ⟨f, _, _, -, -, he⟩ | ⟨f, -, -, he⟩
    · cases he.symm.trans h
      exact ⟨rfl, rfl, ⟨_, rfl⟩, rfl, rfl⟩
    · cases he.symm.trans h
      exact ⟨rfl, rfl, ⟨_, rfl⟩, a.count_command f.kind, a.count_mode f.kind⟩
    · cases he.symm.trans h
      exact ⟨rfl, rfl, ⟨_, rfl⟩, a.count_command f.kind, a.count_mode f.kind⟩
  | pausing wake =>
    rcases pausing_cases ht s with ⟨-, he⟩ | ⟨-, -, he⟩ | ⟨-, -, he⟩ <;> cases he.symm.trans h
    exact ⟨rfl, rfl, ⟨_, rfl⟩, rfl, rfl⟩
  | reporting status conclusion =>
    rw [step, ht] at h
    cases h
    exact ⟨rfl, rfl, ⟨_, rfl⟩, rfl, rfl⟩
  | advancing conclusion =>
    rw [step, ht] at h
    cases h

theorem verdict?_of_next {a a' : Applying} {s s' : Site μ κ ε} (h : a.step s = .next s' a') :
    a.verdict? = none := by
  cases ht : a.stage <;> rw [verdict?, ht]
  rw [step, ht] at h
  cases h

theorem settlement?_of_ne {a : Applying} (h : a.stage ≠ .trying) (s : Site μ κ ε) :
    a.settlement? s = none := by
  unfold settlement?
  split
  · next ht _ => exact absurd ht h
  · rfl

theorem settlement?_cases {a : Applying} (ht : a.stage = .trying) (s : Site μ κ ε) :
    (∃ effect, (a.attempt s).1 = .ok effect ∧
      a.settlement? s = some (a.command, .success effect.message)) ∨
    (∃ f, (a.attempt s).1 = .error f ∧ ¬ (a.count f.kind).GivesUp s.node.runner.policy f ∧
      a.settlement? s = none) ∨
    (∃ f, (a.attempt s).1 = .error f ∧ (a.count f.kind).GivesUp s.node.runner.policy f ∧
      a.settlement? s =
        some (a.command, .error ((a.count f.kind).failureMessage f.message))) := by
  rcases trying_cases ht s with ⟨effect, hr, he⟩ | ⟨f, state, wake, hr, hg, he⟩ | ⟨f, hr, hg, he⟩
  · refine .inl ⟨effect, hr, ?_⟩
    rw [settlement?, ht, he]
  · refine .inr (.inl ⟨f, hr, hg, ?_⟩)
    rw [settlement?, ht, he]
  · refine .inr (.inr ⟨f, hr, hg, ?_⟩)
    rw [settlement?, ht, he]

theorem step_done {a : Applying} {s s' : Site μ κ ε} {c : Conclusion}
    (h : a.step s = .done s' c) :
    (∃ wake, a.stage = .pausing wake ∧ s.node.runner.stopRequested = true ∧ s' = s ∧
      c = .interrupted) ∨
    (a.stage = .advancing c ∧ s' = s.mapRunner fun r =>
      { r with applied := max r.applied (Offset.next a.command.offset) }) := by
  cases ht : a.stage with
  | announcing =>
    rw [step, ht] at h
    cases h
  | trying =>
    rcases trying_cases ht s with ⟨_, -, he⟩ | ⟨_, _, _, -, -, he⟩ | ⟨_, -, -, he⟩ <;>
      cases he.symm.trans h
  | pausing wake =>
    rcases pausing_cases ht s with ⟨hr, he⟩ | ⟨-, -, he⟩ | ⟨-, -, he⟩ <;> cases he.symm.trans h
    exact .inl ⟨wake, rfl, hr, rfl, rfl⟩
  | reporting status conclusion =>
    rw [step, ht] at h
    cases h
  | advancing conclusion =>
    rw [step, ht] at h
    cases h
    exact .inr ⟨rfl, rfl⟩

end Applying

end StatementLog
