import StatementLog.Proofs.Runner.Lifetime

namespace StatementLog

variable {μ κ ε : Type}

structure Site.Keeps [CommandLog μ κ] (s s' : Site μ κ ε) : Prop where
  log : s'.log = s.log
  check : s'.check = s.check
  broker : s'.broker = s.broker
  tracker : s'.tracker = s.tracker
  executor : s'.executor = s.executor
  calls : s'.calls = s.calls
  runner : s'.node.runner = s.node.runner

variable [CommandLog μ κ] [LawfulLog μ]

namespace Polling

variable {task : Nat} {s s' : Site μ κ ε} {stage stage' : Polling}

theorem keeps_next (h : stage.step task s = .next s' stage') :
    s.Keeps s' ∧ s'.position = s.position := by
  cases stage with
  | arriving timeout =>
    cases h
    exact ⟨⟨rfl, rfl, rfl, rfl, rfl, rfl, rfl⟩, rfl⟩
  | queued timeout =>
    simp only [step] at h
    split at h <;> cases h
    exact ⟨⟨rfl, rfl, rfl, rfl, rfl, rfl, rfl⟩, rfl⟩
  | enlisting deadline =>
    cases h
    exact ⟨⟨rfl, rfl, rfl, rfl, rfl, rfl, rfl⟩, rfl⟩
  | checking deadline epoch =>
    simp only [step, finish] at h
    split at h <;> cases h
    exact ⟨⟨rfl, rfl, rfl, rfl, rfl, rfl, rfl⟩, rfl⟩
  | reading deadline epoch =>
    simp only [step, finish] at h
    split at h
    · cases h
    · next hr =>
      have hp := (LawfulLog.read_ok hr).1
      have hc := LawfulLog.check_read s.log s.node.client
      rw [hr] at hc
      split at h
      · cases h
        exact ⟨⟨rfl, hc, rfl, rfl, rfl, rfl, rfl⟩, hp⟩
      · split at h <;> cases h
        exact ⟨⟨rfl, hc, rfl, rfl, rfl, rfl, rfl⟩, hp⟩
    · cases h
  | waiting deadline epoch look =>
    simp only [step, finish] at h
    split at h
    · cases h
      exact ⟨⟨rfl, rfl, rfl, rfl, rfl, rfl, rfl⟩, rfl⟩
    · split at h
      · split at h <;> cases h
      · split at h <;> cases h
        exact ⟨⟨rfl, rfl, rfl, rfl, rfl, rfl, rfl⟩, rfl⟩

theorem keeps_done {r : Except Error (List Command)} (h : stage.step task s = .done s' r) :
    s.Keeps s' ∧ ∀ cs, r = .ok cs →
      s'.position = s.position + cs.length ∧ Segment (command? s.log) s.position cs := by
  cases stage with
  | arriving timeout => cases h
  | queued timeout =>
    simp only [step] at h
    split at h <;> cases h
  | enlisting deadline => cases h
  | checking deadline epoch =>
    simp only [step, finish] at h
    split at h <;> cases h
    exact ⟨⟨rfl, rfl, rfl, rfl, rfl, rfl, rfl⟩, by simp⟩
  | reading deadline epoch =>
    have hc := LawfulLog.check_read s.log s.node.client
    simp only [step, finish] at h
    split at h
    · next hr =>
      cases h
      rw [hr] at hc
      exact ⟨⟨rfl, hc, rfl, rfl, rfl, rfl, rfl⟩, by simp⟩
    · next hr =>
      rw [hr] at hc
      split at h
      · cases h
      · split at h <;> cases h
        refine ⟨⟨rfl, hc, rfl, rfl, rfl, rfl, rfl⟩, ?_⟩
        rintro cs ⟨⟩
        exact LawfulLog.read_ok hr
    · next hr =>
      cases h
      rw [hr] at hc
      refine ⟨⟨rfl, hc, rfl, rfl, rfl, rfl, rfl⟩, ?_⟩
      rintro cs ⟨⟩
      exact LawfulLog.read_ok hr
  | waiting deadline epoch look =>
    simp only [step, finish] at h
    split at h
    · cases h
    · split at h
      · split at h <;> cases h
        refine ⟨⟨rfl, rfl, rfl, rfl, rfl, rfl, rfl⟩, ?_⟩
        rintro cs ⟨⟩
        exact ⟨rfl, trivial⟩
      · split at h <;> cases h

end Polling

namespace Rewinding

variable {task : Nat} {s s' : Site μ κ ε} {stage stage' : Rewinding}

omit [LawfulLog μ] in
theorem keeps_next (h : stage.step task s = .next s' stage') : s.Keeps s' := by
  cases stage with
  | arriving =>
    simp only [step] at h
    split at h <;> cases h
    exact ⟨rfl, rfl, rfl, rfl, rfl, rfl, rfl⟩
  | queued =>
    simp only [step] at h
    split at h <;> cases h

theorem keeps_done {r : Except Error Unit} (h : stage.step task s = .done s' r) :
    s.Keeps s' ∧ (r = .ok () → s'.position = 0) := by
  cases stage with
  | arriving =>
    simp only [step] at h
    split at h <;> cases h
    exact ⟨⟨rfl, rfl, rfl, rfl, rfl, rfl, rfl⟩, by simp⟩
  | queued =>
    simp only [step] at h
    split at h <;> cases h
    exact ⟨⟨rfl, LawfulLog.check_rewind _ _, rfl, rfl, rfl, rfl, rfl⟩,
      fun _ => LawfulLog.position_rewind _⟩

end Rewinding

end StatementLog
