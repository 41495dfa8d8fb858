import StatementLog.Proofs.Runner.Aside
import StatementLog.Proofs.Runner.Reading

namespace StatementLog

variable {μ κ ε : Type}

def Site.Spares (s s' : Site μ κ ε) : Prop :=
  s'.node.runner.state = .stopped → s.node.runner.state = .stopped

theorem RunnerState.ofMode_ne_stopped (mode : Mode) : ofMode mode ≠ .stopped := by
  cases mode <;> decide

theorem Site.Spares.setState {s s' : Site μ κ ε} {state : RunnerState} (h : state ≠ .stopped) :
    s.Spares (s'.setState state) :=
  fun hs => absurd hs h

theorem Applying.afterFailure_spares (a : Applying) (s : Site μ κ ε) (f : Failure) :
    (a.afterFailure s f).Holds s.Spares := by
  unfold afterFailure
  split
  · exact id
  · exact .setState (by decide)
  · exact .setState (RunnerState.ofMode_ne_stopped _)

section

variable {s : Site μ κ ε} [Executor ε]

theorem Applying.step_spares (a : Applying) : (a.step s).Holds s.Spares := by
  cases ht : a.stage with
  | trying =>
    rw [step, ht]
    simp only
    split
    · exact .setState (RunnerState.ofMode_ne_stopped _)
    · next f s' hs =>
      have hn : (a.attempt s).2.node = s.node := rfl
      rw [hs] at hn
      have hf := (a.count f.kind).afterFailure_spares s' f
      unfold Site.Spares at hf ⊢
      rwa [hn] at hf
  | pausing wake =>
    rw [step, ht]
    simp only
    split
    · exact id
    · split
      · exact id
      · trivial
  | _ =>
    rw [step, ht]
    exact id

end

variable {s : Site μ κ ε} [CommandLog μ κ] [LawfulLog μ]

theorem Polling.step_spares (stage : Polling) (task : Nat) :
    (stage.step task s).Holds s.Spares := by
  cases h : stage.step task s with
  | wait => trivial
  | next s' stage' =>
    show s'.node.runner.state = _ → _
    rw [(keeps_next h).1.runner]
    exact id
  | done s' r =>
    show s'.node.runner.state = _ → _
    rw [(keeps_done h).1.runner]
    exact id

theorem Rewinding.step_spares (stage : Rewinding) (task : Nat) :
    (stage.step task s).Holds s.Spares := by
  cases h : stage.step task s with
  | wait => trivial
  | next s' stage' =>
    show s'.node.runner.state = _ → _
    rw [(keeps_next h).runner]
    exact id
  | done s' r =>
    show s'.node.runner.state = _ → _
    rw [(keeps_done h).1.runner]
    exact id

variable [Executor ε]

theorem Replaying.step_spares {stage : Replaying} (ht : ∀ limit a, stage ≠ .terminating limit a)
    (task : Nat) : (stage.step task s).Holds s.Spares := by
  cases stage with
  | starting => exact .setState (by decide)
  | rewinding stage =>
    refine (stage.step_spares task).within fun s' r h => ?_
    cases r <;> exact h
  | measuring =>
    have hs : s.Spares s.endPosition.2 := id
    rcases he : s.endPosition with ⟨r, s'⟩
    rw [he] at hs
    rw [step, he]
    cases r <;> exact hs
  | fetching limit backlog =>
    rw [step]
    split
    · split <;> exact id
    · exact id
  | polling limit backlog stage =>
    refine (stage.step_spares task).within fun s' r h => ?_
    cases r <;> exact h
  | sorting limit backlog =>
    rw [step]
    split <;> exact id
  | terminating limit a => exact absurd rfl (ht limit a)
  | resuming rest n => cases rest <;> exact id
  | applying rest n a =>
    refine a.step_spares.within fun s' r h => ?_
    cases r <;> exact h
  | finishing n =>
    rcases he : Executor.finishReplay s.executor with ⟨r, e⟩
    rw [step, he]
    cases r <;> exact id

theorem Running.step_spares {stage : Running} (hs : ∀ r, stage ≠ .stopping r) (task : Nat) :
    (stage.step task s).Holds s.Spares := by
  by_cases ha : s.node.runner.aborted = true
  · rw [Running.step.eq_def, if_pos ha]
    exact id
  · cases stage with
    | starting =>
      rw [step, if_neg ha]
      split
      · exact id
      · exact .setState (by decide)
    | idle =>
      rw [step, if_neg ha]
      split
      · exact id
      · split <;> exact id
    | polling stage =>
      rw [step, if_neg ha]
      split
      · exact id
      · refine (stage.step_spares task).within fun s' r h => ?_
        cases r <;> exact h
    | batch rest =>
      cases rest with
      | nil =>
        rw [step, if_neg ha]
        exact id
      | cons c rest =>
        rw [step, if_neg ha]
        split <;> exact id
    | applying rest a =>
      rw [step, if_neg ha]
      refine a.step_spares.within fun s' r h => ?_
      cases r with
      | applied e =>
        simp only
        split <;> exact h
      | _ => exact h
    | stopping r => exact absurd rfl (hs r)

namespace Lifetime

variable {x y : Lifetime μ κ ε}

def Halted (x : Lifetime μ κ ε) : Prop :=
  x.site.node.runner.state = .stopped ∧
    match x.phase with
    | .replayed _ | .running .starting => x.site.node.runner.terminated = true
    | .running (.stopping _) | .ended _ => True
    | _ => False

omit [LawfulLog μ] in
theorem Halted.advance (h : x.Halted) (hy : x.advance? = some y) :
    y.Halted ∧ y.published = x.published := by
  obtain ⟨hs, hp⟩ := h
  cases hphase : x.phase with
  | replaying stage =>
    rw [hphase] at hp
    exact hp.elim
  | replayed r =>
    rw [hphase] at hp
    rw [advance?, hphase] at hy
    cases r <;> cases hy
    exact ⟨⟨hs, hp⟩, by rw [take, attempt?, hphase]; rfl⟩
  | ended r =>
    rw [advance?, hphase] at hy
    cases hy
  | running stage =>
    rw [hphase] at hp
    have hnone : x.attempt? = none := by
      cases stage with
      | applying rest a => exact hp.elim
      | _ => rw [attempt?, hphase]
    have htake (s : Site μ κ ε) (p : Phase) : (x.take s p).published = x.published := by
      rw [take, hnone]
      rfl
    rw [advance?, hphase] at hy
    simp only at hy
    by_cases ha : x.site.node.runner.aborted = true
    · rw [Running.step.eq_def, if_pos ha] at hy
      cases hy
      exact ⟨⟨hs, trivial⟩, htake _ _⟩
    · cases stage with
      | starting =>
        rw [Running.step, if_neg ha, if_pos hp] at hy
        cases hy
        exact ⟨⟨hs, trivial⟩, htake _ _⟩
      | stopping r =>
        rw [Running.step, if_neg ha] at hy
        cases hy
        exact ⟨⟨rfl, trivial⟩, htake _ _⟩
      | _ => exact hp.elim

theorem advance?_halted (h : x.advance? = some y) (hx : x.site.node.runner.state ≠ .stopped)
    (hy : y.site.node.runner.state = .stopped) : y.Halted := by
  have hspares {π α : Type} {m : Move (Site μ κ ε) π α} {next : π → Phase} {done : α → Phase}
      (hm : m.Holds x.site.Spares) (he : x.enter m next done = some y) : False := by
    rcases enter_cases he with ⟨s, stage, rfl, rfl⟩ | ⟨s, r, rfl, rfl⟩
    · exact hx (hm hy)
    · exact hx (hm hy)
  cases hp : x.phase with
  | replaying stage =>
    rw [advance?, hp] at h
    by_cases ht : ∃ limit a, stage = .terminating limit a
    · obtain ⟨limit, a, rfl⟩ := ht
      rcases enter_within_cases h with ⟨s, a', hs, rfl⟩ | ⟨s, c, hs, he⟩
      · have ha := a.step_spares (s := x.site)
        rw [hs] at ha
        exact absurd (ha hy) hx
      · cases c with
        | interrupted =>
          cases he
          have ha := a.step_spares (s := x.site)
          rw [hs] at ha
          exact absurd (ha hy) hx
        | _ =>
          cases he
          exact ⟨rfl, rfl⟩
    · exact (hspares (Replaying.step_spares (fun l a he => ht ⟨l, a, he⟩) _) h).elim
  | replayed r =>
    rw [advance?, hp] at h
    cases r <;> cases h
    exact absurd hy hx
  | running stage =>
    rw [advance?, hp] at h
    by_cases hs : ∃ r, stage = .stopping r
    · obtain ⟨r, rfl⟩ := hs
      by_cases ha : x.site.node.runner.aborted = true
      · simp only [Running.step.eq_def, if_pos ha] at h
        cases h
        exact absurd hy hx
      · simp only [Running.step, if_neg ha] at h
        cases h
        exact ⟨rfl, trivial⟩
    · exact (hspares (Running.step_spares (fun r he => hs ⟨r, he⟩) _) h).elim
  | ended r =>
    rw [advance?, hp] at h
    cases h

theorem Halted.step (h : x.Halted) (hs : Step Site.Drift x y) :
    y.Halted ∧ y.published = x.published := by
  cases hs with
  | act hy => exact h.advance hy
  | change hd =>
    refine ⟨⟨hd.state.trans h.1, ?_⟩, rfl⟩
    simp only [hd.terminated]
    exact h.2

theorem stopped_step (hx : x.site.node.runner.state = .stopped → x.Halted)
    (hs : Step Site.Drift x y) : y.site.node.runner.state = .stopped → y.Halted := by
  intro hy
  by_cases hstop : x.site.node.runner.state = .stopped
  · exact ((hx hstop).step hs).1
  · cases hs with
    | act ha => exact advance?_halted ha hstop hy
    | change hd => exact absurd (hd.state.symm.trans hy) hstop

theorem halted_of_stopped {s : Site μ κ ε} {task : Nat} (hf : s.Fresh)
    (hr : Reaches Site.Drift (ofSite task s) y) (hy : y.site.node.runner.state = .stopped) :
    y.Halted := by
  have hfirst : (ofSite task s).site.node.runner.state = .stopped → (ofSite task s).Halted := by
    obtain ⟨policy, pollTimeout, hrunner⟩ := hf.runner
    intro hs
    have hs : s.node.runner.state = .stopped := hs
    rw [hrunner] at hs
    cases hs
  induction hr with
  | refl => exact hfirst hy
  | tail _ hs ih => exact stopped_step ih hs hy

end Lifetime

end StatementLog
