import StatementLog.Proofs.Runner.Attempt

namespace StatementLog

variable {σ π π' α β μ κ ε : Type}

def Move.Holds (good : σ → Prop) : Move σ π α → Prop
  | .wait => True
  | .next s _ => good s
  | .done s _ => good s

namespace Move

theorem Holds.within {good : σ → Prop} {m : Move σ π α} {wrap : π → π'}
    {finish : σ → α → Move σ π' β} (h : m.Holds good)
    (hf : ∀ s r, good s → (finish s r).Holds good) : (m.within wrap finish).Holds good := by
  cases m with
  | wait => trivial
  | next s stage => exact h
  | done s r => exact hf s r h

theorem Holds.mono {good good' : σ → Prop} {m : Move σ π α} (h : m.Holds good)
    (hg : ∀ s, good s → good' s) : m.Holds good' := by
  cases m with
  | wait => trivial
  | next s stage => exact hg s h
  | done s r => exact hg s h

theorem within_next {m : Move σ π α} {wrap : π → π'} {finish : σ → α → Move σ π' β} {s : σ}
    {p : π'} (h : m.within wrap finish = .next s p) :
    (∃ stage, m = .next s stage ∧ p = wrap stage) ∨
      ∃ s' r, m = .done s' r ∧ finish s' r = .next s p := by
  cases m with
  | wait => cases h
  | next s' stage =>
    cases h
    exact .inl ⟨stage, rfl, rfl⟩
  | done s' r => exact .inr ⟨s', r, rfl, h⟩

theorem within_done {m : Move σ π α} {wrap : π → π'} {finish : σ → α → Move σ π' β} {s : σ} {b : β}
    (h : m.within wrap finish = .done s b) : ∃ s' r, m = .done s' r ∧ finish s' r = .done s b := by
  cases m with
  | wait => cases h
  | next s' stage => cases h
  | done s' r => exact ⟨s', r, rfl, h⟩

def Leads (good : σ → Option π → Prop) : Move σ π α → Prop
  | .wait => True
  | .next s stage => good s (some stage)
  | .done s _ => good s none

theorem Holds.leads {good : σ → Prop} {m : Move σ π α} (h : m.Holds good) :
    m.Leads fun s _ => good s := by
  cases m with
  | wait => trivial
  | next s stage => exact h
  | done s r => exact h

theorem Leads.within {good : σ → Option π → Prop} {good' : σ → Option π' → Prop} {m : Move σ π α}
    {wrap : π → π'} {finish : σ → α → Move σ π' β} (h : m.Leads good)
    (hn : ∀ s stage, good s (some stage) → good' s (some (wrap stage)))
    (hf : ∀ s r, good s none → (finish s r).Leads good') : (m.within wrap finish).Leads good' := by
  cases m with
  | wait => trivial
  | next s stage => exact hn s stage h
  | done s r => exact hf s r h

end Move

def Site.Aside (s s' : Site μ κ ε) : Prop :=
  s'.node.queue = s.node.queue

section

variable [CommandLog μ κ] {s : Site μ κ ε}

theorem Polling.step_aside (stage : Polling) (task : Nat) : (stage.step task s).Holds s.Aside := by
  cases stage with
  | arriving timeout => exact rfl
  | queued timeout =>
    rw [step]
    split
    · exact rfl
    · trivial
  | enlisting deadline => exact rfl
  | checking deadline epoch =>
    rw [step]
    split <;> exact rfl
  | reading deadline epoch =>
    rw [step]
    split
    · exact rfl
    · split
      · exact rfl
      · simp only
        split <;> exact rfl
    · exact rfl
  | waiting deadline epoch look =>
    rw [step.eq_def]
    simp only
    split
    · exact rfl
    · split
      · split
        · exact rfl
        · trivial
      · split
        · exact rfl
        · trivial

theorem Rewinding.step_aside (stage : Rewinding) (task : Nat) :
    (stage.step task s).Holds s.Aside := by
  cases stage with
  | arriving =>
    rw [step]
    split <;> exact rfl
  | queued =>
    rw [step]
    split
    · exact rfl
    · trivial

variable [Executor ε]

omit [CommandLog μ κ] in
theorem Applying.step_aside (a : Applying) : (a.step s).Holds s.Aside := by
  cases ht : a.stage with
  | announcing =>
    rw [step, ht]
    exact rfl
  | trying =>
    rcases trying_cases ht s with ⟨_, -, he⟩ | ⟨_, _, _, -, -, he⟩ | ⟨_, -, -, he⟩ <;> rw [he] <;>
      exact rfl
  | pausing wake =>
    rcases pausing_cases ht s with ⟨-, he⟩ | ⟨-, -, he⟩ | ⟨-, -, he⟩ <;> rw [he]
    · exact rfl
    · exact rfl
    · trivial
  | reporting status conclusion =>
    rw [step, ht]
    exact rfl
  | advancing conclusion =>
    rw [step, ht]
    exact rfl

theorem Replaying.step_aside (stage : Replaying) (task : Nat) :
    (stage.step task s).Holds s.Aside := by
  cases stage with
  | starting => exact rfl
  | rewinding stage =>
    refine (stage.step_aside task).within fun s' r h => ?_
    cases r <;> exact h
  | measuring =>
    have hs : s.Aside s.endPosition.2 := rfl
    rcases he : s.endPosition with ⟨r, s'⟩
    rw [he] at hs
    rw [step, he]
    cases r <;> exact hs
  | fetching limit backlog =>
    rw [step]
    split
    · split <;> exact rfl
    · exact rfl
  | polling limit backlog stage =>
    refine (stage.step_aside task).within fun s' r h => ?_
    cases r <;> exact h
  | sorting limit backlog =>
    rw [step]
    split <;> exact rfl
  | terminating limit a =>
    refine a.step_aside.within fun s' r h => ?_
    cases r <;> exact h
  | resuming rest n => cases rest <;> exact rfl
  | applying rest n a =>
    refine a.step_aside.within fun s' r h => ?_
    cases r <;> exact h
  | finishing n =>
    rcases he : Executor.finishReplay s.executor with ⟨r, e⟩
    rw [step, he]
    cases r <;> exact rfl

theorem Running.step_aside (stage : Running) (task : Nat) : (stage.step task s).Holds s.Aside := by
  by_cases ha : s.node.runner.aborted = true
  · rw [Running.step.eq_def, if_pos ha]
    exact rfl
  · cases stage with
    | starting =>
      rw [step, if_neg ha]
      split <;> exact rfl
    | idle =>
      rw [step, if_neg ha]
      split
      · exact rfl
      · split <;> exact rfl
    | polling stage =>
      rw [step, if_neg ha]
      split
      · exact rfl
      · refine (stage.step_aside task).within fun s' r h => ?_
        cases r <;> exact h
    | batch rest =>
      cases rest with
      | nil =>
        rw [step, if_neg ha]
        exact rfl
      | cons c rest =>
        rw [step, if_neg ha]
        split <;> exact rfl
    | applying rest a =>
      rw [step, if_neg ha]
      refine a.step_aside.within fun s' r h => ?_
      cases r with
      | applied e =>
        simp only
        split <;> exact h
      | _ => exact h
    | stopping r =>
      rw [step, if_neg ha]
      exact rfl

omit [CommandLog μ κ] in
theorem Lifetime.enter_holds {x y : Lifetime μ κ ε} {good : Site μ κ ε → Prop}
    {m : Move (Site μ κ ε) π α} {next : π → Phase} {done : α → Phase} (hm : m.Holds good)
    (h : x.enter m next done = some y) : good y.site := by
  rcases enter_cases h with ⟨s, stage, rfl, rfl⟩ | ⟨s, r, rfl, rfl⟩ <;> exact hm

theorem Lifetime.advance?_queue {x y : Lifetime μ κ ε} (h : x.advance? = some y) :
    y.site.node.queue = x.site.node.queue := by
  unfold advance? at h
  split at h
  · exact enter_holds (Replaying.step_aside _ _) h
  · cases h
    rfl
  · exact enter_holds (Running.step_aside _ _) h
  · cases h

end

end StatementLog
