import StatementLog.Proofs.Log.Serving

namespace StatementLog

variable {μ κ ε : Type} [CommandLog μ κ] {serves : List Record → μ → κ → Prop}
  {look : Option Nat} {rs : List Record}

structure Site.Looks (serves : List Record → μ → κ → Prop) (rs : List Record)
    (s s' : Site μ κ ε) : Prop where
  others (k : κ) : serves rs s.log k → serves rs s'.log k
  own : serves rs s'.log s'.node.client

variable {s s' : Site μ κ ε}

omit [CommandLog μ κ] in
theorem Site.Looks.of_log (hl : s'.log = s.log) (hk : serves rs s.log s'.node.client) :
    s.Looks serves rs s' :=
  ⟨fun _ h => hl ▸ h, hl ▸ hk⟩

theorem Site.endPosition_looks (hlog : Service serves look)
    (h : serves rs s.log s.node.client) :
    s.endPosition.1 = .ok rs.length ∧ s.Looks serves rs s.endPosition.2 ∧
      s.endPosition.2.node = s.node := by
  obtain ⟨m', hend, hkept, -⟩ := hlog.endPosition h
  rw [Site.endPosition, hend]
  exact ⟨rfl, ⟨hkept, hkept _ h⟩, rfl⟩

theorem Polling.step_looks (hlog : Service serves look) (h : serves rs s.log s.node.client)
    (stage : Polling) (task : Nat) : (stage.step task s).Holds (s.Looks serves rs) := by
  have hs := stage.step_serves hlog h task
  cases hm : stage.step task s with
  | wait => trivial
  | next s' stage' | done s' r =>
    rw [hm] at hs
    exact .of_log hs.1 hs.2

theorem Rewinding.step_looks (hlog : Service serves look) (h : serves rs s.log s.node.client)
    (stage : Rewinding) (task : Nat) : (stage.step task s).Holds (s.Looks serves rs) := by
  have hs := stage.step_serves hlog h task
  cases hm : stage.step task s with
  | wait => trivial
  | next s' stage' | done s' r =>
    rw [hm] at hs
    exact .of_log hs.1 hs.2

variable [Executor ε]

omit [CommandLog μ κ] in
theorem Applying.step_looks (h : serves rs s.log s.node.client) (a : Applying) :
    (a.step s).Holds (s.Looks serves rs) := by
  cases hm : a.step s with
  | wait => trivial
  | next s' a' =>
    have ho := step_next hm
    exact .of_log ho.log (ho.client ▸ h)
  | done s' c =>
    rcases step_done hm with ⟨-, -, -, rfl, -⟩ | ⟨-, rfl⟩ <;> exact .of_log rfl h

theorem Replaying.step_looks (hlog : Service serves look) (h : serves rs s.log s.node.client)
    (stage : Replaying) (task : Nat) : (stage.step task s).Holds (s.Looks serves rs) := by
  cases stage with
  | starting => exact .of_log rfl h
  | rewinding stage =>
    refine (stage.step_looks hlog h task).within fun s' r hs => ?_
    cases r <;> exact hs
  | measuring =>
    have hs := (Site.endPosition_looks hlog h).2.1
    rcases he : s.endPosition with ⟨r, s'⟩
    rw [he] at hs
    rw [step, he]
    cases r <;> exact hs
  | fetching limit backlog =>
    rw [step]
    split
    · split <;> exact .of_log rfl h
    · exact .of_log rfl h
  | polling limit backlog stage =>
    refine (stage.step_looks hlog h task).within fun s' r hs => ?_
    cases r with
    | error e => exact hs
    | ok batch => exact ⟨hs.others, hs.own⟩
  | sorting limit backlog =>
    rw [step]
    split <;> exact .of_log rfl h
  | terminating limit attempt =>
    refine (attempt.step_looks h).within fun s' c hs => ?_
    cases c <;> exact ⟨hs.others, hs.own⟩
  | resuming rest replayed => cases rest <;> exact .of_log rfl h
  | applying rest replayed attempt =>
    refine (attempt.step_looks h).within fun s' c hs => ?_
    cases c <;> exact hs
  | finishing replayed =>
    simp only [step]
    split <;> exact .of_log rfl h

theorem Running.step_looks (hlog : Service serves look) (h : serves rs s.log s.node.client)
    (stage : Running) (task : Nat) : (stage.step task s).Holds (s.Looks serves rs) := by
  by_cases ha : s.node.runner.aborted = true
  · rw [step.eq_def, if_pos ha]
    exact .of_log rfl h
  · cases stage with
    | starting =>
      rw [step, if_neg ha]
      split <;> exact .of_log rfl h
    | idle =>
      rw [step, if_neg ha]
      split
      · exact .of_log rfl h
      · split <;> exact .of_log rfl h
    | polling stage =>
      rw [step, if_neg ha]
      split
      · exact .of_log rfl h
      · refine (stage.step_looks hlog h task).within fun s' r hs => ?_
        cases r <;> exact hs
    | batch rest =>
      cases rest with
      | nil =>
        rw [step, if_neg ha]
        exact .of_log rfl h
      | cons c rest =>
        rw [step, if_neg ha]
        split <;> exact .of_log rfl h
    | applying rest attempt =>
      rw [step, if_neg ha]
      refine (attempt.step_looks h).within fun s' c hs => ?_
      cases c with
      | applied effect =>
        simp only
        split
        · exact ⟨hs.others, hs.own⟩
        · exact hs
      | _ => exact hs
    | stopping result =>
      rw [step, if_neg ha]
      exact .of_log rfl h

namespace Lifetime

variable {x y : Lifetime μ κ ε}

theorem advance?_looks (hlog : Service serves look)
    (hx : serves rs x.site.log x.site.node.client) (h : x.advance? = some y) :
    x.site.Looks serves rs y.site := by
  rw [advance?.eq_def] at h
  split at h
  · exact enter_holds (Replaying.step_looks hlog hx _ _) h
  · cases h
    exact .of_log rfl hx
  · exact enter_holds (Running.step_looks hlog hx _ _) h
  · cases h

end Lifetime

end StatementLog
