import StatementLog.Proofs.Replay.Outage

namespace StatementLog

def Applying.effect? (a : Applying) : Option Effect :=
  match a.stage with
  | .reporting _ (.applied effect) => some effect
  | .advancing (.applied effect) => some effect
  | _ => none

def Phase.CaughtUp : Phase → Prop
  | .replayed (.ok (.completed _)) => True
  | .running _ => True
  | _ => False

def Phase.InService : Phase → Prop
  | .replaying _ => True
  | .replayed (.ok (.completed _)) => True
  | .running (.stopping _) => False
  | .running _ => True
  | _ => False

namespace Lifetime

section

variable {μ κ ε : Type} [CommandLog μ κ] [Executor ε] {x y : Lifetime μ κ ε}

theorem replaying_completed {stage : Replaying} {n : Nat}
    (h : x.enter (stage.step x.task x.site) .replaying .replayed = some y)
    (hp : y.phase = .replayed (.ok (.completed n))) : ∃ m, stage = .finishing m := by
  cases stage with
  | starting =>
    cases h
    cases hp
  | rewinding stage =>
    rcases enter_within_cases h with ⟨s, stage', -, rfl⟩ | ⟨s, r, -, hy⟩
    · cases hp
    · cases r <;> cases hy <;> cases hp
  | measuring =>
    rw [Replaying.step] at h
    split at h <;> cases h <;> cases hp
  | fetching limit backlog =>
    rw [Replaying.step] at h
    split at h
    · split at h <;> cases h <;> cases hp
    · cases h
      cases hp
  | polling limit backlog stage =>
    rcases enter_within_cases h with ⟨s, stage', -, rfl⟩ | ⟨s, r, -, hy⟩
    · cases hp
    · cases r <;> cases hy <;> cases hp
  | sorting limit backlog =>
    rw [Replaying.step] at h
    split at h <;> cases h <;> cases hp
  | terminating limit a =>
    rcases enter_within_cases h with ⟨s, a', -, rfl⟩ | ⟨s, c, -, hy⟩
    · cases hp
    · cases c <;> cases hy <;> cases hp
  | resuming rest m => cases rest <;> cases h <;> cases hp
  | applying rest m a =>
    rcases enter_within_cases h with ⟨s, a', -, rfl⟩ | ⟨s, c, -, hy⟩
    · cases hp
    · cases c <;> cases hy <;> cases hp
  | finishing m => exact ⟨m, rfl⟩

theorem caughtUp_cases (h : x.advance? = some y) (hp : y.phase.CaughtUp) :
    x.phase.CaughtUp ∨ (∃ n, x.phase = .replaying (.finishing n)) ∨
      ∃ outcome, x.phase = .replayed (.ok outcome) ∧ ∀ n, outcome ≠ .completed n := by
  unfold advance? at h
  cases hx : x.phase with
  | replaying stage =>
    rw [hx] at h
    refine .inr (.inl ?_)
    have hn (hn : ∃ n, y.phase = .replayed (.ok (.completed n))) :
        ∃ n, Phase.replaying stage = .replaying (.finishing n) := by
      obtain ⟨n, hn⟩ := hn
      obtain ⟨m, rfl⟩ := replaying_completed h hn
      exact ⟨m, rfl⟩
    rcases enter_cases h with ⟨s, stage', -, rfl⟩ | ⟨s, r, -, rfl⟩
    · exact hp.elim
    · rcases r with e | ⟨n⟩ | e | _
      · exact hp.elim
      · exact hn ⟨n, rfl⟩
      · exact hp.elim
      · exact hp.elim
  | replayed r =>
    rw [hx] at h
    rcases r with e | ⟨n⟩ | e | _
    · cases h
    · exact .inl trivial
    · exact .inr (.inr ⟨_, rfl, by simp⟩)
    · exact .inr (.inr ⟨_, rfl, by simp⟩)
  | running stage => exact .inl trivial
  | ended r =>
    rw [hx] at h
    cases h

end

variable {μ κ : Type} [CommandLog μ κ] [LawfulLog μ] {x y : Lifetime μ κ Engine}

structure Enduring (x : Lifetime μ κ Engine) : Prop where
  terminated : x.site.node.runner.terminated = false
  effects (a : Applying) (e : Effect) : x.phase.attempt? = some a → a.effect? = some e →
    e.shutdown = false
  told : x.phase.CaughtUp → x.site.node.runner.stopRequested = true ∨
    ∃ r, .finishReplay r ∈ x.site.calls

theorem attempt_shutdown {a : Applying} {n : Nat} (hw : Written x.view)
    (hv : x.view n = some a.command) {e : Effect} (hr : (a.attempt x.site).1 = .ok e) :
    e.shutdown = false := by
  have hs := congrArg Prod.fst (settle_attempt (hw.ordinary hv) x)
  exact Catalog.settle_shutdown (hw n _ hv).2 (hs.trans hr)

theorem effects_next {a a' : Applying} {s : Site μ κ Engine} (hw : Written x.view)
    (hv : x.view a.command.offset = some a.command) (hs : a.step x.site = .next s a')
    (ha : ∀ e, a.effect? = some e → e.shutdown = false) {e : Effect} (he : a'.effect? = some e) :
    e.shutdown = false := by
  cases hst : a.stage with
  | announcing =>
    rw [Applying.step, hst] at hs
    cases hs
    cases he
  | trying =>
    rcases Applying.trying_cases hst x.site with ⟨e', hr, h⟩ | ⟨f, _, _, -, -, h⟩ | ⟨f, -, -, h⟩ <;>
      cases h.symm.trans hs <;> cases he
    exact attempt_shutdown hw hv hr
  | pausing wake =>
    rcases Applying.pausing_cases hst x.site with ⟨-, h⟩ | ⟨-, -, h⟩ | ⟨-, -, h⟩ <;>
      cases h.symm.trans hs
    cases he
  | reporting status conclusion =>
    rw [Applying.step, hst] at hs
    cases hs
    refine ha e ?_
    rw [Applying.effect?, hst]
    cases conclusion <;> exact he
  | advancing conclusion =>
    rw [Applying.step, hst] at hs
    cases hs

theorem Handling.view_offset {ε : Type} {x : Lifetime μ κ ε} {limit : Nat} {mode : Mode}
    {rest : List Command} {a : Applying} (h : x.Handling limit mode rest a) :
    x.view a.command.offset = some a.command := by
  rw [LawfulLog.offset_eq h.view_applied]
  exact h.view_applied

theorem Enduring.terminated_advance (h : x.Orderly) (hd : x.Enduring) (hy : x.advance? = some y) :
    y.site.node.runner.terminated = false := by
  have hnext {a a' : Applying} {s : Site μ κ Engine} (hs : a.step x.site = .next s a') :
      s.node.runner.terminated = false := by
    obtain ⟨state, hr⟩ := (Applying.step_next hs).runner
    rw [hr]
    exact hd.terminated
  have hdone {a : Applying} {s : Site μ κ Engine} {c : Conclusion}
      (hs : a.step x.site = .done s c) : s.node.runner.terminated = false := by
    rcases Applying.step_done hs with ⟨_, -, -, rfl, -⟩ | ⟨-, rfl⟩
    · exact hd.terminated
    · exact hd.terminated
  rcases advance?_cases hy with ⟨a, hx, -⟩ | ⟨n, r, -, -, hs⟩ | ⟨-, -, hr⟩
  · have h := h.2
    have heff := hd.effects a
    unfold attempt? at hx
    split at hx
    · next hp =>
      rw [hp] at h
      exact h.elim
    · next hp =>
      cases hx
      simp only [advance?, hp] at hy
      rcases enter_within_cases hy with ⟨s, a', hs, rfl⟩ | ⟨s, c, hs, hc⟩
      · exact hnext hs
      · cases c <;> cases hc <;> exact hdone hs
    · next rest a' hp =>
      split at hx
      · cases hx
      · next hab =>
        cases hx
        simp only [advance?, hp, Running.step, if_neg hab] at hy
        rcases enter_within_cases hy with ⟨s, a', hs, rfl⟩ | ⟨s, c, hs, hc⟩
        · exact hnext hs
        · cases c with
          | applied e =>
            have he : e.shutdown = false := by
              rcases Applying.step_done hs with ⟨_, -, -, -, hc⟩ | ⟨hst, -⟩
              · cases hc
              · exact heff e (by rw [hp]; rfl) (by rw [Applying.effect?, hst])
            simp only [he, Bool.false_eq_true, if_false] at hc
            cases hc
            exact hdone hs
          | _ =>
            cases hc
            exact hdone hs
    · cases hx
  · rw [hs]
    exact hd.terminated
  · exact hr.terminated.trans hd.terminated

theorem Enduring.told_advance (h : x.Orderly) (hd : x.Enduring) (hy : x.advance? = some y)
    (hp : y.phase.CaughtUp) : y.site.node.runner.stopRequested = true ∨
      ∃ r, .finishReplay r ∈ y.site.calls := by
  -- unless the executor is told now, the runner was as far before, and its calls are kept
  have hbefore (hf : ∀ n, x.phase ≠ .replaying (.finishing n))
      (hstop : y.site.node.runner.stopRequested = x.site.node.runner.stopRequested)
      (hcalls : ∀ call ∈ x.site.calls, call ∈ y.site.calls) :
      y.site.node.runner.stopRequested = true ∨ ∃ r, .finishReplay r ∈ y.site.calls := by
    rw [hstop]
    rcases caughtUp_cases hy hp with hc | ⟨n, hn⟩ | ⟨outcome, hr, hn⟩
    · rcases hd.told hc with ht | ⟨r, ht⟩
      · exact .inl ht
      · exact .inr ⟨r, hcalls _ ht⟩
    · exact absurd hn (hf n)
    · have h := h.2
      rw [hr] at h
      cases outcome with
      | completed n => exact absurd rfl (hn n)
      | terminated e => exact h.elim
      | interrupted => exact .inl h.2
  rcases advance?_cases hy with ⟨a, hx, ha⟩ | ⟨n, r, -, -, hs⟩ | ⟨-, hf, hr⟩
  · refine hbefore ?_ ha.stop ?_
    · intro n hn
      rw [attempt?, hn] at hx
      cases hx
    · rw [ha.calls, Applying.reach]
      split
      · exact fun call hc => List.mem_cons_of_mem _ hc
      · exact fun call hc => hc
  · rw [hs]
    exact .inr ⟨r, List.mem_cons_self ..⟩
  · exact hbefore hf hr.stop (by simp [hr.calls])

theorem Enduring.advance (h : x.Orderly) (hw : Written x.view) (hd : x.Enduring)
    (hy : x.advance? = some y) : y.Enduring := by
  refine ⟨hd.terminated_advance h hy, ?_, hd.told_advance h hy⟩
  intro a' e ha he
  rcases advance?_phase_attempt hy ha with ⟨a, s, hx, hs⟩ | ⟨-, -, hz⟩
  · obtain ⟨limit, mode, rest, hh⟩ := h.handling (phase_attempt? hx)
    exact effects_next hw hh.view_offset hs (fun e => hd.effects a e (phase_attempt? hx)) he
  · rw [Applying.effect?, hz] at he
    cases he

theorem Enduring.drift (hd : x.Enduring) {s : Site μ κ Engine} (hs : x.site.Drift s) :
    Enduring { x with site := s } := by
  refine ⟨hs.terminated.trans hd.terminated, hd.effects, ?_⟩
  intro hp
  rcases hd.told hp with ht | ⟨r, ht⟩
  · exact .inl (hs.stop ht)
  · refine .inr ⟨r, ?_⟩
    rw [hs.calls]
    exact ht

theorem ofSite_enduring {s : Site μ κ Engine} (h : s.Fresh) (task : Nat) :
    (ofSite task s).Enduring := by
  obtain ⟨policy, pollTimeout, hr⟩ := h.runner
  refine ⟨?_, ?_, False.elim⟩
  · rw [ofSite, hr]
  · intro a e ha
    cases ha

/-- The runner goes on if nobody stops it, and all that it has yet to read can be read. -/
structure Working {ε : Type} (x : Lifetime μ κ ε) : Prop where
  readable : ∀ n < LawfulLog.size x.site.log, (x.view n).isSome
  check : x.site.check = .ok ()
  stop : x.site.node.runner.stopRequested = false
  aborted : x.site.node.runner.aborted = false
  phase : x.phase.InService

structure Serving (x : Lifetime μ κ Engine) : Prop extends x.Working where
  orderly : x.Orderly
  written : Written x.view
  enduring : x.Enduring

theorem Serving.advance (h : x.Serving) (hy : x.advance? = some y) (hp : y.phase.InService) :
    y.Serving := by
  obtain ⟨hview, hsize, -⟩ := advance?_view hy
  have hv : y.view = x.view := hview
  have hflags : y.site.check = x.site.check ∧
      y.site.node.runner.stopRequested = x.site.node.runner.stopRequested ∧
      y.site.node.runner.aborted = x.site.node.runner.aborted := by
    rcases advance?_cases hy with ⟨a, -, ha⟩ | ⟨n, r, -, -, hs⟩ | ⟨-, -, hr⟩
    · exact ⟨ha.check, ha.stop, ha.aborted⟩
    · rw [hs]
      exact ⟨rfl, rfl, rfl⟩
    · exact ⟨hr.check, hr.stop, hr.aborted⟩
  obtain ⟨hcheck, hstop, haborted⟩ := hflags
  refine ⟨⟨?_, hcheck.trans h.check, hstop.trans h.stop, haborted.trans h.aborted, hp⟩,
    h.orderly.advance (unterminated_of_written h.written) hy, ?_,
    h.enduring.advance h.orderly h.written hy⟩
  · rw [hsize, hv]
    exact h.readable
  · rw [hv]
    exact h.written

theorem Serving.drift (h : x.Serving) {s : Site μ κ Engine} (hs : x.site.Drift s)
    (hview : command? s.log = x.view) (hsize : LawfulLog.size s.log = LawfulLog.size x.site.log)
    (hc : s.check = .ok ()) (hstop : s.node.runner.stopRequested = false)
    (ha : s.node.runner.aborted = false) : Serving { x with site := s } := by
  have hv : ({ x with site := s } : Lifetime μ κ Engine).view = x.view := hview
  refine ⟨⟨?_, hc, hstop, ha, h.phase⟩, h.orderly.change hs, ?_, h.enduring.drift hs⟩
  · rw [hv]
    intro n hn
    exact h.readable n (hsize ▸ hn)
  · rw [hv]
    exact h.written

end Lifetime

end StatementLog
