import StatementLog.Proofs.Runner.Attempt
import StatementLog.Proofs.Runner.Reading
import StatementLog.Proofs.Tracker.Delivery

namespace StatementLog

variable {μ κ ε : Type} [CommandLog μ κ] [LawfulLog μ]

structure Site.Rests (s s' : Site μ κ ε) : Prop where
  view : command? s'.log = command? s.log
  size : LawfulLog.size s'.log = LawfulLog.size s.log
  broker : s'.broker = s.broker
  executor : s'.executor = s.executor
  tracker : s'.tracker = s.tracker
  calls : s'.calls = s.calls
  policy : s'.node.runner.policy = s.node.runner.policy
  check : s'.check = s.check
  checks (k : κ) : CommandLog.check s'.log k = CommandLog.check s.log k
  stop : s'.node.runner.stopRequested = s.node.runner.stopRequested
  aborted : s'.node.runner.aborted = s.node.runner.aborted
  terminated : s'.node.runner.terminated = s.node.runner.terminated

namespace Site.Rests

variable {s s' s'' : Site μ κ ε}

theorem rfl : s.Rests s :=
  ⟨Eq.refl _, Eq.refl _, Eq.refl _, Eq.refl _, Eq.refl _, Eq.refl _, Eq.refl _, Eq.refl _,
    fun _ => Eq.refl _, Eq.refl _, Eq.refl _, Eq.refl _⟩

theorem trans (h : s.Rests s') (h' : s'.Rests s'') : s.Rests s'' :=
  ⟨h'.view.trans h.view, h'.size.trans h.size, h'.broker.trans h.broker,
    h'.executor.trans h.executor, h'.tracker.trans h.tracker, h'.calls.trans h.calls,
    h'.policy.trans h.policy, h'.check.trans h.check,
    fun k => (h'.checks k).trans (h.checks k), h'.stop.trans h.stop,
    h'.aborted.trans h.aborted, h'.terminated.trans h.terminated⟩

theorem of_keeps (h : s.Keeps s') : s.Rests s' :=
  ⟨congrArg _ h.log, congrArg _ h.log, h.broker, h.executor, h.tracker, h.calls,
    congrArg _ h.runner, h.check, fun k => congrArg (CommandLog.check · k) h.log,
    congrArg _ h.runner, congrArg _ h.runner, congrArg _ h.runner⟩

theorem of_node (hl : s'.log = s.log) (hc : s'.node.client = s.node.client)
    (hb : s'.broker = s.broker) (he : s'.executor = s.executor) (ht : s'.tracker = s.tracker)
    (hcalls : s'.calls = s.calls) (hp : s'.node.runner.policy = s.node.runner.policy)
    (hs : s'.node.runner.stopRequested = s.node.runner.stopRequested ∧
      s'.node.runner.aborted = s.node.runner.aborted)
    (hterm : s'.node.runner.terminated = s.node.runner.terminated) : s.Rests s' := by
  refine ⟨congrArg _ hl, congrArg _ hl, hb, he, ht, hcalls, hp, ?_, ?_, hs.1, hs.2, hterm⟩
  · rw [Site.check, Site.check, hl, hc]
  · intro k
    rw [hl]

end Site.Rests

theorem Site.endPosition_rests (s : Site μ κ ε) : s.Rests s.endPosition.2 :=
  ⟨funext (LawfulLog.command?_endPosition s.log s.node.client),
    LawfulLog.size_endPosition s.log s.node.client, rfl, rfl, rfl, rfl, rfl,
    LawfulLog.check_endPosition s.log s.node.client s.node.client,
    LawfulLog.check_endPosition s.log s.node.client, rfl, rfl, rfl⟩

theorem Site.endPosition_ok {s s' : Site μ κ ε} {n : Nat} (h : s.endPosition = (.ok n, s')) :
    n = LawfulLog.size s'.log := by
  have hn : (CommandLog.endPosition s.log s.node.client).1 = .ok n := congrArg Prod.fst h
  have hs : { s with log := (CommandLog.endPosition s.log s.node.client).2 } = s' :=
    congrArg Prod.snd h
  rw [← hs, LawfulLog.size_endPosition]
  exact LawfulLog.endPosition_ok (Prod.ext hn rfl)

namespace Applying

variable [Executor ε]

def reach (a : Applying) (s : Site μ κ ε) : Site μ κ ε :=
  match a.stage with
  | .trying => (a.attempt s).2
  | _ => s

omit [CommandLog μ κ] [LawfulLog μ] in
theorem reach_of_ne {a : Applying} (h : a.stage ≠ .trying) (s : Site μ κ ε) : a.reach s = s := by
  unfold reach
  split
  · next ht => exact absurd ht h
  · rfl

structure After (a : Applying) (s s' : Site μ κ ε) : Prop where
  view : command? s'.log = command? s.log
  size : LawfulLog.size s'.log = LawfulLog.size s.log
  policy : s'.node.runner.policy = s.node.runner.policy
  check : s'.check = s.check
  checks (k : κ) : CommandLog.check s'.log k = CommandLog.check s.log k
  stop : s'.node.runner.stopRequested = s.node.runner.stopRequested
  aborted : s'.node.runner.aborted = s.node.runner.aborted
  tracker : s'.tracker = a.publication?.elim s.tracker fun p => s.tracker.publish p.1 p.2
  broker : s'.broker = (a.reach s).broker
  executor : s'.executor = (a.reach s).executor
  calls : s'.calls = (a.reach s).calls

theorem next_after {a a' : Applying} {s s' : Site μ κ ε} (h : a.step s = .next s' a') :
    a.After s s' := by
  have ho := step_next h
  obtain ⟨state, hr⟩ := ho.runner
  have hview : command? s'.log = command? s.log := congrArg _ ho.log
  have hsize : LawfulLog.size s'.log = LawfulLog.size s.log := congrArg _ ho.log
  have hcheck : s'.check = s.check := by rw [Site.check, Site.check, ho.log, ho.client]
  have hsite : s'.tracker = (a.publication?.elim s.tracker fun p => s.tracker.publish p.1 p.2) ∧
      s'.broker = (a.reach s).broker ∧ s'.executor = (a.reach s).executor ∧
      s'.calls = (a.reach s).calls := by
    cases ht : a.stage with
    | announcing =>
      simp only [publication?, reach, ht]
      rw [step, ht] at h
      cases h
      exact ⟨rfl, rfl, rfl, rfl⟩
    | trying =>
      simp only [publication?, reach, ht]
      rcases trying_cases ht s with ⟨_, -, he⟩ | ⟨_, _, _, -, -, he⟩ | ⟨_, -, -, he⟩ <;>
        cases he.symm.trans h <;> exact ⟨rfl, rfl, rfl, rfl⟩
    | pausing wake =>
      simp only [publication?, reach, ht]
      rcases pausing_cases ht s with ⟨-, he⟩ | ⟨-, -, he⟩ | ⟨-, -, he⟩ <;> cases he.symm.trans h
      exact ⟨rfl, rfl, rfl, rfl⟩
    | reporting status conclusion =>
      simp only [publication?, reach, ht]
      rw [step, ht] at h
      cases h
      exact ⟨rfl, rfl, rfl, rfl⟩
    | advancing conclusion =>
      rw [step, ht] at h
      cases h
  obtain ⟨htracker, hbroker, hexecutor, hcalls⟩ := hsite
  exact ⟨hview, hsize, by rw [hr], hcheck, fun k => by rw [ho.log], by rw [hr], by rw [hr],
    htracker, hbroker, hexecutor, hcalls⟩

theorem done_after {a : Applying} {s s' : Site μ κ ε} {c : Conclusion}
    (h : a.step s = .done s' c) (f : Runner → Runner)
    (hf : ∀ r, (f r).policy = r.policy ∧ (f r).stopRequested = r.stopRequested ∧
      (f r).aborted = r.aborted) : a.After s (s'.mapRunner f) := by
  obtain ⟨hp, hstop, hab⟩ := hf s'.node.runner
  rcases step_done h with ⟨wake, ht, -, rfl, -⟩ | ⟨ht, rfl⟩
  · refine ⟨rfl, rfl, hp, rfl, fun _ => rfl, hstop, hab, ?_, ?_, ?_, ?_⟩ <;>
      simp only [publication?, reach, ht]
    · rfl
    · rfl
    · rfl
    · rfl
  · refine ⟨rfl, rfl, hp, rfl, fun _ => rfl, hstop, hab, ?_, ?_, ?_, ?_⟩ <;>
      simp only [publication?, reach, ht] <;> rfl

end Applying

namespace Lifetime

variable [Executor ε] {x y : Lifetime μ κ ε}

omit [LawfulLog μ] in
theorem advance?_take (h : x.advance? = some y) : ∃ s p, y = x.take s p := by
  unfold advance? at h
  split at h
  · rcases enter_cases h with ⟨s, stage, -, rfl⟩ | ⟨s, r, -, rfl⟩
    · exact ⟨s, _, rfl⟩
    · exact ⟨s, _, rfl⟩
  · cases h
    exact ⟨_, _, rfl⟩
  · rcases enter_cases h with ⟨s, stage, -, rfl⟩ | ⟨s, r, -, rfl⟩
    · exact ⟨s, _, rfl⟩
    · exact ⟨s, _, rfl⟩
  · cases h

theorem advance?_attempt {a : Applying} (hx : x.attempt? = some a) (h : x.advance? = some y) :
    a.After x.site y.site := by
  unfold attempt? at hx
  split at hx
  · next limit b hp =>
    cases hx
    simp only [advance?, hp] at h
    rcases enter_within_cases h with ⟨s, a', hs, rfl⟩ | ⟨s, c, hs, hy⟩
    · exact Applying.next_after hs
    · cases c with
      | interrupted =>
        cases hy
        exact Applying.done_after hs id fun _ => ⟨rfl, rfl, rfl⟩
      | _ =>
        cases hy
        exact Applying.done_after hs
          (fun r => { r with applied := limit, terminated := true, state := .stopped })
          fun _ => ⟨rfl, rfl, rfl⟩
  · next rest n b hp =>
    cases hx
    simp only [advance?, hp] at h
    rcases enter_within_cases h with ⟨s, a', hs, rfl⟩ | ⟨s, c, hs, hy⟩
    · exact Applying.next_after hs
    · cases c <;> cases hy <;> exact Applying.done_after hs id fun _ => ⟨rfl, rfl, rfl⟩
  · next rest b hp =>
    split at hx
    · cases hx
    · next ha =>
      cases hx
      simp only [advance?, hp] at h
      rw [Running.step, if_neg ha] at h
      rcases enter_within_cases h with ⟨s, a', hs, rfl⟩ | ⟨s, c, hs, hy⟩
      · exact Applying.next_after hs
      · cases c with
        | interrupted =>
          cases hy
          exact Applying.done_after hs id fun _ => ⟨rfl, rfl, rfl⟩
        | applied effect =>
          simp only at hy
          split at hy <;> cases hy
          · exact Applying.done_after hs (fun r => { r with terminated := true })
              fun _ => ⟨rfl, rfl, rfl⟩
          · exact Applying.done_after hs id fun _ => ⟨rfl, rfl, rfl⟩
        | failed f =>
          cases hy
          exact Applying.done_after hs id fun _ => ⟨rfl, rfl, rfl⟩
  · cases hx

theorem replaying_rests {stage : Replaying} (hp : x.phase = .replaying stage)
    (hx : x.attempt? = none) (hf : ∀ n, stage ≠ .finishing n)
    (h : x.enter (stage.step x.task x.site) .replaying .replayed = some y) :
    x.site.Rests y.site := by
  cases stage with
  | starting =>
    cases h
    exact .of_node rfl rfl rfl rfl rfl rfl rfl ⟨rfl, rfl⟩ rfl
  | rewinding stage =>
    rcases enter_within_cases h with ⟨s, stage', hs, rfl⟩ | ⟨s, r, hs, hy⟩
    · exact .of_keeps (Rewinding.keeps_next hs)
    · cases r <;> cases hy <;> exact .of_keeps (Rewinding.keeps_done hs).1
  | measuring =>
    have hr := Site.endPosition_rests x.site
    rcases he : x.site.endPosition with ⟨r, s⟩
    simp only [Replaying.step, he] at h hr
    cases r <;> cases h <;> exact hr
  | fetching limit backlog =>
    rw [Replaying.step] at h
    split at h
    · split at h <;> cases h <;> exact .rfl
    · cases h
      exact .rfl
  | polling limit backlog stage =>
    rcases enter_within_cases h with ⟨s, stage', hs, rfl⟩ | ⟨s, r, hs, hy⟩
    · exact .of_keeps (Polling.keeps_next hs).1
    · have hk := Site.Rests.of_keeps (Polling.keeps_done hs).1
      cases r with
      | error e =>
        cases hy
        exact hk
      | ok batch =>
        cases hy
        exact hk.trans (.of_node rfl rfl rfl rfl rfl rfl rfl ⟨rfl, rfl⟩ rfl)
  | sorting limit backlog =>
    rw [Replaying.step] at h
    split at h <;> cases h <;> exact .of_node rfl rfl rfl rfl rfl rfl rfl ⟨rfl, rfl⟩ rfl
  | terminating limit a => simp [attempt?, hp] at hx
  | resuming rest n => cases rest <;> cases h <;> exact .rfl
  | applying rest n a => simp [attempt?, hp] at hx
  | finishing n => exact absurd rfl (hf n)

theorem running_rests {stage : Running} (hp : x.phase = .running stage) (hx : x.attempt? = none)
    (h : x.enter (stage.step x.task x.site) .running .ended = some y) : x.site.Rests y.site := by
  by_cases ha : x.site.node.runner.aborted = true
  · rw [Running.step.eq_def, if_pos ha] at h
    cases h
    exact .of_node rfl rfl rfl rfl rfl rfl rfl ⟨rfl, rfl⟩ rfl
  · cases stage with
    | starting =>
      rw [Running.step, if_neg ha] at h
      split at h <;> cases h <;> exact .of_node rfl rfl rfl rfl rfl rfl rfl ⟨rfl, rfl⟩ rfl
    | idle =>
      rw [Running.step, if_neg ha] at h
      split at h
      · cases h
        exact .rfl
      · split at h <;> cases h <;> exact .of_node rfl rfl rfl rfl rfl rfl rfl ⟨rfl, rfl⟩ rfl
    | polling stage =>
      rw [Running.step, if_neg ha] at h
      split at h
      · cases h
        exact .of_node rfl rfl rfl rfl rfl rfl rfl ⟨rfl, rfl⟩ rfl
      · rcases enter_within_cases h with ⟨s, stage', hs, rfl⟩ | ⟨s, r, hs, hy⟩
        · exact .of_keeps (Polling.keeps_next hs).1
        · cases r <;> cases hy <;> exact .of_keeps (Polling.keeps_done hs).1
    | batch rest =>
      cases rest with
      | nil =>
        rw [Running.step, if_neg ha] at h
        cases h
        exact .rfl
      | cons c rest =>
        rw [Running.step, if_neg ha] at h
        split at h <;> cases h <;> exact .rfl
    | applying rest a => simp [attempt?, hp, ha] at hx
    | stopping r =>
      rw [Running.step, if_neg ha] at h
      cases h
      exact .of_node rfl rfl rfl rfl rfl rfl rfl ⟨rfl, rfl⟩ rfl

theorem advance?_rests (hx : x.attempt? = none) (hf : ∀ n, x.phase ≠ .replaying (.finishing n))
    (h : x.advance? = some y) : x.site.Rests y.site := by
  unfold advance? at h
  cases hp : x.phase with
  | replaying stage =>
    rw [hp] at h
    exact replaying_rests hp hx (fun n hs => hf n (hs ▸ hp)) h
  | replayed r =>
    rw [hp] at h
    cases r <;> cases h
    exact .rfl
  | running stage =>
    rw [hp] at h
    exact running_rests hp hx h
  | ended r =>
    rw [hp] at h
    cases h

omit [LawfulLog μ] in
theorem advance?_finishing {n : Nat} (hp : x.phase = .replaying (.finishing n))
    (h : x.advance? = some y) :
    ∃ r, (Executor.finishReplay x.site.executor).1 = r ∧
      y.site = { x.site with
        executor := (Executor.finishReplay x.site.executor).2
        calls := .finishReplay r :: x.site.calls } ∧
      ((∃ f, r = .error f ∧ y.phase = .replayed (.error (.applyFailed f))) ∨
        r = .ok () ∧ y.phase = .replayed (.ok (.completed n))) := by
  simp only [advance?, hp, Replaying.step] at h
  generalize Executor.finishReplay x.site.executor = q at h ⊢
  obtain ⟨r, e⟩ := q
  cases r with
  | error f =>
    cases h
    exact ⟨_, rfl, rfl, .inl ⟨f, rfl, rfl⟩⟩
  | ok u =>
    cases h
    exact ⟨_, rfl, rfl, .inr ⟨rfl, rfl⟩⟩

theorem advance?_cases (h : x.advance? = some y) :
    (∃ a, x.attempt? = some a ∧ a.After x.site y.site) ∨
    (∃ n r, x.attempt? = none ∧ x.phase = .replaying (.finishing n) ∧
      y.site = { x.site with
        executor := (Executor.finishReplay x.site.executor).2
        calls := .finishReplay r :: x.site.calls }) ∨
    (x.attempt? = none ∧ (∀ n, x.phase ≠ .replaying (.finishing n)) ∧ x.site.Rests y.site) := by
  cases hx : x.attempt? with
  | some a => exact .inl ⟨a, rfl, advance?_attempt hx h⟩
  | none =>
    by_cases hf : ∃ n, x.phase = .replaying (.finishing n)
    · obtain ⟨n, hp⟩ := hf
      obtain ⟨r, -, hs, -⟩ := advance?_finishing hp h
      exact .inr (.inl ⟨n, r, rfl, hp, hs⟩)
    · have hf (n : Nat) : x.phase ≠ .replaying (.finishing n) := fun hn => hf ⟨n, hn⟩
      exact .inr (.inr ⟨rfl, hf, advance?_rests hx hf h⟩)

omit [LawfulLog μ] in
theorem replaying_phase_attempt {stage : Replaying} {a' : Applying}
    (hp : x.phase = .replaying stage)
    (h : x.enter (stage.step x.task x.site) .replaying .replayed = some y)
    (ha : y.phase.attempt? = some a') :
    (∃ a s, x.attempt? = some a ∧ a.step x.site = .next s a') ∨
      a'.transient = 0 ∧ a'.infrastructure = 0 ∧ a'.stage = .announcing := by
  cases stage with
  | starting =>
    cases h
    cases ha
  | rewinding stage =>
    rcases enter_within_cases h with ⟨s, stage', -, rfl⟩ | ⟨s, r, -, hy⟩
    · cases ha
    · cases r <;> cases hy <;> cases ha
  | measuring =>
    rcases enter_cases h with ⟨s, stage', hs, rfl⟩ | ⟨s, r, -, rfl⟩
    · rw [Replaying.step] at hs
      split at hs <;> cases hs
      cases ha
    · cases ha
  | fetching limit backlog =>
    rcases enter_cases h with ⟨s, stage', hs, rfl⟩ | ⟨s, r, -, rfl⟩
    · rw [Replaying.step] at hs
      split at hs
      · split at hs <;> cases hs
        cases ha
      · cases hs
        cases ha
    · cases ha
  | polling limit backlog stage =>
    rcases enter_within_cases h with ⟨s, stage', -, rfl⟩ | ⟨s, r, -, hy⟩
    · cases ha
    · cases r <;> cases hy <;> cases ha
  | sorting limit backlog =>
    rcases enter_cases h with ⟨s, stage', hs, rfl⟩ | ⟨s, r, -, rfl⟩
    · rw [Replaying.step] at hs
      split at hs <;> cases hs <;> cases ha
      exact .inr ⟨rfl, rfl, rfl⟩
    · cases ha
  | terminating limit a =>
    have hx : x.attempt? = some a := by rw [attempt?, hp]
    rcases enter_within_cases h with ⟨s, b, hs, rfl⟩ | ⟨s, c, -, hy⟩
    · cases ha
      exact .inl ⟨a, s, hx, hs⟩
    · cases c <;> cases hy <;> cases ha
  | resuming rest n =>
    cases rest <;> cases h <;> cases ha
    exact .inr ⟨rfl, rfl, rfl⟩
  | applying rest n a =>
    have hx : x.attempt? = some a := by rw [attempt?, hp]
    rcases enter_within_cases h with ⟨s, b, hs, rfl⟩ | ⟨s, c, -, hy⟩
    · cases ha
      exact .inl ⟨a, s, hx, hs⟩
    · cases c <;> cases hy <;> cases ha
  | finishing n =>
    rcases enter_cases h with ⟨s, stage', hs, rfl⟩ | ⟨s, r, -, rfl⟩
    · simp only [Replaying.step] at hs
      split at hs <;> cases hs
    · cases ha

omit [LawfulLog μ] in
theorem running_phase_attempt {stage : Running} {a' : Applying} (hp : x.phase = .running stage)
    (h : x.enter (stage.step x.task x.site) .running .ended = some y)
    (ha : y.phase.attempt? = some a') :
    (∃ a s, x.attempt? = some a ∧ a.step x.site = .next s a') ∨
      a'.transient = 0 ∧ a'.infrastructure = 0 ∧ a'.stage = .announcing := by
  by_cases hab : x.site.node.runner.aborted = true
  · rw [Running.step.eq_def, if_pos hab] at h
    cases h
    cases ha
  · cases stage with
    | starting =>
      rw [Running.step, if_neg hab] at h
      split at h <;> cases h <;> cases ha
    | idle =>
      rw [Running.step, if_neg hab] at h
      split at h
      · cases h
        cases ha
      · split at h <;> cases h <;> cases ha
    | polling stage =>
      rw [Running.step, if_neg hab] at h
      split at h
      · cases h
        cases ha
      · rcases enter_within_cases h with ⟨s, stage', -, rfl⟩ | ⟨s, r, -, hy⟩
        · cases ha
        · cases r <;> cases hy <;> cases ha
    | batch rest =>
      cases rest with
      | nil =>
        rw [Running.step, if_neg hab] at h
        cases h
        cases ha
      | cons c rest =>
        rw [Running.step, if_neg hab] at h
        split at h <;> cases h <;> cases ha
        exact .inr ⟨rfl, rfl, rfl⟩
    | applying rest a =>
      have hx : x.attempt? = some a := by
        rw [attempt?, hp]
        simp [hab]
      rw [Running.step, if_neg hab] at h
      rcases enter_within_cases h with ⟨s, b, hs, rfl⟩ | ⟨s, c, -, hy⟩
      · cases ha
        exact .inl ⟨a, s, hx, hs⟩
      · cases c with
        | applied effect =>
          simp only at hy
          split at hy <;> cases hy <;> cases ha
        | _ =>
          cases hy
          cases ha
    | stopping r =>
      rw [Running.step, if_neg hab] at h
      cases h
      cases ha

omit [LawfulLog μ] in
theorem advance?_phase_attempt {a' : Applying} (h : x.advance? = some y)
    (ha : y.phase.attempt? = some a') :
    (∃ a s, x.attempt? = some a ∧ a.step x.site = .next s a') ∨
      a'.transient = 0 ∧ a'.infrastructure = 0 ∧ a'.stage = .announcing := by
  unfold advance? at h
  cases hp : x.phase with
  | replaying stage =>
    rw [hp] at h
    exact replaying_phase_attempt hp h ha
  | replayed r =>
    rw [hp] at h
    cases r <;> cases h
    cases ha
  | running stage =>
    rw [hp] at h
    exact running_phase_attempt hp h ha
  | ended r =>
    rw [hp] at h
    cases h

theorem advance?_view (h : x.advance? = some y) :
    command? y.site.log = command? x.site.log ∧
      LawfulLog.size y.site.log = LawfulLog.size x.site.log ∧
      y.site.node.runner.policy = x.site.node.runner.policy := by
  rcases advance?_cases h with ⟨a, -, ha⟩ | ⟨n, r, -, -, hs⟩ | ⟨-, -, hr⟩
  · exact ⟨ha.view, ha.size, ha.policy⟩
  · rw [hs]
    exact ⟨rfl, rfl, rfl⟩
  · exact ⟨hr.view, hr.size, hr.policy⟩

theorem advance?_checks (h : x.advance? = some y) (k : κ) :
    CommandLog.check y.site.log k = CommandLog.check x.site.log k := by
  rcases advance?_cases h with ⟨a, -, ha⟩ | ⟨n, r, -, -, hs⟩ | ⟨-, -, hr⟩
  · exact ha.checks k
  · rw [hs]
  · exact hr.checks k

theorem advance?_published (h : x.advance? = some y) :
    ∃ ps, y.published = ps ++ x.published ∧
      y.site.tracker = ps.foldr (fun p t => t.publish p.1 p.2) x.site.tracker := by
  obtain ⟨s, p, he⟩ := advance?_take h
  have hnone (hx : x.attempt? = none) : y.published = [] ++ x.published := by
    rw [he, take, hx]
    rfl
  rcases advance?_cases h with ⟨a, hx, ha⟩ | ⟨n, r, hx, -, hs⟩ | ⟨hx, -, hr⟩
  · refine ⟨a.publication?.toList, ?_, ?_⟩
    · rw [he, published_take hx]
    · rw [ha.tracker]
      cases a.publication? <;> rfl
  · refine ⟨[], hnone hx, ?_⟩
    rw [hs]
    rfl
  · exact ⟨[], hnone hx, hr.tracker⟩

theorem Reaches.heard {world : Site μ κ ε → Site μ κ ε → Prop}
    (hw : ∀ s s', world s s' → Tracker.Use s.tracker s'.tracker) (hr : Reaches world x y) :
    ∃ ps, y.published = ps ++ x.published ∧ Tracker.Hears ps x.site.tracker y.site.tracker := by
  induction hr with
  | refl => exact ⟨[], rfl, .refl _⟩
  | tail _ hs ih =>
    obtain ⟨ps, hp, ht⟩ := ih
    -- only its own steps publish; what changes the world beside them is use of the tracker
    cases hs with
    | act ha =>
      obtain ⟨more, hmore, htracker⟩ := advance?_published ha
      refine ⟨more ++ ps, ?_, ?_⟩
      · rw [hmore, hp, List.append_assoc]
      · rw [htracker]
        exact ht.publish_all more
    | change h => exact ⟨ps, hp, ht.use (hw _ _ h)⟩

end Lifetime

end StatementLog
