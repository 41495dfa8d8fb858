import StatementLog.Proofs.Runner.States

namespace StatementLog

variable {μ κ ε : Type}

/-- What others may do to the site of a runner: anything, but what its runner notes down for itself
and what it hands to the executor are its own. The runner may be told to stop, or be aborted. -/
structure Site.Sways (s s' : Site μ κ ε) : Prop where
  calls : s'.calls = s.calls
  runner : ∃ stop aborted,
    s'.node.runner = { s.node.runner with stopRequested := stop, aborted }
  stop : s.node.runner.stopRequested = true → s'.node.runner.stopRequested = true

theorem Site.Sways.state {s s' : Site μ κ ε} (h : s.Sways s') :
    s'.node.runner.state = s.node.runner.state := by
  obtain ⟨stop, aborted, hr⟩ := h.runner
  rw [hr]

theorem Site.Sways.applied {s s' : Site μ κ ε} (h : s.Sways s') :
    s'.node.runner.applied = s.node.runner.applied := by
  obtain ⟨stop, aborted, hr⟩ := h.runner
  rw [hr]

def Phase.Spawned : Phase → Prop
  | .running _ | .ended _ => True
  | _ => False

theorem Phase.Begun.spawned {p : Phase} (h : p.Begun) : p.Spawned := by
  cases p with
  | running stage => trivial
  | ended r => trivial
  | _ => exact h.elim

namespace Lifetime

variable [CommandLog μ κ] [Executor ε] {x y z : Lifetime μ κ ε} {e : Error}

section

omit [CommandLog μ κ] [Executor ε]

theorem ofSite_poised {s : Site μ κ ε} {policy : RetryPolicy} {pollTimeout : Nat}
    (h : s.node.runner = { policy, pollTimeout }) (task : Nat) : (ofSite task s).Poised := by
  show s.node.runner.terminated = false ∧ s.node.runner.state = .starting
  rw [h]
  exact ⟨rfl, rfl⟩

theorem Poised.attempt {a : Applying} (h : x.Poised) (ha : x.phase.attempt? = some a) :
    x.state = a.state ∧ (a.mode = .replay ↔ ∃ stage, x.phase = .replaying stage) := by
  unfold Poised at h
  unfold Phase.attempt? at ha
  split at ha
  · next hp =>
    cases ha
    rw [hp] at h
    exact ⟨h.2.2.2, by simp [hp, h.2.1]⟩
  · next hp =>
    cases ha
    rw [hp] at h
    exact ⟨h.2.2.2, by simp [hp, h.2.1]⟩
  · next hp =>
    cases ha
    rw [hp] at h
    exact ⟨h.2.2, by simp [hp, h.1]⟩
  · cases ha

theorem Poised.change (h : x.Poised) {s : Site μ κ ε} (hs : x.site.Sways s) :
    Poised { x with site := s } := by
  obtain ⟨stop, aborted, hr⟩ := hs.runner
  have hstop := hs.stop
  unfold Poised at h ⊢
  show x.phase.Poises s.node.runner s.calls
  rw [hr] at hstop ⊢
  rw [hs.calls]
  cases hp : x.phase with
  | replaying stage =>
    rw [hp] at h
    cases stage <;> exact h
  | replayed r =>
    rw [hp] at h
    rcases r with e | ⟨n⟩ | e | _
    · exact h
    · exact h
    · exact h
    · exact ⟨h.1, h.2.1, hstop h.2.2⟩
  | running stage =>
    rw [hp] at h
    cases stage <;> exact h
  | ended r =>
    rw [hp] at h
    exact h

theorem Poised.begun (h : x.Poised) (hs : x.state = .running) : x.Begun := by
  refine ⟨by simp [hs], ?_⟩
  have hs : x.site.node.runner.state = .running := hs
  unfold Poised at h
  cases hp : x.phase with
  | replaying stage =>
    rw [hp] at h
    have hattempt {a : Applying} (hm : a.mode = .replay) (ha : x.site.node.runner.state = a.state) :
        False := by
      rcases a.state_cases with he | he <;> rw [ha, he] at hs
      · cases hs
      · rw [hm] at hs
        cases hs
    cases stage with
    | terminating limit a => exact (hattempt h.2.1 h.2.2.2).elim
    | applying rest n a => exact (hattempt h.2.1 h.2.2.2).elim
    | _ => simp [Phase.Poises, hs] at h
  | replayed r =>
    rw [hp] at h
    rcases r with e | ⟨n⟩ | e | _ <;> simp [Phase.Poises, hs] at h
  | running stage =>
    rw [hp] at h
    cases stage with
    | starting => simp [Phase.Poises, hs] at h
    | _ => trivial
  | ended r => trivial

theorem Poised.halted (h : x.Poised) (hs : x.state = .stopped) : x.Halted := by
  refine ⟨hs, ?_⟩
  have hs : x.site.node.runner.state = .stopped := hs
  unfold Poised at h
  have hattempt {a : Applying} (ha : x.site.node.runner.state = a.state) : False := by
    rcases a.state_cases with he | he <;> rw [ha, he] at hs
    · cases hs
    · exact RunnerState.ofMode_ne_stopped _ hs
  cases hp : x.phase with
  | replaying stage =>
    rw [hp] at h
    cases stage with
    | terminating limit a => exact hattempt h.2.2.2
    | applying rest n a => exact hattempt h.2.2.2
    | _ => simp [Phase.Poises, hs] at h
  | replayed r =>
    rw [hp] at h
    rcases r with e | ⟨n⟩ | e | _
    · simp [Phase.Poises, hs] at h
    · simp [Phase.Poises, hs] at h
    · exact h.1
    · simp [Phase.Poises, hs] at h
  | running stage =>
    rw [hp] at h
    cases stage with
    | starting => simpa [Phase.Poises, hs] using h
    | applying rest a => exact hattempt h.2.2
    | stopping r => trivial
    | _ => simp [Phase.Poises, hs] at h
  | ended r => trivial

end

theorem Poised.step (h : x.Poised) (hs : Step Site.Sways x y) :
    y.Poised ∧ x.state.Moves y.state := by
  cases hs with
  | act hy => exact h.advance hy
  | change hw => exact ⟨h.change hw, .inl hw.state⟩

theorem Poised.reaches (h : x.Poised) (hr : Reaches Site.Sways x y) : y.Poised := by
  induction hr with
  | refl => exact h
  | tail _ hs ih => exact (ih.step hs).1

theorem Begun.step (h : x.Begun) (hx : x.Poised) (hs : Step Site.Sways x y) :
    y.Begun := by
  cases hs with
  | change hw => exact ⟨fun he => h.1 (hw.state.symm.trans he), h.2⟩
  | act hy =>
    obtain ⟨hne, hl⟩ := h
    unfold advance? at hy
    cases hp : x.phase with
    | running stage =>
      rw [hp] at hy
      exact (hx.running hp hy).begun hne
    | ended r =>
      rw [hp] at hy
      cases hy
    | _ =>
      rw [hp] at hl
      exact hl.elim

theorem Begun.reaches (h : x.Begun) (hx : x.Poised) (hr : Reaches Site.Sways x y) :
    y.Begun := by
  induction hr with
  | refl => exact h
  | tail hr hs ih => exact ih.step (hx.reaches hr) hs

theorem Halted.calls (h : x.Halted) (hy : x.advance? = some y) : y.site.calls = x.site.calls := by
  obtain ⟨-, hl⟩ := h
  unfold advance? at hy
  cases hp : x.phase with
  | replaying stage =>
    rw [hp] at hl
    exact hl.elim
  | replayed r =>
    rw [hp] at hy
    cases r <;> cases hy
    rfl
  | running stage =>
    rw [hp] at hl hy
    by_cases ha : x.site.node.runner.aborted = true
    · simp only [Running.step.eq_def, if_pos ha] at hy
      cases hy
      rfl
    · cases stage with
      | starting =>
        simp only [Running.step, if_neg ha, if_pos hl] at hy
        cases hy
        rfl
      | stopping r =>
        simp only [Running.step, if_neg ha] at hy
        cases hy
        rfl
      | _ => exact hl.elim
  | ended r =>
    rw [hp] at hy
    cases hy

theorem Halted.sways (h : x.Halted) (hr : Reaches Site.Sways x y) :
    y.Halted ∧ y.site.calls = x.site.calls := by
  induction hr with
  | refl => exact ⟨h, rfl⟩
  | tail _ hs ih =>
    obtain ⟨hz, hc⟩ := ih
    cases hs with
    | act hy => exact ⟨(hz.advance hy).1, (hz.calls hy).trans hc⟩
    | change hw =>
      obtain ⟨stop, aborted, hr⟩ := hw.runner
      refine ⟨⟨hw.state.trans hz.1, ?_⟩, hw.calls.trans hc⟩
      simp only [hr]
      exact hz.2

def Attends : Lifetime μ κ ε → Lifetime μ κ ε → Prop :=
  Relation.ReflTransGen fun x y => Step Site.Sways x y ∧ y.phase.attempt?.isSome

/-- The attempt began there, and these calls on the executor are what it has made of it since. -/
structure Tallies (x y : Lifetime μ κ ε) (a : Applying) (own : List ExecutorCall) : Prop where
  attends : Attends x y
  begins : x.phase.attempt? = some { command := a.command, mode := a.mode }
  calls : y.site.calls = own ++ x.site.calls
  applies : ∀ call ∈ own, ∃ r, call = .apply a.command a.mode r
  outage : 0 < a.infrastructure ↔ ∃ call ∈ own, call.isOutage = true

theorem attempt_next {a a' : Applying} {s : Site μ κ ε} (hx : x.attempt? = some a)
    (hm : a.step x.site = .next s a') (hy : x.advance? = some y) : y.site = s := by
  unfold attempt? at hx
  split at hx
  · next hp =>
    cases hx
    simp only [advance?, hp, Replaying.step, hm] at hy
    cases hy
    rfl
  · next hp =>
    cases hx
    simp only [advance?, hp, Replaying.step, hm] at hy
    cases hy
    rfl
  · next hp =>
    split at hx
    · cases hx
    · next ha =>
      cases hx
      simp only [advance?, hp, Running.step, if_neg ha, hm] at hy
      cases hy
      rfl
  · cases hx

theorem exists_tallies {a : Applying} (hr : Reaches Site.Sways x y)
    (hx : x.phase.attempt? = none) (ha : y.phase.attempt? = some a) :
    ∃ z own, Reaches Site.Sways x z ∧ Tallies z y a own := by
  induction hr generalizing a with
  | refl => exact absurd (hx.symm.trans ha) (by simp)
  | @tail w y hr hs ih =>
    have hy : y.phase.attempt?.isSome := by rw [ha]; rfl
    cases hs with
    | change hw =>
      obtain ⟨z, own, hz, ht⟩ := ih ha
      exact ⟨z, own, hz, ht.attends.tail ⟨.change hw, hy⟩, ht.begins, hw.calls.trans ht.calls,
        ht.applies, ht.outage⟩
    | act hact =>
      rcases advance?_phase_attempt hact ha with ⟨b, s, hb, hm⟩ | ⟨htransient, hinfra, hstage⟩
      · obtain ⟨z, own, hz, ht⟩ := ih (phase_attempt? hb)
        obtain ⟨more, hcalls, happlies, houtage⟩ := Applying.step_tally hm
        have hcommand := (Applying.step_next hm).command
        have hmode := (Applying.step_next hm).mode
        refine ⟨z, more ++ own, hz, ht.attends.tail ⟨.act hact, hy⟩, ?_, ?_, ?_, ?_⟩
        · rw [hcommand, hmode]
          exact ht.begins
        · rw [attempt_next hb hm hact, hcalls, ht.calls, List.append_assoc]
        · rw [hcommand, hmode]
          intro call hc
          rcases List.mem_append.1 hc with hc | hc
          · exact happlies call hc
          · exact ht.applies call hc
        · rw [houtage, ht.outage]
          simp only [List.mem_append, or_and_right, exists_or]
          exact Or.comm
      · refine ⟨y, [], hr.tail (.act hact), .refl, ?_, rfl, by simp, by simp [hinfra]⟩
        rw [ha]
        obtain ⟨command, mode, transient, infrastructure, stage⟩ := a
        cases htransient
        cases hinfra
        cases hstage
        rfl

/-- The next step of the runner comes upon a failure of the log, and nobody has told it to stop. -/
inductive LogFails (x : Lifetime μ κ ε) (e : Error) : Prop where
  | rewinding {stage : Rewinding} {s : Site μ κ ε} : x.phase = .replaying (.rewinding stage) →
      stage.step x.task x.site = .done s (.error e) → LogFails x e
  | measuring {s : Site μ κ ε} : x.phase = .replaying .measuring →
      x.site.endPosition = (.error e, s) → LogFails x e
  | fetching {limit : Nat} {backlog : List Command} {stage : Polling} {s : Site μ κ ε} :
      x.phase = .replaying (.polling limit backlog stage) →
        stage.step x.task x.site = .done s (.error e) → LogFails x e
  | polling {stage : Polling} {s : Site μ κ ε} : x.phase = .running (.polling stage) →
      x.site.node.runner.stopRequested = false → x.site.node.runner.aborted = false →
        stage.step x.task x.site = .done s (.error e) → LogFails x e

def Fails (x : Lifetime μ κ ε) (e : Error) : Prop :=
  match x.phase with
  | .replayed r => r = .error e
  | .running (.stopping r) => r = .error e
  | .ended _ => ∀ r, x.site.node.runner.result = some r → r = .error e
  | _ => False

theorem LogFails.fails (h : x.LogFails e) :
    ∃ y, x.advance? = some y ∧ y.applied = x.applied ∧ y.Fails e := by
  cases h with
  | @rewinding stage s hp hm =>
    have hi := stage.step_idles x.task (s := x.site)
    rw [hm] at hi
    refine ⟨x.take s (.replayed (.error e)), ?_, congrArg Runner.applied hi.runner, rfl⟩
    simp only [advance?, hp, Replaying.step, hm]
    rfl
  | measuring hp hm =>
    have hn : x.site.endPosition.2.node = x.site.node := rfl
    rw [hm] at hn
    refine ⟨x.take _ (.replayed (.error e)), ?_, congrArg (fun n => n.runner.applied) hn, rfl⟩
    simp only [advance?, hp, Replaying.step, hm]
    rfl
  | @fetching limit backlog stage s hp hm =>
    have hi := stage.step_idles x.task (s := x.site)
    rw [hm] at hi
    refine ⟨x.take s (.replayed (.error e)), ?_, congrArg Runner.applied hi.runner, rfl⟩
    simp only [advance?, hp, Replaying.step, hm]
    rfl
  | @polling stage s hp hstop ha hm =>
    have hi := stage.step_idles x.task (s := x.site)
    rw [hm] at hi
    refine ⟨x.take s (.running (.stopping (.error e))), ?_, congrArg Runner.applied hi.runner, rfl⟩
    simp only [advance?, hp, Running.step, ha, hstop, hm]
    rfl

theorem Fails.step (h : x.Fails e) (hs : Step Site.Sways x y) :
    y.applied = x.applied ∧ y.Fails e := by
  unfold Fails at h
  cases hs with
  | change hw =>
    obtain ⟨stop, aborted, hr⟩ := hw.runner
    refine ⟨hw.applied, ?_⟩
    unfold Fails
    simp only [hr]
    exact h
  | act hy =>
    unfold advance? at hy
    cases hp : x.phase with
    | replayed r =>
      rw [hp] at h hy
      cases h
      cases hy
    | running stage =>
      rw [hp] at h hy
      cases stage with
      | stopping r =>
        cases h
        by_cases ha : x.site.node.runner.aborted = true
        · simp only [Running.step.eq_def, if_pos ha] at hy
          cases hy
          refine ⟨rfl, ?_⟩
          rintro r ⟨⟩
        · simp only [Running.step, if_neg ha] at hy
          cases hy
          refine ⟨rfl, ?_⟩
          rintro r ⟨⟩
          rfl
      | _ => exact h.elim
    | ended r =>
      rw [hp] at hy
      cases hy
    | replaying stage =>
      rw [hp] at h
      exact h.elim

theorem Fails.reaches (h : x.Fails e) (hr : Reaches Site.Sways x y) :
    y.applied = x.applied ∧ y.Fails e := by
  induction hr with
  | refl => exact ⟨rfl, h⟩
  | tail _ hs ih =>
    obtain ⟨ha, hf⟩ := ih.2.step hs
    exact ⟨ha.trans ih.1, hf⟩

/-- A course on which the runner is told to stop only once it is in service, for what it takes to
tell it so is not given out before. -/
def Heeds : Lifetime μ κ ε → Lifetime μ κ ε → Prop :=
  Relation.ReflTransGen fun x y =>
    Step Site.Sways x y ∧ (y.site.node.runner.stopRequested = true → y.phase.Spawned)

theorem Heeds.reaches (h : Heeds x y) : Reaches Site.Sways x y := by
  induction h with
  | refl => exact .refl
  | tail _ hs ih => exact ih.tail hs.1

theorem exists_replayed {steps : Lifetime μ κ ε → Lifetime μ κ ε → Prop}
    (hsteps : ∀ x y, steps x y → Step Site.Sways x y) (hr : Relation.ReflTransGen steps x y)
    (hx : ∃ stage, x.phase = .replaying stage) (hy : y.phase.Spawned) :
    ∃ u outcome, Relation.ReflTransGen steps x u ∧ Relation.ReflTransGen steps u y ∧
      u.phase = .replayed (.ok outcome) := by
  induction hr with
  | refl =>
    obtain ⟨stage, hp⟩ := hx
    rw [hp] at hy
    exact hy.elim
  | @tail w y hr hs ih =>
    have hlater (hw : w.phase.Spawned) : ∃ u outcome, Relation.ReflTransGen steps x u ∧
        Relation.ReflTransGen steps u y ∧ u.phase = .replayed (.ok outcome) := by
      obtain ⟨u, outcome, hu, huw, hp⟩ := ih hw
      exact ⟨u, outcome, hu, huw.tail hs, hp⟩
    cases hsteps w y hs with
    | change hw => exact hlater hy
    | act hact =>
      cases hp : w.phase with
      | replaying stage =>
        unfold advance? at hact
        rw [hp] at hact
        rcases enter_cases hact with ⟨s, stage', -, rfl⟩ | ⟨s, r, -, rfl⟩ <;> exact hy.elim
      | replayed r =>
        cases r with
        | error e =>
          unfold advance? at hact
          rw [hp] at hact
          cases hact
        | ok outcome => exact ⟨w, outcome, hr, .single hs, hp⟩
      | running stage => exact hlater (hp ▸ trivial)
      | ended r => exact hlater (hp ▸ trivial)

structure Completed (x : Lifetime μ κ ε) : Prop where
  phase : ∃ n, x.phase = .replayed (.ok (.completed n))
  told : x.site.calls.head? = some (.finishReplay (.ok ()))

structure Interrupted (x : Lifetime μ κ ε) : Prop where
  phase : x.phase = .replayed (.ok .interrupted)
  told : x.site.node.runner.stopRequested = true

theorem Heeds.not_interrupted (h : Heeds x y) (hx : ∃ stage, x.phase = .replaying stage) :
    ¬ y.Interrupted := by
  rintro ⟨hp, hstop⟩
  cases h with
  | refl =>
    obtain ⟨stage, hx⟩ := hx
    cases hp.symm.trans hx
  | tail _ hs =>
    have hspawned := hs.2 hstop
    rw [hp] at hspawned
    exact hspawned

theorem Poised.released {outcome : ReplayOutcome} (hu : x.Poised)
    (hp : x.phase = .replayed (.ok outcome)) (hr : Reaches Site.Sways x y)
    (hy : y.state = .running) : x.Completed ∨ x.Interrupted := by
  have hpoise := hu
  unfold Poised at hpoise
  rw [hp] at hpoise
  cases outcome with
  | completed n => exact .inl ⟨⟨n, hp⟩, hpoise.2.2⟩
  | interrupted => exact .inr ⟨hp, hpoise.2.2⟩
  | terminated error =>
    have hstopped := ((hu.halted hpoise.2).sways hr).1.1
    exact absurd (hy.symm.trans hstopped) (by decide)

structure Charted (x : Lifetime μ κ ε) : Prop where
  moves {y z : Lifetime μ κ ε} : Reaches Site.Sways x y → Step Site.Sways y z →
    y.state.Moves z.state
  /-- A runner that has begun to run does not start again. -/
  onward {y z : Lifetime μ κ ε} : Reaches Site.Sways x y → y.state = .running →
    Reaches Site.Sways y z → z.state ≠ .starting
  /-- A runner runs only after its replay, which is complete unless it was told to stop before. -/
  released {y : Lifetime μ κ ε} : Reaches Site.Sways x y → y.state = .running →
    ∃ u, Reaches Site.Sways x u ∧ Reaches Site.Sways u y ∧ (u.Completed ∨ u.Interrupted)
  completed {y : Lifetime μ κ ε} : Heeds x y → y.state = .running →
    ∃ u, Heeds x u ∧ Heeds u y ∧ u.Completed
  /-- While a command is attempted, the runner is degraded from its first outage on; once it is
  through, the runner is back where it was. -/
  attempt {y : Lifetime μ κ ε} {a : Applying} : Reaches Site.Sways x y →
    y.phase.attempt? = some a →
      (a.mode = .replay ↔ ∃ stage, y.phase = .replaying stage) ∧
      ∃ z own, Reaches Site.Sways x z ∧ Tallies z y a own ∧
        (a.Waiting → (y.state = .degraded ↔ ∃ call ∈ own, call.isOutage = true)) ∧
        (y.state ≠ .degraded → y.state = .ofMode a.mode) ∧
        (¬ a.Waiting → y.state = .ofMode a.mode)
  /-- Between two commands the state says nothing of outages. -/
  replaying {y : Lifetime μ κ ε} {stage : Replaying} : Reaches Site.Sways x y →
    y.phase = .replaying stage → y.phase.attempt? = none → y.state = .starting
  running {y : Lifetime μ κ ε} {rest : List Command} : Reaches Site.Sways x y →
    (y.phase = .running (.batch rest) ∨ y.phase = .running .idle ∨
      ∃ stage, y.phase = .running (.polling stage)) → y.state = .running
  stopped {y z : Lifetime μ κ ε} : Reaches Site.Sways x y → y.state = .stopped →
    Reaches Site.Sways y z → z.state = .stopped ∧ z.site.calls = y.site.calls
  /-- A runner that is about to stop does so, with its result, unless its task is aborted. -/
  stopping {y : Lifetime μ κ ε} {r : Except Error Unit} : Reaches Site.Sways x y →
    y.phase = .running (.stopping r) → y.site.node.runner.aborted = false →
      ∃ z, y.advance? = some z ∧ z.phase = .ended r ∧ z.site.node.runner.result = some r
  returned {y : Lifetime μ κ ε} {r result : Except Error Unit} : Reaches Site.Sways x y →
    y.phase = .ended r → y.site.node.runner.result = some result → result = r ∧ y.state = .stopped
  /-- A failure of the log is what the replay or the run ends with, and no command is skipped. -/
  failed {y : Lifetime μ κ ε} {e : Error} : Reaches Site.Sways x y → y.LogFails e →
    ∃ z, y.advance? = some z ∧ ∀ w, Reaches Site.Sways z w → w.applied = y.applied ∧ w.Fails e

/-- Whatever becomes of its log, its executor and its clock, a runner that is new keeps to its
course. -/
theorem states_charted {s : Site μ κ ε} {policy : RetryPolicy} {pollTimeout : Nat}
    (h : s.node.runner = { policy, pollTimeout }) (task : Nat) : (ofSite task s).Charted := by
  have hfirst := ofSite_poised h task
  have hpoised {y : Lifetime μ κ ε} (hr : Reaches Site.Sways (ofSite task s) y) : y.Poised :=
    hfirst.reaches hr
  constructor
  case moves => exact fun hr hs => ((hpoised hr).step hs).2
  case onward => exact fun hr hs hz => (((hpoised hr).begun hs).reaches (hpoised hr) hz).1
  case released =>
    intro y hr hs
    -- a runner in service has come from the end of its replay
    obtain ⟨u, outcome, hu, huy, hp⟩ :=
      exists_replayed (fun _ _ hs => hs) hr ⟨_, rfl⟩ ((hpoised hr).begun hs).2.spawned
    exact ⟨u, hu, huy, (hpoised hu).released hp huy hs⟩
  case completed =>
    intro y hr hs
    obtain ⟨u, outcome, hu, huy, hp⟩ :=
      exists_replayed (fun _ _ hs => hs.1) hr ⟨_, rfl⟩
        ((hpoised (Heeds.reaches hr)).begun hs).2.spawned
    have hreleased := (hpoised (Heeds.reaches hu)).released hp (Heeds.reaches huy) hs
    exact ⟨u, hu, huy, hreleased.resolve_right (Heeds.not_interrupted hu ⟨_, rfl⟩)⟩
  case attempt =>
    intro y a hr ha
    obtain ⟨hs, hm⟩ := (hpoised hr).attempt ha
    obtain ⟨z, own, hz, ht⟩ := exists_tallies hr rfl ha
    refine ⟨hm, z, own, hz, ht, ?_, ?_, ?_⟩
    · intro hw
      rw [hs, Applying.state_eq_degraded hw, ht.outage]
    · intro hne
      rw [hs] at hne ⊢
      exact a.state_cases.resolve_left hne
    · intro hw
      rw [hs, Applying.state_eq_ofMode hw]
  case replaying =>
    intro y stage hr hp ha
    have hy := hpoised hr
    unfold Poised at hy
    rw [hp] at hy ha
    cases stage with
    | terminating limit a => cases ha
    | applying rest n a => cases ha
    | _ => exact hy.2
  case running =>
    intro y rest hr hp
    have hy := hpoised hr
    unfold Poised at hy
    rcases hp with hp | hp | ⟨stage, hp⟩ <;> rw [hp] at hy <;> exact hy
  case stopped =>
    intro y z hr hs hz
    obtain ⟨hh, hc⟩ := ((hpoised hr).halted hs).sways hz
    exact ⟨hh.1, hc⟩
  case stopping =>
    intro y r hr hp ha
    refine ⟨y.take ((y.site.setState .stopped).mapRunner fun own =>
      { own with gone := true, result := some r }) (.ended r), ?_, rfl, rfl⟩
    simp only [advance?, hp, Running.step, ha]
    rfl
  case returned =>
    intro y r result hr hp hresult
    have hy := hpoised hr
    unfold Poised at hy
    rw [hp] at hy
    exact hy result hresult
  case failed =>
    intro y e hr hf
    obtain ⟨z, hz, ha, hfails⟩ := hf.fails
    refine ⟨z, hz, fun w hw => ?_⟩
    obtain ⟨haw, hfw⟩ := hfails.reaches hw
    exact ⟨haw.trans ha, hfw⟩

def unreachable (statement : String) : Script :=
  { failures := [(statement, [⟨.infrastructure, "unreachable"⟩])] }

set_option maxRecDepth 10000 in
theorem states_charted_degraded :
    ∃ y z a own, Reaches Site.Sways
        (ofSite 0 (onTape [creation "A"] {} (unreachable "CREATE STREAM A;"))) y ∧
      y.state = .degraded ∧ Tallies z y a own ∧ ∃ call ∈ own, call.isOutage = true := by
  have hrun : (steps? 15
      (ofSite 0 (onTape [creation "A"] {} (unreachable "CREATE STREAM A;")))).map (fun y =>
        decide (y.state = .degraded ∧ (y.phase.attempt?.any (·.alarm.isSome)) = true)) =
      some true := by
    decide +kernel
  obtain ⟨y, hy, hrun⟩ := Option.map_eq_some_iff.1 hrun
  obtain ⟨hs, hpausing⟩ := of_decide_eq_true hrun
  cases ha : y.phase.attempt? with
  | none => simp [ha] at hpausing
  | some a =>
    have hw : a.Waiting := by
      rw [ha] at hpausing
      unfold Applying.Waiting
      cases ht : a.stage <;> simp_all [Applying.alarm]
    obtain ⟨-, z, own, -, ht, hout, -, -⟩ :=
      (states_charted (s := onTape [creation "A"] {} (unreachable "CREATE STREAM A;")) rfl
        0).attempt (steps?_reaches hy) ha
    exact ⟨y, z, a, own, steps?_reaches hy, hs, ht, (hout hw).1 hs⟩

end Lifetime

end StatementLog
