import StatementLog.Proofs.Runner.Halt
import StatementLog.Proofs.Runner.Termination

namespace StatementLog

variable {μ κ ε : Type}

def ExecutorCall.isOutage : ExecutorCall → Bool
  | .apply _ _ (.error f) => f.kind = .infrastructure
  | _ => false

inductive RunnerState.Leads : RunnerState → RunnerState → Prop where
  | run : Leads .starting .running
  | degrade (mode : Mode) : Leads (.ofMode mode) .degraded
  | resume (mode : Mode) : Leads .degraded (.ofMode mode)
  | stop {state : RunnerState} : state ≠ .stopped → Leads state .stopped

def RunnerState.Moves (state state' : RunnerState) : Prop :=
  state' = state ∨ state.Leads state'

theorem RunnerState.moves_degraded {state : RunnerState} {mode : Mode}
    (h : state = .degraded ∨ state = .ofMode mode) : state.Moves .degraded := by
  rcases h with rfl | rfl
  · exact .inl rfl
  · exact .inr (.degrade mode)

theorem RunnerState.moves_ofMode {state : RunnerState} {mode : Mode}
    (h : state = .degraded ∨ state = .ofMode mode) : state.Moves (.ofMode mode) := by
  rcases h with rfl | rfl
  · exact .inr (.resume mode)
  · exact .inl rfl

theorem Site.setState_runner (s : Site μ κ ε) (state : RunnerState) :
    (s.setState state).node.runner = { s.node.runner with state } :=
  rfl

namespace Applying

/-- The state that goes with the attempt, which depends on whether the broker has been away since
the attempt began. -/
def state (a : Applying) : RunnerState :=
  match a.stage with
  | .announcing | .trying | .pausing _ =>
    if 0 < a.infrastructure then .degraded else .ofMode a.mode
  | .reporting _ _ | .advancing _ => .ofMode a.mode

theorem state_cases (a : Applying) : a.state = .degraded ∨ a.state = .ofMode a.mode := by
  by_cases hi : 0 < a.infrastructure <;> cases ht : a.stage <;> simp [state, ht, hi]

theorem state_eq_degraded {a : Applying} (h : a.Waiting) :
    a.state = .degraded ↔ 0 < a.infrastructure := by
  unfold Waiting at h
  by_cases hi : 0 < a.infrastructure <;> cases ht : a.stage <;> cases hm : a.mode <;>
    simp_all [state, RunnerState.ofMode]

theorem state_eq_ofMode {a : Applying} (h : ¬ a.Waiting) : a.state = .ofMode a.mode := by
  unfold Waiting at h
  cases ht : a.stage <;> simp_all [state]

variable {a a' : Applying} {s s' : Site μ κ ε}

theorem afterFailure_pauses {f : Failure} (h : ¬ a.GivesUp s.node.runner.policy f) :
    ∃ wake, a.afterFailure s f = .next
      (s.setState (if f.kind = .infrastructure then .degraded else s.node.runner.state))
        { a with stage := .pausing wake } := by
  unfold GivesUp at h
  unfold afterFailure
  cases hk : f.kind with
  | fatal => exact absurd (.inl hk) h
  | infrastructure => exact ⟨_, rfl⟩
  | transient =>
    have hretries : ¬ s.node.runner.policy.maxRetries < a.transient := fun hlt => h (.inr ⟨hk, hlt⟩)
    refine ⟨s.now + s.node.runner.policy.transient.delay a.transient, ?_⟩
    simp only [RetryPolicy.decide, attempts, gt_iff_lt, hretries, if_false]
    rfl

variable [Executor ε]

theorem step_state (hs : s.node.runner.state = a.state) (h : a.step s = .next s' a') :
    s'.node.runner = { s.node.runner with state := a'.state } ∧ a.state.Moves a'.state := by
  cases ht : a.stage with
  | trying =>
    have hn : (a.attempt s).2.node = s.node := rfl
    rw [step, ht] at h
    generalize a.attempt s = answer at h hn
    obtain ⟨r, s₁⟩ := answer
    cases r with
    | ok effect =>
      cases h
      rw [Site.setState_runner, hn]
      exact ⟨rfl, RunnerState.moves_ofMode a.state_cases⟩
    | error f =>
      simp only at h hn
      by_cases hg : (a.count f.kind).GivesUp s₁.node.runner.policy f
      · rcases (a.count f.kind).afterFailure_cases s₁ f with ⟨hn', -⟩ | ⟨-, hf⟩
        · exact absurd hg hn'
        · cases hf.symm.trans h
          rw [Site.setState_runner, hn, count_mode]
          refine ⟨?_, ?_⟩
          · simp only [state]
          · simp only [state]
            exact RunnerState.moves_ofMode a.state_cases
      · obtain ⟨wake, hf⟩ := afterFailure_pauses hg
        cases hf.symm.trans h
        rw [Site.setState_runner, hn, hs]
        -- a broker that is away degrades the runner, a transient failure leaves its state
        cases hk : f.kind with
        | fatal => exact absurd (.inl hk) hg
        | infrastructure =>
          have hstate : ({ a.count .infrastructure with stage := .pausing wake } : Applying).state =
              .degraded := by
            simp [state, count]
          rw [hstate]
          exact ⟨rfl, RunnerState.moves_degraded a.state_cases⟩
        | transient =>
          have hstate : ({ a.count .transient with stage := .pausing wake } : Applying).state =
              a.state := by
            simp only [state, count, ht]
          rw [hstate]
          exact ⟨rfl, .inl rfl⟩
  | announcing =>
    rw [step, ht] at h
    cases h
    have hstate : ({ a with stage := .trying } : Applying).state = a.state := by
      simp only [state, ht]
    rw [hstate, ← hs]
    exact ⟨rfl, .inl rfl⟩
  | pausing wake =>
    rcases pausing_cases ht s with ⟨-, he⟩ | ⟨-, -, he⟩ | ⟨-, -, he⟩ <;> cases he.symm.trans h
    have hstate : ({ a with stage := .trying } : Applying).state = a.state := by
      simp only [state, ht]
    rw [hstate, ← hs]
    exact ⟨rfl, .inl rfl⟩
  | reporting status conclusion =>
    rw [step, ht] at h
    cases h
    have hstate : ({ a with stage := .advancing conclusion } : Applying).state = a.state := by
      simp only [state, ht]
    rw [hstate, ← hs]
    exact ⟨rfl, .inl rfl⟩
  | advancing conclusion =>
    rw [step, ht] at h
    cases h

theorem step_tally (h : a.step s = .next s' a') :
    ∃ own, s'.calls = own ++ s.calls ∧ (∀ call ∈ own, ∃ r, call = .apply a.command a.mode r) ∧
      (0 < a'.infrastructure ↔ 0 < a.infrastructure ∨ ∃ call ∈ own, call.isOutage = true) := by
  have hidle (hc : s'.calls = s.calls) (hi : a'.infrastructure = a.infrastructure) :
      ∃ own, s'.calls = own ++ s.calls ∧ (∀ call ∈ own, ∃ r, call = .apply a.command a.mode r) ∧
        (0 < a'.infrastructure ↔ 0 < a.infrastructure ∨ ∃ call ∈ own, call.isOutage = true) :=
    ⟨[], hc, by simp, by simp [hi]⟩
  have hcalls : (a.attempt s).2.calls = .apply a.command a.mode (a.attempt s).1 :: s.calls := rfl
  cases ht : a.stage with
  | trying =>
    rcases trying_cases ht s with ⟨effect, hr, he⟩ | ⟨f, state, wake, hr, -, he⟩ | ⟨f, hr, -, he⟩
    all_goals
      cases he.symm.trans h
      refine ⟨[.apply a.command a.mode (a.attempt s).1], hcalls, by simp, ?_⟩
      rw [hr]
    · simp [ExecutorCall.isOutage]
    · cases hk : f.kind <;> simp [ExecutorCall.isOutage, count, hk]
    · cases hk : f.kind <;> simp [ExecutorCall.isOutage, count, hk]
  | announcing =>
    rw [step, ht] at h
    cases h
    exact hidle rfl rfl
  | pausing wake =>
    rcases pausing_cases ht s with ⟨-, he⟩ | ⟨-, -, he⟩ | ⟨-, -, he⟩ <;> cases he.symm.trans h
    exact hidle rfl rfl
  | reporting status conclusion =>
    rw [step, ht] at h
    cases h
    exact hidle rfl rfl
  | advancing conclusion =>
    rw [step, ht] at h
    cases h

end Applying

structure Site.Idles (s s' : Site μ κ ε) : Prop where
  runner : s'.node.runner = s.node.runner
  calls : s'.calls = s.calls

section

variable [CommandLog μ κ] {s : Site μ κ ε}

theorem Polling.step_idles (stage : Polling) (task : Nat) : (stage.step task s).Holds s.Idles := by
  cases stage with
  | arriving timeout => exact ⟨rfl, rfl⟩
  | queued timeout =>
    rw [step]
    split
    · exact ⟨rfl, rfl⟩
    · trivial
  | enlisting deadline => exact ⟨rfl, rfl⟩
  | checking deadline epoch =>
    rw [step]
    split <;> exact ⟨rfl, rfl⟩
  | reading deadline epoch =>
    rw [step]
    split
    · exact ⟨rfl, rfl⟩
    · split
      · exact ⟨rfl, rfl⟩
      · simp only
        split <;> exact ⟨rfl, rfl⟩
    · exact ⟨rfl, rfl⟩
  | waiting deadline epoch look =>
    rw [step.eq_def]
    simp only
    split
    · exact ⟨rfl, rfl⟩
    · split
      · split
        · exact ⟨rfl, rfl⟩
        · trivial
      · split
        · exact ⟨rfl, rfl⟩
        · trivial

theorem Rewinding.step_idles (stage : Rewinding) (task : Nat) :
    (stage.step task s).Holds s.Idles := by
  cases stage with
  | arriving =>
    rw [step]
    split <;> exact ⟨rfl, rfl⟩
  | queued =>
    rw [step]
    split
    · exact ⟨rfl, rfl⟩
    · trivial

end

def Phase.Poises (r : Runner) (calls : List ExecutorCall) : Phase → Prop
  | .replaying (.terminating _ a) | .replaying (.applying _ _ a) =>
    r.terminated = false ∧ a.mode = .replay ∧ a.Conclusive ∧ r.state = a.state
  | .replaying _ => r.terminated = false ∧ r.state = .starting
  | .replayed (.error _) => r.state = .starting
  | .replayed (.ok (.completed _)) =>
    r.terminated = false ∧ r.state = .starting ∧ calls.head? = some (.finishReplay (.ok ()))
  | .replayed (.ok (.terminated _)) => r.terminated = true ∧ r.state = .stopped
  | .replayed (.ok .interrupted) =>
    r.terminated = false ∧ (r.state = .degraded ∨ r.state = .starting) ∧ r.stopRequested = true
  | .running .starting =>
    (r.terminated = true ∧ r.state = .stopped) ∨
      r.terminated = false ∧ (r.state = .degraded ∨ r.state = .starting)
  | .running (.applying _ a) => a.mode = .live ∧ a.Conclusive ∧ r.state = a.state
  | .running (.stopping _) => r.state ≠ .starting
  | .running _ => r.state = .running
  | .ended result => ∀ own, r.result = some own → own = result ∧ r.state = .stopped

def Phase.Begun : Phase → Prop
  | .running .starting => False
  | .running _ | .ended _ => True
  | _ => False

namespace Lifetime

def state (x : Lifetime μ κ ε) : RunnerState :=
  x.site.node.runner.state

def Poised (x : Lifetime μ κ ε) : Prop :=
  x.phase.Poises x.site.node.runner x.site.calls

def Begun (x : Lifetime μ κ ε) : Prop :=
  x.state ≠ .starting ∧ x.phase.Begun

variable [CommandLog μ κ] [Executor ε] {x y : Lifetime μ κ ε}

omit [CommandLog μ κ] in
theorem attempt_poised {a : Applying} {π α : Type} {wrap : Applying → π}
    {finish : Site μ κ ε → Conclusion → Move (Site μ κ ε) π α} {next : π → Phase} {done : α → Phase}
    (hc : a.Conclusive) (hs : x.state = a.state)
    (hy : x.enter ((a.step x.site).within wrap finish) next done = some y) :
    (∃ a', y.phase = next (wrap a') ∧ a'.mode = a.mode ∧ a'.Conclusive ∧
      y.site.node.runner = { x.site.node.runner with state := a'.state } ∧
      x.state.Moves y.state) ∨
    (x.site.node.runner.stopRequested = true ∧
      x.enter (finish x.site .interrupted) next done = some y) ∨
    ∃ s c, c ≠ .interrupted ∧ x.enter (finish s c) next done = some y ∧
      x.state = .ofMode a.mode ∧
      ∃ applied, s.node.runner = { x.site.node.runner with applied } := by
  rcases enter_within_cases hy with ⟨s, a', hm, rfl⟩ | ⟨s, c, hm, hy⟩
  · obtain ⟨hr, hmoves⟩ := Applying.step_state hs hm
    refine .inl ⟨a', rfl, (Applying.step_next hm).mode, hc.next hm, hr, ?_⟩
    show x.state.Moves s.node.runner.state
    rw [hr, hs]
    exact hmoves
  · rcases Applying.step_done hm with ⟨wake, -, hstop, rfl, rfl⟩ | ⟨ht, rfl⟩
    · exact .inr (.inl ⟨hstop, hy⟩)
    · refine .inr (.inr ⟨_, c, ?_, hy, ?_, _, rfl⟩)
      · unfold Applying.Conclusive at hc
        rwa [ht] at hc
      · rw [hs, Applying.state, ht]

omit [CommandLog μ κ] in
theorem poised_of_idles {s : Site μ κ ε} {p : Phase} (hi : x.site.Idles s)
    (hp : p.Poises x.site.node.runner s.calls) :
    (x.take s p).Poised ∧ x.state.Moves (x.take s p).state := by
  show p.Poises s.node.runner s.calls ∧ x.state.Moves s.node.runner.state
  rw [hi.runner]
  exact ⟨hp, .inl rfl⟩

theorem terminating_poised {limit : Nat} {a : Applying} (h : x.Poised)
    (hp : x.phase = .replaying (.terminating limit a))
    (hy : x.enter ((Replaying.terminating limit a).step x.task x.site) .replaying .replayed =
      some y) : y.Poised ∧ x.state.Moves y.state := by
  unfold Poised at h
  rw [hp] at h
  obtain ⟨ht, hmode, hc, hs⟩ := h
  have hcases := a.state_cases
  rw [← hs, hmode] at hcases
  rcases attempt_poised hc hs hy with ⟨a', hp', hm', hc', hr, hmoves⟩ | ⟨hstop, hy⟩ |
    ⟨s, c, hne, hy, hstate, applied, hr⟩
  · refine ⟨?_, hmoves⟩
    rw [Poised, hp', hr]
    exact ⟨ht, hm'.trans hmode, hc', rfl⟩
  · cases hy
    exact ⟨⟨ht, hcases, hstop⟩, .inl rfl⟩
  · have hstopped : x.state.Moves .stopped :=
      .inr (.stop (hstate ▸ RunnerState.ofMode_ne_stopped _))
    cases c with
    | interrupted => exact absurd rfl hne
    | _ =>
      cases hy
      exact ⟨⟨rfl, rfl⟩, hstopped⟩

theorem applying_poised {rest : List Command} {n : Nat} {a : Applying} (h : x.Poised)
    (hp : x.phase = .replaying (.applying rest n a))
    (hy : x.enter ((Replaying.applying rest n a).step x.task x.site) .replaying .replayed =
      some y) : y.Poised ∧ x.state.Moves y.state := by
  unfold Poised at h
  rw [hp] at h
  obtain ⟨ht, hmode, hc, hs⟩ := h
  have hcases := a.state_cases
  rw [← hs, hmode] at hcases
  rcases attempt_poised hc hs hy with ⟨a', hp', hm', hc', hr, hmoves⟩ | ⟨hstop, hy⟩ |
    ⟨s, c, hne, hy, hstate, applied, hr⟩
  · refine ⟨?_, hmoves⟩
    rw [Poised, hp', hr]
    exact ⟨ht, hm'.trans hmode, hc', rfl⟩
  · cases hy
    exact ⟨⟨ht, hcases, hstop⟩, .inl rfl⟩
  · have hkeeps : s.node.runner.terminated = false ∧ s.node.runner.state = .starting ∧
        x.state.Moves s.node.runner.state := by
      rw [hr]
      exact ⟨ht, hstate.trans (by rw [hmode]; rfl), .inl rfl⟩
    cases c with
    | interrupted => exact absurd rfl hne
    | _ =>
      cases hy
      exact ⟨⟨hkeeps.1, hkeeps.2.1⟩, hkeeps.2.2⟩

theorem Poised.replaying {stage : Replaying} (h : x.Poised) (hp : x.phase = .replaying stage)
    (hy : x.enter (stage.step x.task x.site) .replaying .replayed = some y) :
    y.Poised ∧ x.state.Moves y.state := by
  have hpoises := h
  unfold Poised at hpoises
  rw [hp] at hpoises
  cases stage with
  | starting =>
    obtain ⟨ht, hs⟩ := hpoises
    cases hy
    exact ⟨⟨ht, rfl⟩, .inl hs.symm⟩
  | rewinding stage =>
    have hi := stage.step_idles x.task (s := x.site)
    rcases enter_within_cases hy with ⟨s, stage', hm, rfl⟩ | ⟨s, r, hm, hy⟩
    · rw [hm] at hi
      exact poised_of_idles hi hpoises
    · rw [hm] at hi
      cases r <;> cases hy
      · exact poised_of_idles hi hpoises.2
      · exact poised_of_idles hi hpoises
  | measuring =>
    rcases he : x.site.endPosition with ⟨r, s⟩
    have hi : x.site.Idles x.site.endPosition.2 := ⟨rfl, rfl⟩
    rw [he] at hi
    rw [Replaying.step, he] at hy
    cases r <;> cases hy
    · exact poised_of_idles hi hpoises.2
    · exact poised_of_idles hi hpoises
  | fetching limit backlog =>
    rw [Replaying.step] at hy
    split at hy
    · split at hy <;> cases hy
      · next hstop => exact poised_of_idles ⟨rfl, rfl⟩ ⟨hpoises.1, .inr hpoises.2, hstop⟩
      · exact poised_of_idles ⟨rfl, rfl⟩ hpoises
    · cases hy
      exact poised_of_idles ⟨rfl, rfl⟩ hpoises
  | polling limit backlog stage =>
    have hi := stage.step_idles x.task (s := x.site)
    rcases enter_within_cases hy with ⟨s, stage', hm, rfl⟩ | ⟨s, r, hm, hy⟩
    · rw [hm] at hi
      exact poised_of_idles hi hpoises
    · rw [hm] at hi
      cases r <;> cases hy
      · exact poised_of_idles hi hpoises.2
      · show Phase.Poises { s.node.runner with pending := _ } s.calls _ ∧
          x.state.Moves s.node.runner.state
        rw [hi.runner]
        exact ⟨hpoises, .inl rfl⟩
  | sorting limit backlog =>
    rw [Replaying.step] at hy
    split at hy <;> cases hy
    · exact ⟨⟨hpoises.1, rfl, trivial, hpoises.2⟩, .inl rfl⟩
    · exact ⟨hpoises, .inl rfl⟩
  | resuming rest n =>
    cases rest <;> cases hy
    · exact ⟨hpoises, .inl rfl⟩
    · exact ⟨⟨hpoises.1, rfl, trivial, hpoises.2⟩, .inl rfl⟩
  | terminating limit a => exact terminating_poised h hp hy
  | applying rest n a => exact applying_poised h hp hy
  | finishing n =>
    rcases he : Executor.finishReplay x.site.executor with ⟨r, e⟩
    rw [Replaying.step, he] at hy
    cases r <;> cases hy
    · exact ⟨hpoises.2, .inl rfl⟩
    · exact ⟨⟨hpoises.1, hpoises.2, rfl⟩, .inl rfl⟩

structure Maintains (x y : Lifetime μ κ ε) : Prop where
  poised : y.Poised
  moves : x.state.Moves y.state
  begun : x.state ≠ .starting → y.Begun

omit [CommandLog μ κ] in
theorem maintains_take {s : Site μ κ ε} {p : Phase} (hs : s.node.runner.state = x.state)
    (hp : p.Poises s.node.runner s.calls) (hb : p.Begun) : x.Maintains (x.take s p) :=
  ⟨hp, .inl hs, fun hne => ⟨fun he => hne (hs.symm.trans he), hb⟩⟩

omit [CommandLog μ κ] in
theorem maintains_stopping {s : Site μ κ ε} (hx : x.state = .running)
    (hs : s.node.runner.state = x.state) (r : Except Error Unit) :
    x.Maintains (x.take s (.running (.stopping r))) := by
  refine maintains_take hs ?_ trivial
  show s.node.runner.state ≠ .starting
  rw [hs, hx]
  decide

theorem starting_maintains (h : x.Poised) (hp : x.phase = .running .starting)
    (ha : ¬ x.site.node.runner.aborted = true)
    (hy : x.enter (Running.starting.step x.task x.site) .running .ended = some y) :
    x.Maintains y := by
  unfold Poised at h
  rw [hp] at h
  rw [Running.step, if_neg ha] at hy
  split at hy
  · next ht =>
    cases hy
    have hs : x.state = .stopped := by
      rcases h with ⟨-, hs⟩ | ⟨hf, -⟩
      · exact hs
      · exact absurd (hf.symm.trans ht) Bool.false_ne_true
    refine maintains_take rfl ?_ trivial
    show x.state ≠ .starting
    rw [hs]
    decide
  · next ht =>
    cases hy
    refine ⟨rfl, ?_, fun _ => ⟨RunnerState.noConfusion, trivial⟩⟩
    rcases h with ⟨hf, -⟩ | ⟨-, hs | hs⟩
    · exact absurd hf ht
    · rw [state, hs]
      exact .inr (.resume .live)
    · rw [state, hs]
      exact .inr .run

theorem polling_maintains {stage : Polling} (h : x.state = .running)
    (ha : ¬ x.site.node.runner.aborted = true)
    (hy : x.enter ((Running.polling stage).step x.task x.site) .running .ended = some y) :
    x.Maintains y := by
  rw [Running.step, if_neg ha] at hy
  split at hy
  · cases hy
    refine maintains_stopping h ?_ _
    rfl
  · have hi := stage.step_idles x.task (s := x.site)
    rcases enter_within_cases hy with ⟨s, stage', hm, rfl⟩ | ⟨s, r, hm, hy⟩
    · rw [hm] at hi
      have hs : s.node.runner.state = x.state := congrArg Runner.state hi.runner
      exact maintains_take hs (hs.trans h) trivial
    · rw [hm] at hi
      have hs : s.node.runner.state = x.state := congrArg Runner.state hi.runner
      cases r <;> cases hy
      · exact maintains_stopping h hs _
      · exact maintains_take hs (hs.trans h) trivial

theorem applying_maintains {rest : List Command} {a : Applying} (h : x.Poised)
    (hp : x.phase = .running (.applying rest a)) (ha : ¬ x.site.node.runner.aborted = true)
    (hy : x.enter ((Running.applying rest a).step x.task x.site) .running .ended = some y) :
    x.Maintains y := by
  unfold Poised at h
  rw [hp] at h
  obtain ⟨hmode, hc, hs⟩ := h
  have hne {b : Applying} (hb : b.mode = .live) : b.state ≠ .starting := by
    rcases b.state_cases with he | he <;> rw [he]
    · decide
    · rw [hb]
      decide
  rw [Running.step, if_neg ha] at hy
  rcases attempt_poised hc hs hy with ⟨a', hp', hm', hc', hr, hmoves⟩ | ⟨hstop, hy⟩ |
    ⟨s, c, hnot, hy, hstate, applied, hr⟩
  · have hlive := hm'.trans hmode
    refine ⟨?_, hmoves, fun _ => ⟨?_, ?_⟩⟩
    · rw [Poised, hp', hr]
      exact ⟨hlive, hc', rfl⟩
    · rw [state, hr]
      exact hne hlive
    · rw [hp']
      trivial
  · cases hy
    refine maintains_take rfl ?_ trivial
    show x.site.node.runner.state ≠ .starting
    rw [hs]
    exact hne hmode
  · have hrunning : x.state = .running := by
      rw [hstate, hmode]
      rfl
    have hsame : s.node.runner.state = x.state := by
      rw [hr]
      rfl
    cases c with
    | interrupted => exact absurd rfl hnot
    | applied effect =>
      simp only at hy
      split at hy <;> cases hy
      · refine maintains_stopping hrunning ?_ _
        exact hsame
      · exact maintains_take hsame (hsame.trans hrunning) trivial
    | failed f =>
      cases hy
      exact maintains_take hsame (hsame.trans hrunning) trivial

theorem Poised.running {stage : Running} (h : x.Poised) (hp : x.phase = .running stage)
    (hy : x.enter (stage.step x.task x.site) .running .ended = some y) : x.Maintains y := by
  have hpoises := h
  unfold Poised at hpoises
  rw [hp] at hpoises
  by_cases ha : x.site.node.runner.aborted = true
  · rw [Running.step.eq_def, if_pos ha] at hy
    cases hy
    refine maintains_take rfl ?_ trivial
    rintro own ⟨⟩
  · cases stage with
    | starting => exact starting_maintains h hp ha hy
    | idle =>
      rw [Running.step, if_neg ha] at hy
      split at hy
      · cases hy
        exact maintains_stopping hpoises rfl _
      · split at hy <;> cases hy
        · exact maintains_take rfl hpoises trivial
        · exact maintains_take rfl hpoises trivial
    | polling stage => exact polling_maintains hpoises ha hy
    | batch rest =>
      cases rest with
      | nil =>
        rw [Running.step, if_neg ha] at hy
        cases hy
        exact maintains_take rfl hpoises trivial
      | cons c rest =>
        rw [Running.step, if_neg ha] at hy
        split at hy <;> cases hy
        · exact maintains_take rfl hpoises trivial
        · exact maintains_take rfl ⟨rfl, trivial, hpoises⟩ trivial
    | applying rest a => exact applying_maintains h hp ha hy
    | stopping r =>
      rw [Running.step, if_neg ha] at hy
      cases hy
      refine ⟨?_, ?_, fun _ => ⟨RunnerState.noConfusion, trivial⟩⟩
      · rintro own ⟨⟩
        exact ⟨rfl, rfl⟩
      · show x.state.Moves .stopped
        by_cases hs : x.state = .stopped
        · rw [hs]
          exact .inl rfl
        · exact .inr (.stop hs)

theorem Poised.advance (h : x.Poised) (hy : x.advance? = some y) :
    y.Poised ∧ x.state.Moves y.state := by
  unfold advance? at hy
  cases hp : x.phase with
  | replaying stage =>
    rw [hp] at hy
    exact h.replaying hp hy
  | replayed r =>
    unfold Poised at h
    rw [hp] at h hy
    cases r with
    | error e => cases hy
    | ok outcome =>
      cases hy
      refine ⟨?_, .inl rfl⟩
      cases outcome with
      | completed n => exact .inr ⟨h.1, .inr h.2.1⟩
      | terminated error => exact .inl h
      | interrupted => exact .inr ⟨h.1, h.2.1⟩
  | running stage =>
    rw [hp] at hy
    exact ⟨(h.running hp hy).poised, (h.running hp hy).moves⟩
  | ended r =>
    rw [hp] at hy
    cases hy

end Lifetime

end StatementLog
