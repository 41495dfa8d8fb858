import StatementLog.Proofs.Engine.Alone
import StatementLog.Proofs.Runner.Order

namespace StatementLog

/-- The log holds what a queue has written, and no request to terminate the cluster. -/
def Written (view : Nat → Option Command) : Prop :=
  ∀ n c, view n = some c →
    Statement.readId c.payload.statement = .ok c.id ∧ c.id.isClusterTerminate = false

theorem Written.ordinary {view : Nat → Option Command} (h : Written view) {n : Nat} {c : Command}
    (hc : view n = some c) : c.Ordinary := by
  intro topics hr
  obtain ⟨hid, ht⟩ := h n c hc
  rw [Statement.readId, hr] at hid
  rw [← Except.ok.inj hid] at ht
  cases ht

namespace Lifetime

variable {μ κ : Type} [CommandLog μ κ] [LawfulLog μ]

theorem unterminated_of_written {ε : Type} {x : Lifetime μ κ ε} (h : Written x.view) :
    x.Unterminated :=
  fun _ _ n _ c hc => (h n c hc).2

def started (x : Lifetime μ κ Engine) : Catalog :=
  x.site.executor.catalog.startQueries

theorem started_finishReplay (e : Engine) :
    (Executor.finishReplay e).2.catalog.startQueries = e.catalog.startQueries :=
  e.catalog.startQueries_startQueries

variable {x y : Lifetime μ κ Engine}

omit [CommandLog μ κ] [LawfulLog μ] in
theorem settle_attempt {a : Applying} (h : a.command.Ordinary) (x : Lifetime μ κ Engine) :
    x.started.settle x.site.broker a.command =
      ((a.attempt x.site).1, (a.attempt x.site).2.executor.catalog.startQueries,
        (a.attempt x.site).2.broker) :=
  Engine.apply_settle h x.site.executor x.site.broker a.mode

def Settles (a : Applying) (policy : RetryPolicy) (r : Except Failure Effect) (status : Status) :
    Prop :=
  (∃ effect, r = .ok effect ∧ status = .success effect.message) ∨
    ∃ f, r = .error f ∧ (a.count f.kind).GivesUp policy f ∧
      status = .error ((a.count f.kind).failureMessage f.message)

theorem settle_cases (h : x.Orderly) (hw : Written x.view) (hy : x.advance? = some y) :
    (y.settled = x.settled ∧ y.site.broker = x.site.broker ∧ y.started = x.started) ∨
    (∃ a status, x.attempt? = some a ∧ a.stage = .trying ∧
      x.view x.settled.length = some a.command ∧ y.settled = (a.command, status) :: x.settled ∧
      Settles a x.site.node.runner.policy (x.started.settle x.site.broker a.command).1 status ∧
      (x.started.settle x.site.broker a.command).2 = (y.started, y.site.broker)) := by
  obtain ⟨s, p, he⟩ := advance?_take hy
  have hnone (hx : x.attempt? = none) : y.settled = x.settled := by
    rw [he, take, hx]
    rfl
  rcases advance?_cases hy with ⟨a, hx, ha⟩ | ⟨n, r, hx, -, hs⟩ | ⟨hx, -, hr⟩
  · obtain ⟨limit, mode, rest, hh⟩ := h.handling (phase_attempt? hx)
    have hset : y.settled = (a.settlement? x.site).toList ++ x.settled := by
      rw [he, settled_take hx]
    by_cases ht : a.stage = .trying
    · have happly := settle_attempt (hw.ordinary hh.view_applied) x
      have hreach : a.reach x.site = (a.attempt x.site).2 := by rw [Applying.reach, ht]
      have hafter : (x.started.settle x.site.broker a.command).2 = (y.started, y.site.broker) := by
        rw [happly, started, ha.executor, ha.broker, hreach]
      have hview : x.view x.settled.length = some a.command := by
        rw [hh.settled_length (by simp [Applying.Waiting, ht]), LawfulLog.offset_eq hh.view_applied]
        exact hh.view_applied
      have hanswer : (x.started.settle x.site.broker a.command).1 = (a.attempt x.site).1 := by
        rw [happly]
      rcases Applying.settlement?_cases ht x.site with
        ⟨effect, hr, hst⟩ | ⟨f, hr, -, hst⟩ | ⟨f, hr, hg, hst⟩
      · rw [hst] at hset
        exact .inr ⟨a, _, hx, ht, hview, hset, .inl ⟨effect, hanswer.trans hr, rfl⟩, hafter⟩
      · rw [hst] at hset
        have hsame := Plan.settle_error (hanswer.trans hr)
        rw [← Catalog.settle, hafter] at hsame
        obtain ⟨hc, hb⟩ := Prod.mk.inj hsame
        exact .inl ⟨hset, hb, hc⟩
      · rw [hst] at hset
        exact .inr ⟨a, _, hx, ht, hview, hset, .inr ⟨f, hanswer.trans hr, hg, rfl⟩, hafter⟩
    · have hreach : a.reach x.site = x.site := Applying.reach_of_ne ht x.site
      rw [Applying.settlement?_of_ne ht] at hset
      refine .inl ⟨hset, ?_, ?_⟩
      · rw [ha.broker, hreach]
      · rw [started, started, ha.executor, hreach]
  · refine .inl ⟨hnone hx, by rw [hs], ?_⟩
    rw [started, hs]
    exact started_finishReplay x.site.executor
  · exact .inl ⟨hnone hx, hr.broker, by rw [started, started, hr.executor]⟩

structure Launched (x : Lifetime μ κ Engine) : Prop where
  phase (stage : Replaying) : x.phase ≠ .replaying stage
  catalog : x.started = x.site.executor.catalog

omit [LawfulLog μ] in
theorem replaying_of_advance {stage : Replaying} (hy : x.advance? = some y)
    (hp : y.phase = .replaying stage) : ∃ stage', x.phase = .replaying stage' := by
  unfold advance? at hy
  split at hy
  · next stage' hx => exact ⟨stage', hx⟩
  · cases hy
    cases hp
  · rcases enter_cases hy with ⟨s, stage', -, rfl⟩ | ⟨s, r, -, rfl⟩ <;> cases hp
  · cases hy

theorem Engine.started_apply {command : Command} (h : command.Ordinary) {e : Engine} (b : Broker)
    (he : e.catalog.startQueries = e.catalog) :
    (e.apply b command .live).2.1.catalog.startQueries = (e.apply b command .live).2.1.catalog := by
  have hs := e.apply_settle h b .live
  have hp := e.apply_plan h b .live
  rw [he, Catalog.settle, ← hp] at hs
  exact (congrArg (·.2.1) hs).symm

theorem live_of_launched {a : Applying} (h : x.Orderly) (hx : x.attempt? = some a)
    (hp : ∀ stage, x.phase ≠ .replaying stage) : a.mode = .live := by
  have h := h.2
  unfold attempt? at hx
  split at hx
  · next hq => exact absurd hq (hp _)
  · next hq => exact absurd hq (hp _)
  · next hq =>
    split at hx <;> cases hx
    rw [hq] at h
    obtain ⟨limit, h, -⟩ := h
    exact h.mode
  · cases hx

theorem launched_advance (h : x.Orderly) (hw : Written x.view)
    (hl : (∃ r, .finishReplay r ∈ x.site.calls) → x.Launched) (hy : x.advance? = some y) :
    (∃ r, .finishReplay r ∈ y.site.calls) → y.Launched := by
  rintro ⟨r, hr⟩
  have hphase (hp : ∀ stage, x.phase ≠ .replaying stage) (stage : Replaying) :
      y.phase ≠ .replaying stage := by
    intro hs
    obtain ⟨stage', hs⟩ := replaying_of_advance hy hs
    exact hp stage' hs
  rcases advance?_cases hy with ⟨a, hx, ha⟩ | ⟨n, r', -, hp, hs⟩ | ⟨-, -, hrest⟩
  · obtain ⟨limit, mode, rest, hh⟩ := h.handling (phase_attempt? hx)
    rw [ha.calls] at hr
    by_cases ht : a.stage = .trying
    · rw [Applying.reach, ht] at hr
      have hr : .finishReplay r ∈ x.site.calls := by
        rcases List.mem_cons.1 hr with he | hr
        · cases he
        · exact hr
      have hl := hl ⟨r, hr⟩
      refine ⟨hphase hl.phase, ?_⟩
      have hlive := live_of_launched h hx hl.phase
      rw [started, ha.executor, Applying.reach, ht]
      have he := Engine.started_apply (hw.ordinary hh.view_applied) x.site.broker hl.catalog
      rw [← hlive] at he
      exact he
    · have hreach : a.reach x.site = x.site := Applying.reach_of_ne ht x.site
      rw [hreach] at hr
      have hl := hl ⟨r, hr⟩
      refine ⟨hphase hl.phase, ?_⟩
      rw [started, ha.executor, hreach]
      exact hl.catalog
  · obtain ⟨_, -, -, hq⟩ := advance?_finishing hp hy
    refine ⟨?_, ?_⟩
    · rcases hq with ⟨f, -, hq⟩ | ⟨-, hq⟩
      · simp [hq]
      · simp [hq]
    · rw [started, hs]
      exact x.site.executor.catalog.startQueries_startQueries
  · rw [hrest.calls] at hr
    have hl := hl ⟨r, hr⟩
    refine ⟨hphase hl.phase, ?_⟩
    rw [started, hrest.executor]
    exact hl.catalog

end Lifetime

end StatementLog
