import StatementLog.Proofs.Engine.Change
import StatementLog.Proofs.Replay.Serving
import StatementLog.Proofs.Runner.Termination

namespace StatementLog

open Std

namespace Catalog

variable {c d : Catalog} {command : Command} {statement : Statement}

def Runs (c : Catalog) : Prop :=
  ∀ (id : String) (q : Query), c.queries[id]? = some q → q.state ≠ .restored

theorem runs_startQueries (c : Catalog) : c.startQueries.Runs := by
  intro id q hq
  rw [startQueries, ExtTreeMap.getElem?_map] at hq
  obtain ⟨p, -, rfl⟩ := Option.map_eq_some_iff.1 hq
  exact QueryState.noConfusion

theorem Runs.of_subset (h : c.Runs)
    (hd : ∀ (id : String) (q : Query), d.queries[id]? = some q → c.queries[id]? = some q) :
    d.Runs :=
  fun id q hq => h id q (hd id q hq)

theorem Runs.addQuery (h : c.Runs) {q : Query} (hq : q.state ≠ .restored) :
    (c.addQuery q).Runs := by
  intro id p hp
  rw [Catalog.addQuery, ExtTreeMap.getElem?_insert] at hp
  split at hp
  · cases hp
    exact hq
  · exact h id p hp

theorem Change.runs (hc : Change command .live c statement d) (h : c.Runs) : d.Runs := by
  cases hc with
  | skip => exact h
  | createSource _ => exact h
  | createAsSelect _ _ => exact Runs.addQuery h QueryState.noConfusion
  | insertInto _ _ _ => exact h.addQuery QueryState.noConfusion
  | dropSource _ _ _ => exact h
  | terminateQuery _ =>
    refine h.of_subset fun id q hq => ?_
    rw [ExtTreeMap.getElem?_erase] at hq
    split at hq
    · cases hq
    · exact hq
  | terminateCluster =>
    intro id q hq
    simp at hq

end Catalog

namespace Engine

structure Runs (e : Engine) : Prop where
  catalog : e.catalog.Runs
  snapshot : e.snapshot.Runs

theorem runs_publish {c : Catalog} (h : c.Runs) (e : Engine) : (e.publish c).Runs :=
  ⟨h, h⟩

theorem runs_finishReplay (e : Engine) : e.finishReplay.Runs :=
  runs_publish e.catalog.runs_startQueries e

theorem Runs.apply {e : Engine} (h : e.Runs) (b : Broker) (command : Command) :
    (e.apply b command .live).2.1.Runs := by
  rcases e.apply_change b command .live with he | ⟨_, d, -, -, hc, he⟩
  · rw [he]
    exact h
  · rw [he]
    exact runs_publish (c := d.recordApplied command) (hc.runs h.catalog) e

end Engine

namespace Lifetime

variable {μ κ : Type} [CommandLog μ κ] [LawfulLog μ] {x y : Lifetime μ κ Engine} {limit : Nat}

structure Prepared (x : Lifetime μ κ Engine) (limit : Nat) : Prop extends x.Cleared limit where
  past (stage : Replaying) : x.phase ≠ .replaying stage
  through : limit ≤ x.applied
  told : .finishReplay (.ok ()) ∈ x.site.calls
  runs : x.site.executor.Runs

theorem Supply.through {ε : Type} {x : Lifetime μ κ ε} (h : x.Supply limit .live []) :
    limit ≤ x.applied := by
  have henough := h.enough
  have hsegment := h.segment
  rw [h.position, List.nil_append] at henough
  rw [List.nil_append] at hsegment
  cases hp : x.pending with
  | nil =>
    rw [hp] at henough
    exact henough
  | cons c cs =>
    have hc := h.beyond c (hp ▸ List.mem_cons_self ..)
    rw [hp] at hsegment
    rw [← LawfulLog.offset_eq hsegment.1]
    exact hc

theorem advance?_calls {ε : Type} [Executor ε] {x y : Lifetime μ κ ε} (h : x.advance? = some y)
    {call : ExecutorCall} (hc : call ∈ x.site.calls) : call ∈ y.site.calls := by
  rcases advance?_cases h with ⟨a, -, ha⟩ | ⟨n, r, -, -, hs⟩ | ⟨-, -, hr⟩
  · rcases ha.calls_cases with he | ⟨-, he⟩
    · rw [he]
      exact hc
    · rw [he]
      exact List.mem_cons_of_mem _ hc
  · rw [hs]
    exact List.mem_cons_of_mem _ hc
  · rw [hr.calls]
    exact hc

theorem applied_le {ε : Type} [Executor ε] {x y : Lifetime μ κ ε} (hx : x.Halting)
    (hy : y.Halting) (h : x.advance? = some y) : x.applied ≤ y.applied := by
  obtain ⟨_, _, _, haccx, -⟩ := hx
  obtain ⟨_, _, _, haccy, -⟩ := hy
  rw [← haccx.concluded.length_eq, ← haccy.concluded.length_eq]
  have hr : Reaches Site.Drift x y := .single (.act h)
  exact (concluded_suffix hr).length_le

theorem Prepared.advance (h : x.Prepared limit) (hy : x.advance? = some y) : y.Prepared limit := by
  have hcleared := h.toCleared.advance hy
  refine ⟨hcleared, ?_, ?_, advance?_calls hy h.told, ?_⟩
  · intro stage hp
    obtain ⟨stage', hp⟩ := replaying_of_advance hy hp
    exact h.past stage' hp
  · exact Nat.le_trans h.through
      (applied_le h.orderly.2.halting hcleared.orderly.2.halting hy)
  · rcases advance?_cases hy with ⟨a, hx, ha⟩ | ⟨n, r, -, hp, -⟩ | ⟨-, -, hr⟩
    · rw [ha.executor, Applying.reach]
      split
      · have hlive := live_of_launched h.orderly hx h.past
        show (x.site.executor.apply x.site.broker a.command a.mode).2.1.Runs
        rw [hlive]
        exact h.runs.apply _ _
      · exact h.runs
    · exact absurd hp (h.past _)
    · rw [hr.executor]
      exact h.runs

theorem Prepared.change (h : x.Prepared limit) {s : Site μ κ Engine} (hs : x.site.Spans s) :
    Prepared { x with site := s } limit := by
  refine ⟨h.toCleared.drift hs.toDrift, h.past, ?_, ?_, ?_⟩
  · exact Nat.le_trans h.through (Nat.le_of_eq hs.applied.symm)
  · show _ ∈ s.calls
    rw [hs.calls]
    exact h.told
  · show s.executor.Runs
    rw [hs.executor]
    exact h.runs

theorem Prepared.step (h : x.Prepared limit) (hs : Step Site.Spans x y) : y.Prepared limit := by
  cases hs with
  | act hy => exact h.advance hy
  | change hs => exact h.change hs

def Readied (x : Lifetime μ κ Engine) : Prop :=
  ∀ n, x.phase = .replayed (.ok (.completed n)) → ∃ limit, x.Prepared limit

theorem readied_advance (hf : y.Fate) (hy : x.advance? = some y) : y.Readied := by
  intro n hp
  obtain ⟨limit, hc⟩ := hf.cleared_of_completed hp
  have hfinishing : ∃ m, x.phase = .replaying (.finishing m) := by
    have hstep := hy
    unfold advance? at hstep
    cases hx : x.phase with
    | replaying stage =>
      rw [hx] at hstep
      obtain ⟨m, rfl⟩ := replaying_completed hstep hp
      exact ⟨m, rfl⟩
    | replayed r =>
      rw [hx] at hstep
      cases r <;> cases hstep
      cases hp
    | running stage =>
      rw [hx] at hstep
      rcases enter_cases hstep with ⟨_, _, -, rfl⟩ | ⟨_, _, -, rfl⟩ <;> cases hp
    | ended r =>
      rw [hx] at hstep
      cases hstep
  obtain ⟨m, hm⟩ := hfinishing
  obtain ⟨r, -, hs, hr⟩ := advance?_finishing hm hy
  have hsupply : ∃ l, y.Supply l .live [] ∧ y.Resting := by
    have ho := hc.orderly.2
    rw [hp] at ho
    exact ho
  obtain ⟨l, hsupply, -⟩ := hsupply
  cases hsupply.captured.symm.trans hc.captured
  refine ⟨limit, hc, by simp [hp], hsupply.through, ?_, ?_⟩
  · rcases hr with ⟨f, -, hq⟩ | ⟨rfl, -⟩
    · cases hp.symm.trans hq
    · rw [hs]
      exact List.mem_cons_self ..
  · rw [hs]
    exact Engine.runs_finishReplay _

theorem Readied.step (h : x.Readied) (hf : y.Fate) (hs : Step Site.Spans x y) : y.Readied := by
  cases hs with
  | act hy => exact readied_advance hf hy
  | change hs =>
    intro n hp
    obtain ⟨limit, hl⟩ := h n hp
    exact ⟨limit, hl.change hs⟩

end Lifetime

end StatementLog
