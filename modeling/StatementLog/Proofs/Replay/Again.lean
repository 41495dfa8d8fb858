import StatementLog.Proofs.Replay.Outcome

namespace StatementLog

def Catalog.Idles (c : Catalog) (b : Broker) (command : Command) : Prop :=
  c.alreadyApplied command.id command.offset = true ∨
    ∃ f, (c.settle b command).1 = .error f

section

variable {view : Nat → Option Command} {c : Catalog} {b : Broker} {command : Command}

theorem Catalog.Idles.settle (h : c.Idles b command) : (c.settle b command).2 = (c, b) := by
  rcases h with h | ⟨f, h⟩
  · rw [Catalog.settle_again h]
  · exact Plan.settle_error h

theorem alone_of_idles {n : Nat} (h : ∀ k < n, ∀ command, view k = some command → c.Idles b command) :
    alone view c b n = (c, b) := by
  induction n with
  | zero => rfl
  | succ n ih =>
    have ih := ih fun k hk => h k (Nat.lt_succ_of_lt hk)
    cases hv : view n with
    | none => rw [alone, hv, ih]
    | some command =>
      rw [alone_succ hv, ih]
      exact (h n (Nat.lt_succ_self n) command hv).settle

theorem alreadyApplied_alone {n m : Nat} (hn : n ≤ m) {id : CommandId} {k : Nat}
    (h : (alone view c b n).1.alreadyApplied id k = true) :
    (alone view c b m).1.alreadyApplied id k = true := by
  induction hn with
  | refl => exact h
  | @step m _ ih =>
    cases hv : view m with
    | none =>
      rw [alone, hv]
      exact ih
    | some command =>
      rw [alone_succ hv]
      exact Catalog.alreadyApplied_settle ih

theorem alone_eq_self_iff {n : Nat} :
    (alone view c b n).1 = c ↔ ∀ k < n, ∀ command, view k = some command → c.Idles b command := by
  constructor
  · intro h k
    induction k using Nat.strong_induction_on with
    | h k ih =>
      intro hk command hv
      -- nothing changes up to the first that is not idle, and its success stays noted for good
      have hbefore := alone_of_idles fun j hj => ih j hj (Nat.lt_trans hj hk)
      cases hr : (c.settle b command).1 with
      | error f => exact .inr ⟨f, hr⟩
      | ok e =>
        have hnoted : (alone view c b (k + 1)).1.alreadyApplied command.id command.offset = true := by
          rw [alone_succ hv, hbefore]
          exact Catalog.alreadyApplied_of_ok hr
        have hend := alreadyApplied_alone hk hnoted
        rw [h] at hend
        exact .inl hend
  · intro h
    rw [alone_of_idles h]

end

namespace Lifetime

variable {μ κ : Type} [CommandLog μ κ] [LawfulLog μ] {x y : Lifetime μ κ Engine}

/-- When a log has been applied and a second runner applies all of it again to what the first one
left behind, the catalog is the same as before exactly if every command is known by then, or fails
there. -/
theorem catalog_restored_iff {task task' : Nat} {s s' : Site μ κ Engine} (hs : s.Fresh)
    (hs' : s'.Fresh) (hx : Reaches Site.Outage (ofSite task s) x) (hcx : x.Complete)
    (he : s'.executor = x.site.executor) (hb : s'.broker = x.site.broker)
    (hy : Reaches Site.Outage (ofSite task' s') y) (hcy : y.Complete) (hv : y.view = x.view)
    (hw : Written x.view) :
    y.site.executor.catalog = x.site.executor.catalog ↔
      ∀ n c, x.view n = some c → x.site.executor.catalog.Idles x.site.broker.up c := by
  have hfx := (follows_ofSite hs task).reaches hx hw
  have hfy := (follows_ofSite hs' task').reaches hy (hv ▸ hw)
  have hsize := size_eq_of_complete hfx.orderly hfy.orderly hv hcx.applied hcy.applied
  have hstarted : x.site.executor.catalog.startQueries = x.site.executor.catalog :=
    (hfx.tracks.launched hcx.finished).catalog
  -- the second runner goes through the log from where the first one has ended
  have hstate := congrArg Prod.fst (hfy.state hcy)
  rw [hv, he, hb, hsize, hstarted] at hstate
  have hstate : y.site.executor.catalog = _ := hstate
  rw [hstate, alone_eq_self_iff]
  constructor
  · intro h n c hc
    exact h n (LawfulLog.lt_size hc) c hc
  · exact fun h n _ c hc => h n c hc

set_option maxRecDepth 10000 in
theorem catalog_restored_of_creation :
    ∃ x y, Reaches Site.Outage (ofSite 0 (onTape [creation "A"] (.ofTopics ["A"]) {})) x ∧
      Reaches Site.Outage
        (ofSite 0 (onTape [creation "A"] x.site.broker x.site.executor)) y ∧
      x.Complete ∧ y.Complete ∧ y.site.executor.catalog = x.site.executor.catalog := by
  have hrun : ((steps? 19 (ofSite 0 (onTape [creation "A"] (.ofTopics ["A"]) ({} : Engine)))).bind
      fun x => (steps? 19 (ofSite 0 (onTape [creation "A"] x.site.broker x.site.executor))).map
        fun y => decide (x.applied = 1 ∧ finished x.site.calls = true ∧ y.applied = 1 ∧
          finished y.site.calls = true ∧ x.site.log = { lines := [creation "A"] } ∧
          y.site.log = { lines := [creation "A"] } ∧ written x.site.log = true ∧
          (x.view 0).all fun c => x.site.executor.catalog.alreadyApplied c.id c.offset)) =
            some true := by
    decide +kernel
  obtain ⟨x, hx, hrun⟩ := Option.bind_eq_some_iff.1 hrun
  obtain ⟨y, hy, hrun⟩ := Option.map_eq_some_iff.1 hrun
  obtain ⟨hax, hdx, hay, hdy, hlx, hly, hwx, hall⟩ := of_decide_eq_true hrun
  have hcomplete {z : Lifetime Tape TapeClient Engine} (ha : z.applied = 1)
      (hd : finished z.site.calls = true) (hl : z.site.log = { lines := [creation "A"] }) :
      z.Complete := by
    refine ⟨?_, finished_sound hd⟩
    rw [ha, hl]
    rfl
  have hrestored := catalog_restored_iff (onTape_fresh (by decide) _ _)
    (onTape_fresh (by decide) _ _) (steps?_reaches hx) (hcomplete hax hdx hlx) rfl rfl
    (steps?_reaches hy) (hcomplete hay hdy hly) (by rw [view, view, hly, hlx]) (written_sound hwx)
  refine ⟨x, y, steps?_reaches hx, steps?_reaches hy, hcomplete hax hdx hlx,
    hcomplete hay hdy hly, hrestored.2 ?_⟩
  intro n c hc
  have hlt : n < x.site.log.lines.length := LawfulLog.lt_size hc
  rw [hlx] at hlt
  obtain rfl : n = 0 := Nat.lt_one_iff.1 hlt
  rw [hc] at hall
  exact .inl hall

def dropFirst : List (List Char) :=
  [recordLine ⟨.stream, "A", .drop⟩ "DROP STREAM A;",
    recordLine ⟨.stream, "A", .create⟩ "CREATE STREAM A (X INT) WITH (KAFKA_TOPIC='t');"]

set_option maxRecDepth 10000 in
/-- The drop fails at first, for there is nothing to drop. The second time it succeeds, and the
creation is not repeated. -/
theorem catalog_lost_of_dropFirst :
    ∃ x y, steps? 24 (ofSite 0 (onTape dropFirst (.ofTopics ["t"]) ({} : Engine))) = some x ∧
      steps? 24 (ofSite 0 (onTape dropFirst x.site.broker x.site.executor)) = some y ∧
      x.captured = some 2 ∧ x.Complete ∧ y.captured = some 2 ∧ y.Complete ∧ y.view = x.view ∧
      Written x.view ∧ (x.site.executor.catalog.source? "A").isSome = true ∧
      y.site.executor.catalog.source? "A" = none := by
  have hrun : ((steps? 24 (ofSite 0 (onTape dropFirst (.ofTopics ["t"]) ({} : Engine)))).bind
      fun x => (steps? 24 (ofSite 0 (onTape dropFirst x.site.broker x.site.executor))).map
        fun y => decide (x.captured = some 2 ∧ x.applied = 2 ∧ finished x.site.calls = true ∧
          y.captured = some 2 ∧ y.applied = 2 ∧ finished y.site.calls = true ∧
          x.site.log = { lines := dropFirst } ∧ y.site.log = { lines := dropFirst } ∧
          written x.site.log = true ∧ (x.site.executor.catalog.source? "A").isSome = true ∧
          y.site.executor.catalog.source? "A" = none)) = some true := by
    decide +kernel
  obtain ⟨x, hx, hrun⟩ := Option.bind_eq_some_iff.1 hrun
  obtain ⟨y, hy, hrun⟩ := Option.map_eq_some_iff.1 hrun
  obtain ⟨hcx, hax, hdx, hcy, hay, hdy, hlx, hly, hw, hsx, hsy⟩ := of_decide_eq_true hrun
  refine ⟨x, y, hx, hy, hcx, ⟨?_, finished_sound hdx⟩, hcy, ⟨?_, finished_sound hdy⟩, ?_,
    written_sound hw, hsx, hsy⟩
  · rw [hax, hlx]
    rfl
  · rw [hay, hly]
    rfl
  · rw [view, view, hly, hlx]

end Lifetime

end StatementLog
