import StatementLog.Proofs.Replay.Completion

namespace StatementLog

namespace Lifetime

variable {μ κ : Type} [CommandLog μ κ] [LawfulLog μ] {x y z : Lifetime μ κ Engine}

/-- All that the log holds has been concluded, and the engine knows of the end of the replay. -/
structure Complete (x : Lifetime μ κ Engine) : Prop where
  applied : x.applied = LawfulLog.size x.site.log
  finished : ∃ r, .finishReplay r ∈ x.site.calls

structure Follows (s : Site μ κ Engine) (x : Lifetime μ κ Engine) : Prop where
  orderly : x.Orderly
  enduring : x.Enduring
  policy : x.policy = s.node.runner.policy
  tracks : Tracks s.executor.catalog.startQueries s.broker.up x

theorem view_mono {ε : Type} [Executor ε] {x y : Lifetime μ κ ε}
    (h : Reaches Site.Drift x y) {n : Nat} {c : Command} (hc : x.view n = some c) :
    y.view n = some c := by
  induction h with
  | refl => exact hc
  | tail _ hs ih =>
    cases hs with
    | act ha => exact (congrFun (advance?_view ha).1 n).trans ih
    | change hd => exact hd.log.command? ih

theorem Written.of_reaches {ε : Type} [Executor ε] {x y : Lifetime μ κ ε}
    (h : Reaches Site.Drift x y) (hw : Written y.view) : Written x.view :=
  fun n c hc => hw n c (view_mono h hc)

theorem reaches_drift (h : Reaches Site.Outage x y) : Reaches Site.Drift x y :=
  h.mono fun _ _ ho => ho.toDrift

theorem follows_ofSite {s : Site μ κ Engine} (h : s.Fresh) (task : Nat) :
    Follows s (ofSite task s) := by
  refine ⟨ofSite_orderly h task, ofSite_enduring h task, rfl, rfl, ?_, ?_, ?_⟩
  · intro entry he
    cases he
  · intro a ha
    cases ha
  · rintro ⟨r, hr⟩
    have hr : .finishReplay r ∈ s.calls := hr
    rw [h.calls] at hr
    cases hr

theorem Follows.reaches {s : Site μ κ Engine} (hf : Follows s x) (h : Reaches Site.Outage x y)
    (hw : Written y.view) : Follows s y := by
  induction h with
  | refl => exact hf
  | @tail y z hy hs ih =>
    -- the end of the run says what the log holds, so it is carried back to every step before
    have hwy : Written y.view := Written.of_reaches (reaches_drift (.single hs)) hw
    obtain ⟨ho, he, hp, ht⟩ := ih hwy
    cases hs with
    | act ha =>
      exact ⟨ho.advance (unterminated_of_written hwy) ha, he.advance ho hwy ha,
        (advance?_view ha).2.2.trans hp, ht.advance ho hwy ha⟩
    | change hd =>
      exact ⟨ho.change hd.toDrift, he.drift hd.toDrift, hd.policy.trans hp, ht.outage ho hd⟩

theorem Follows.settled_length {s : Site μ κ Engine} (h : Follows s x)
    (hx : x.applied = LawfulLog.size x.site.log) :
    x.settled.length = LawfulLog.size x.site.log := by
  obtain ⟨hle, hle'⟩ := h.orderly.settled_le
  omega

theorem Follows.state {s : Site μ κ Engine} (h : Follows s x) (hx : x.Complete) :
    (x.site.executor.catalog, x.site.broker.up) =
      alone x.view s.executor.catalog.startQueries s.broker.up (LawfulLog.size x.site.log) := by
  rw [← h.settled_length hx.applied, ← h.tracks.state, (h.tracks.launched hx.finished).catalog]

theorem Follows.terminals_eq {s : Site μ κ Engine} (h : Follows s x) {n : Nat} (hn : n < x.applied)
    {c : Command} (hv : x.view n = some c) :
    terminals x.published ⟨c.id, n⟩ = [s.node.runner.policy.verdict
      (answer x.view s.executor.catalog.startQueries s.broker.up c)] := by
  obtain ⟨_, _, reported, hacc, hle, hle', -⟩ := h.orderly.2.halting
  obtain ⟨d, status, hd, ht⟩ := hacc.reported.terminals_eq_single
    (fun _ _ _ => hacc.settled.offset_eq fun _ _ => LawfulLog.offset_eq)
    (Nat.lt_of_lt_of_le hn hle)
  obtain ⟨e, _, he, hve, -⟩ :=
    hacc.settled.getElem? (Nat.lt_of_lt_of_le hn (Nat.le_trans hle hle'))
  cases hd.symm.trans he
  cases hv.symm.trans hve
  have hmem := List.mem_reverse.1 (List.mem_of_getElem? hd)
  have hstatus : status = _ := h.tracks.verdicts _ hmem
  rw [ht, hstatus, h.policy]

theorem size_eq_of_complete (hx : x.Orderly) (hy : y.Orderly) (hv : y.view = x.view)
    (hcx : x.applied = LawfulLog.size x.site.log) (hcy : y.applied = LawfulLog.size y.site.log) :
    LawfulLog.size y.site.log = LawfulLog.size x.site.log := by
  have hle {x y : Lifetime μ κ Engine} (hy : y.Orderly) (hv : y.view = x.view)
      (hcy : y.applied = LawfulLog.size y.site.log) :
      LawfulLog.size y.site.log ≤ LawfulLog.size x.site.log := by
    refine Nat.not_lt.1 fun hlt => ?_
    obtain ⟨_, _, _, hacc, -⟩ := hy.2.halting
    obtain ⟨c, _, -, hc, -⟩ := hacc.concluded.getElem? (hcy ▸ hlt)
    rw [hv] at hc
    exact Nat.lt_irrefl _ (LawfulLog.lt_size hc)
  exact Nat.le_antisymm (hle hy hv hcy) (hle hx hv.symm hcx)

theorem passing_outage : Passing (Site.Outage : Site μ κ Engine → Site μ κ Engine → Prop) :=
  fun s now turns hb => ⟨passing_drift s now turns hb, rfl, rfl⟩

theorem Follows.exists_complete {s : Site μ κ Engine} (h : Follows s x) (hw : Written x.view)
    (hx : x.Working) : ∃ y, Reaches Site.Outage x y ∧ y.view = x.view ∧ y.Complete := by
  have hserving : x.Serving := ⟨hx, h.orderly, hw, h.enduring⟩
  let back : Site μ κ Engine := { x.site with broker := x.site.broker.up }
  have hback : x.site.Outage back :=
    ⟨⟨⟨Nat.le_refl _, fun _ => rfl, h.orderly.1⟩, rfl, rfl, rfl, rfl, rfl, rfl, rfl, id⟩, rfl, rfl⟩
  have hserving := hserving.drift hback.toDrift rfl rfl hx.check hx.stop hx.aborted
  obtain ⟨y, hy, hys, hread, hd⟩ := hserving.exists_drained passing_outage rfl
  have hcaught : y.phase.CaughtUp := by
    rcases hd.phase with hp | ⟨stage, hp⟩
    · rw [hp]
      trivial
    · rw [hp]
      trivial
  refine ⟨y, .head (.change hback) hy, hread.view, hd.applied, ?_⟩
  rcases hys.enduring.told hcaught with hstop | htold
  · exact absurd (hstop.symm.trans hys.stop) (by simp)
  · exact htold

/-- Where the replay ended and when the broker was away makes no difference in the end. Whatever
has happened so far, a runner in service can conclude all that the log holds; and when two runners
that began alike have done so, they have the same catalog, the same topics are there, and each
command has had one terminal status, the same from both. -/
theorem same_outcome {task task' : Nat} {s s' : Site μ κ Engine} (hs : s.Fresh) (hs' : s'.Fresh)
    (hcat : s'.executor.catalog = s.executor.catalog) (hb : s'.broker.up = s.broker.up)
    (hpol : s'.node.runner.policy = s.node.runner.policy)
    (hx : Reaches Site.Outage (ofSite task s) x) (hy : Reaches Site.Outage (ofSite task' s') y)
    (hw : Written x.view) (hv : y.view = x.view) :
    (x.Working → ∃ z, Reaches Site.Outage x z ∧ z.view = x.view ∧ z.Complete) ∧
    (x.Complete → y.Complete →
      y.site.executor.catalog = x.site.executor.catalog ∧
      y.site.broker.topics = x.site.broker.topics ∧
      ∀ n c, x.view n = some c → ∃ status, terminals x.published ⟨c.id, n⟩ = [status] ∧
        terminals y.published ⟨c.id, n⟩ = [status]) := by
  have hfx := (follows_ofSite hs task).reaches hx hw
  have hfy := (follows_ofSite hs' task').reaches hy (hv ▸ hw)
  refine ⟨hfx.exists_complete hw, ?_⟩
  intro hcx hcy
  have hsize := size_eq_of_complete hfx.orderly hfy.orderly hv hcx.applied hcy.applied
  have hstate := hfy.state hcy
  rw [hv, hcat, hb, hsize, ← hfx.state hcx] at hstate
  obtain ⟨hc, hup⟩ := Prod.mk.inj hstate
  have htopics : y.site.broker.up.topics = x.site.broker.up.topics := congrArg Broker.topics hup
  refine ⟨hc, htopics, ?_⟩
  intro n c hn
  have hlt : n < LawfulLog.size x.site.log := LawfulLog.lt_size hn
  refine ⟨_, hfx.terminals_eq (hcx.applied ▸ hlt) hn, ?_⟩
  rw [hfy.terminals_eq (by rw [hcy.applied, hsize]; exact hlt) (hv ▸ hn), hv, hcat, hb, hpol]

def brokered (x : Lifetime Tape TapeClient Engine) (available : Bool) :
    Lifetime Tape TapeClient Engine :=
  { x with site := { x.site with broker := { x.site.broker with available } } }

theorem outage_brokered {x : Lifetime Tape TapeClient Engine}
    (h : x.site.log.lines.length ≤ Word.max) (available : Bool) :
    x.site.Outage (x.brokered available).site :=
  ⟨⟨⟨Nat.le_refl _, fun _ => rfl, h⟩, rfl, rfl, rfl, rfl, rfl, rfl, rfl, id⟩, rfl, rfl⟩

theorem outage_grown {x : Lifetime Tape TapeClient Engine} {lines : List (List Char)}
    (h : x.site.log.lines.length + lines.length ≤ Word.max) :
    x.site.Outage (x.grown lines).site :=
  ⟨drift_grown h, rfl, rfl⟩

def written (t : Tape) : Bool :=
  (List.range t.lines.length).all fun n => (t.command? n).all fun c =>
    (Statement.readId c.payload.statement).toOption = some c.id && !c.id.isClusterTerminate

theorem written_sound {t : Tape} (h : written t = true) : Written (command? t) := by
  intro n c hc
  have hlt : n < t.lines.length := LawfulLog.lt_size hc
  have hall := List.all_eq_true.1 h n (List.mem_range.2 hlt)
  have hv : t.command? n = some c := hc
  rw [hv] at hall
  simp only [Option.all_some, Bool.and_eq_true, decide_eq_true_eq, Bool.not_eq_true'] at hall
  obtain ⟨hid, ht⟩ := hall
  refine ⟨?_, ht⟩
  cases hr : Statement.readId c.payload.statement with
  | error e => simp [hr, Except.toOption] at hid
  | ok id =>
    rw [hr] at hid
    cases hid
    rfl

def finished (calls : List ExecutorCall) : Bool :=
  calls.any fun
    | .finishReplay _ => true
    | .apply _ _ _ => false

theorem finished_sound {calls : List ExecutorCall} (h : finished calls = true) :
    ∃ r, .finishReplay r ∈ calls := by
  obtain ⟨call, hm, hc⟩ := List.any_eq_true.1 h
  cases call with
  | finishReplay r => exact ⟨r, hm⟩
  | apply _ _ _ => cases hc

set_option maxRecDepth 10000 in
theorem same_outcome_of_outage :
    ∃ x y, Reaches Site.Outage (ofSite 0 (onTape [creation "A"] (.ofTopics ["A", "B"]) {})) x ∧
      Reaches Site.Outage (ofSite 0 (onTape [] (.ofTopics ["A", "B"]) {})) y ∧
      x.captured = some 1 ∧ y.captured = some 0 ∧ x.Complete ∧ y.Complete ∧
      y.site.executor.catalog = x.site.executor.catalog ∧ x.site.executor.catalog ≠ {} := by
  have hx : ((steps? 21
      (ofSite 0 (onTape [creation "A"] (.ofTopics ["A", "B"]) ({} : Engine)))).bind fun u =>
      (steps? 9 ((u.grown [creation "B"]).brokered false)).bind fun v =>
        (steps? 5 (v.brokered true).rouse).map fun x =>
          decide (u.site.log.lines.length = 1 ∧ v.site.log.lines.length = 2 ∧
            x.captured = some 1 ∧ x.applied = 2 ∧ finished x.site.calls = true ∧
            x.site.executor.catalog ≠ {} ∧ written x.site.log = true ∧
            x.site.log = { lines := [creation "A", creation "B"] })) = some true := by
    decide +kernel
  have hy : ((steps? 10 (ofSite 0 (onTape [] (.ofTopics ["A", "B"]) ({} : Engine)))).bind fun u =>
      (steps? 17 (u.grown [creation "A", creation "B"])).map fun y =>
        decide (u.site.log.lines.length = 0 ∧ y.captured = some 0 ∧ y.applied = 2 ∧
          finished y.site.calls = true ∧
          y.site.log = { lines := [creation "A", creation "B"] })) = some true := by
    decide +kernel
  obtain ⟨u, hu, hx⟩ := Option.bind_eq_some_iff.1 hx
  obtain ⟨v, hv, hx⟩ := Option.bind_eq_some_iff.1 hx
  obtain ⟨x, hx, hfx⟩ := Option.map_eq_some_iff.1 hx
  obtain ⟨hlu, hlv, hcx, hax, hdx, hne, hwx, hlx⟩ := of_decide_eq_true hfx
  obtain ⟨w, hw, hy⟩ := Option.bind_eq_some_iff.1 hy
  obtain ⟨y, hy, hfy⟩ := Option.map_eq_some_iff.1 hy
  obtain ⟨hlw, hcy, hay, hdy, hly⟩ := of_decide_eq_true hfy
  have hlen (n : Nat) (h : n ≤ 2) : n ≤ Word.max := Nat.le_trans h (by decide)
  have hgrown : Step Site.Outage u (u.grown [creation "B"]) :=
    .change (outage_grown (hlen _ (by simp [hlu])))
  have hgu : Reaches Site.Outage u ((u.grown [creation "B"]).brokered false) :=
    .head hgrown (.single (.change (outage_brokered (hlen _ (by simp [grown, hlu])) false)))
  have hgv : Reaches Site.Outage v (v.brokered true).rouse := by
    refine .head (.change (outage_brokered (hlen _ (by simp [hlv])) true)) (.single (.change ?_))
    exact passing_outage _ _ _ (hlen _ (Nat.le_of_eq hlv))
  have hrx : Reaches Site.Outage (ofSite 0 (onTape [creation "A"] (.ofTopics ["A", "B"]) {})) x :=
    (((steps?_reaches hu).trans hgu).trans (steps?_reaches hv)).trans
      (hgv.trans (steps?_reaches hx))
  have hry : Reaches Site.Outage (ofSite 0 (onTape [] (.ofTopics ["A", "B"]) {})) y := by
    refine (steps?_reaches hw).trans (.head (.change (outage_grown ?_)) (steps?_reaches hy))
    exact hlen _ (by simp [hlw])
  have hcomplete {z : Lifetime Tape TapeClient Engine} (ha : z.applied = 2)
      (hd : finished z.site.calls = true)
      (hl : z.site.log = { lines := [creation "A", creation "B"] }) : z.Complete := by
    refine ⟨?_, finished_sound hd⟩
    rw [ha, hl]
    rfl
  have hfresh (lines : List (List Char)) (h : lines.length ≤ 2) :=
    onTape_fresh (hlen _ h) (.ofTopics ["A", "B"]) ({} : Engine)
  have hsame := same_outcome (hfresh [creation "A"] (by decide)) (hfresh [] (by decide)) rfl rfl
    rfl hrx hry (written_sound hwx) (by rw [view, view, hly, hlx])
  exact ⟨x, y, hrx, hry, hcx, hcy, hcomplete hax hdx hlx, hcomplete hay hdy hly,
    (hsame.2 (hcomplete hax hdx hlx) (hcomplete hay hdy hly)).1, hne⟩

end Lifetime

end StatementLog
