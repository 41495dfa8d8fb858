import StatementLog.Proofs.Runner.Frame
import StatementLog.Proofs.Runner.Orderly
import StatementLog.Script

namespace StatementLog

variable {μ κ ε : Type} [CommandLog μ κ] [LawfulLog μ]

namespace Lifetime

section

variable {x : Lifetime μ κ ε} {s : Site μ κ ε} {limit : Nat} {mode : Mode} {rest : List Command}
  {a a' : Applying}

theorem Handling.view_applied (h : x.Handling limit mode rest a) :
    x.view x.applied = some a.command :=
  h.supply.segment.1

theorem Handling.mode_eq (h : x.Handling limit mode rest a) :
    a.mode = Mode.at x.limit x.applied := by
  have ho : a.command.offset = x.applied := LawfulLog.offset_eq h.view_applied
  have hl : x.limit = limit := by simp [Lifetime.limit, h.supply.captured]
  rw [h.mode, hl, ← h.supply.mode_eq a.command (List.mem_cons_self ..), ho]

theorem Handling.hand_over (h : x.Handling limit mode rest a) (ht : a.stage = .trying)
    (r : Except Failure Effect) :
    Handed x.view x.limit (.apply a.command a.mode r :: x.site.calls) (x.applied + 1) ∧
      Ledger x.view (·.isTerminal = true) x.settled x.applied ∧
      Reported x.settled x.published x.applied := by
  have hu := h.underway
  simp only [Underway, ht] at hu
  rcases hu with hu | ⟨hu, f, calls, hc, hf⟩
  · refine ⟨?_, hu.settled, hu.reported⟩
    rw [h.mode_eq]
    exact .first hu.handed h.view_applied
  · refine ⟨?_, hu.settled, hu.reported⟩
    have hh := hu.handed
    rw [hc] at hh ⊢
    exact .again hh hf

variable [Executor ε]

theorem Handling.account_next (h : x.Handling limit mode rest a) (hx : x.attempt? = some a)
    (hs : a.step x.site = .next s a') (p : Phase) {handed settled reported : Nat}
    (hh : Handed x.view x.limit s.calls handed)
    (hl : Ledger x.view (·.isTerminal = true) ((a.settlement? x.site).toList ++ x.settled) settled)
    (hr : Reported ((a.settlement? x.site).toList ++ x.settled)
      (a.publication?.toList ++ x.published) reported) :
    (x.take s p).Account handed settled reported := by
  have ho := Applying.step_next hs
  obtain ⟨state, hrun⟩ := ho.runner
  have hver : a.verdict? = none := Applying.verdict?_of_next hs
  obtain ⟨_, _, _, hc, -⟩ := h.underway.halting
  refine ⟨?_, ?_, ?_, ?_, ?_⟩
  · rw [captured_take h.supply.captured]
    simp
  · rw [limit_take h.supply.captured, view, take, ho.log]
    exact hh
  · rw [settled_take hx, view, take, ho.log]
    exact hl
  · rw [settled_take hx, published_take hx]
    exact hr
  · rw [concluded_take hx, hver, view, applied, take, ho.log, hrun]
    exact hc.concluded

theorem Handling.underway_next (h : x.Handling limit mode rest a) (hx : x.attempt? = some a)
    (hs : a.step x.site = .next s a') (p : Phase) : (x.take s p).Underway a' := by
  have hacc {handed settled reported : Nat} :
      Handed x.view x.limit s.calls handed →
      Ledger x.view (·.isTerminal = true) ((a.settlement? x.site).toList ++ x.settled) settled →
      Reported ((a.settlement? x.site).toList ++ x.settled) (a.publication?.toList ++ x.published)
        reported → (x.take s p).Account handed settled reported := h.account_next hx hs p
  have happ : (x.take s p).applied = x.applied := by
    obtain ⟨state, hr⟩ := (Applying.step_next hs).runner
    rw [applied, take, hr]
    rfl
  have hset := settled_take hx s p
  have hu := h.underway
  unfold Underway Resting at hu ⊢
  rw [happ]
  cases ht : a.stage with
  | announcing =>
    rw [ht] at hu
    rw [Applying.settlement?_of_ne (by simp [ht]), Applying.publication?, ht] at hacc
    rw [Applying.step, ht] at hs
    cases hs
    rcases hu with hu | ⟨hu, hf⟩
    · exact .inl (hacc hu.handed hu.settled (.passing hu.reported rfl))
    · exact .inr ⟨hacc hu.handed hu.settled (.passing hu.reported rfl), hf⟩
  | trying =>
    rw [Applying.publication?, ht] at hacc
    obtain ⟨hh, hl, hr⟩ := h.hand_over ht (a.attempt x.site).1
    have hr := hr.mono (a.settlement? x.site).toList
    rcases Applying.trying_cases ht x.site with
      ⟨effect, -, he⟩ | ⟨f, state, wake, hf, hg, he⟩ | ⟨f, -, -, he⟩
    · have hst : a.settlement? x.site = some (a.command, .success effect.message) := by
        rw [Applying.settlement?, ht, he]
      cases he.symm.trans hs
      rw [hst] at hacc hset hr
      exact ⟨hacc hh (.next hl h.view_applied rfl) hr, by simp, rfl, x.settled, hset⟩
    · have hst : a.settlement? x.site = none := by rw [Applying.settlement?, ht, he]
      cases he.symm.trans hs
      rw [hst] at hacc hr
      refine .inr ⟨hacc hh hl hr, f, x.site.calls, ?_, fun hk => hg (.inl hk)⟩
      simp only [Applying.count_command, Applying.count_mode, ← hf]
      rfl
    · have hst : a.settlement? x.site =
          some (a.command, .error ((a.count f.kind).failureMessage f.message)) := by
        rw [Applying.settlement?, ht, he]
      cases he.symm.trans hs
      rw [hst] at hacc hset hr
      refine ⟨hacc hh (.next hl h.view_applied rfl) hr, by simp, rfl, x.settled, ?_⟩
      simp only [Applying.count_command]
      exact hset
  | pausing wake =>
    rw [ht] at hu
    rw [Applying.settlement?_of_ne (by simp [ht]), Applying.publication?, ht] at hacc
    rcases Applying.pausing_cases ht x.site with ⟨-, he⟩ | ⟨-, -, he⟩ | ⟨-, -, he⟩ <;>
      cases he.symm.trans hs
    rcases hu with hu | ⟨hu, hf⟩
    · exact .inl (hacc hu.handed hu.settled hu.reported)
    · exact .inr ⟨hacc hu.handed hu.settled hu.reported, hf⟩
  | reporting status conclusion =>
    rw [ht] at hu
    rw [Applying.settlement?_of_ne (by simp [ht]), Applying.publication?, ht] at hacc
    rw [Applying.step, ht] at hs
    cases hs
    obtain ⟨hu, hi, hterm, entries, he⟩ := hu
    have hlen : entries.length = x.applied := by
      have hlen := hu.settled.length_eq
      rw [he, List.length_cons] at hlen
      exact Nat.succ.inj hlen
    have hlast : x.settled.reverse[x.applied]? = some (a.command, status) := by
      rw [he, List.reverse_cons, List.getElem?_append_right (by simp [hlen])]
      simp [hlen]
    exact ⟨hacc hu.handed hu.settled (.final hu.reported hlast hterm), hi⟩
  | advancing conclusion =>
    rw [Applying.step, ht] at hs
    cases hs

theorem Handling.next (h : x.Handling limit mode rest a) (hx : x.attempt? = some a)
    (hs : a.step x.site = .next s a') (p : Phase) : (x.take s p).Handling limit mode rest a' := by
  have ho := Applying.step_next hs
  obtain ⟨state, hr⟩ := ho.runner
  have hst : Stores x (x.take s p) := by
    refine ⟨?_, ?_, ?_, by rw [applied, take, hr]; rfl, by rw [pending, take, hr]; rfl, ?_⟩
    · rw [view, view, take, ho.log]
      exact fun _ _ hc => hc
    · exact Nat.le_of_eq (congrArg _ ho.log.symm)
    · rw [captured_take h.supply.captured, h.supply.captured]
    · rw [position, position, Site.position, take, ho.client]
      rfl
  refine ⟨?_, ho.mode.trans h.mode, h.underway_next hx hs p⟩
  rw [ho.command]
  exact h.supply.stores hst

omit [Executor ε] in
theorem Handling.next_offset (h : x.Handling limit mode rest a)
    (hb : LawfulLog.size x.site.log ≤ Word.max) :
    max x.applied (Offset.next a.command.offset) = x.applied + 1 := by
  have hlt : x.applied < LawfulLog.size x.site.log := LawfulLog.lt_size h.view_applied
  rw [LawfulLog.offset_eq h.view_applied, Offset.next, Word.add]
  omega

theorem Handling.done (h : x.Handling limit mode rest a) (hx : x.attempt? = some a)
    (hb : LawfulLog.size x.site.log ≤ Word.max) {c : Conclusion}
    (hs : a.step x.site = .done s c) (p : Phase) :
    (c = .interrupted ∧ s.log = x.site.log ∧ s.node.runner.stopRequested = true ∧
      (x.take s p).Halting) ∨
    (c ≠ .interrupted ∧ s.log = x.site.log ∧ s.node.runner.pending = x.pending ∧
      (x.take s p).Supply limit mode rest ∧ (x.take s p).Resting) := by
  have hl := limit_take h.supply.captured s p
  rcases Applying.step_done hs with ⟨wake, ht, hstop, rfl, rfl⟩ | ⟨ht, rfl⟩
  · have hb : Books x (x.take x.site p) := by
      refine ⟨fun _ _ hc => hc, ?_, rfl, ?_, ?_, ?_, rfl⟩
      · rw [captured_take h.supply.captured, h.supply.captured]
      · rw [settled_take hx, Applying.settlement?_of_ne (by simp [ht])]
        rfl
      · rw [published_take hx, Applying.publication?, ht]
        rfl
      · rw [concluded_take hx, Applying.verdict?, ht]
        rfl
    exact .inl ⟨rfl, rfl, hstop, h.underway.halting.books hb⟩
  · have hu := h.underway
    unfold Underway at hu
    rw [ht] at hu
    have happ := h.next_offset hb
    have happ : (x.take (x.site.mapRunner fun r =>
        { r with applied := max r.applied (Offset.next a.command.offset) }) p).applied =
          x.applied + 1 := happ
    have hst := h.supply
    refine .inr ⟨hu.2, rfl, rfl, ⟨⟨?_, hst.bounded, ?_, ?_, ?_, hst.beyond⟩, hst.enough⟩, ?_⟩
    · exact captured_take hst.captured _ _
    · rw [happ]
      exact hst.segment.2
    · rw [happ]
      have hpos := hst.position
      rw [List.cons_append, List.length_cons] at hpos
      exact hpos.trans (Nat.succ_add_eq_add_succ x.applied _).symm
    · exact fun c hc => hst.mode_eq c (List.mem_cons_of_mem _ hc)
    · rw [Resting, happ]
      refine ⟨?_, ?_, ?_, ?_, ?_⟩
      · rw [captured_take h.supply.captured]
        simp
      · rw [hl]
        exact hu.1.handed
      · rw [settled_take hx, Applying.settlement?_of_ne (by simp [ht])]
        exact hu.1.settled
      · rw [settled_take hx, published_take hx, Applying.settlement?_of_ne (by simp [ht]),
          Applying.publication?, ht]
        exact hu.1.reported
      · rw [happ, concluded_take hx, Applying.verdict?, ht]
        exact .next hu.1.concluded h.view_applied hu.2

end

section

variable {x y : Lifetime μ κ ε} {s : Site μ κ ε} {p : Phase} {limit : Nat} {mode : Mode}
  {hand backlog cs : List Command}

theorem Supply.idle (h : x.Supply limit .replay []) : x.Supply limit .live [] :=
  ⟨⟨h.captured, h.bounded, h.segment, h.position, by simp, h.beyond⟩, h.enough⟩

theorem Supply.findTermination_none (h : x.Supply limit .replay backlog) (hu : x.Unterminated) :
    findTermination backlog = none := by
  cases hf : findTermination backlog with
  | none => rfl
  | some c =>
    have hc : c ∈ backlog := List.mem_reverse.1 (List.mem_of_find?_eq_some hf)
    have hlt : c.offset < limit := Mode.at_eq_replay.1 (h.mode_eq c hc)
    have hv : x.view c.offset = some c :=
      h.segment.mem (fun _ _ => LawfulLog.offset_eq) c (List.mem_append_left _ hc)
    have ht := hu limit h.captured c.offset hlt c hv
    simp [List.find?_some hf] at ht

theorem Supply.handling {c : Command} (h : x.Supply limit mode (c :: hand)) (hr : x.Resting) :
    x.Handling limit mode hand { command := c, mode } :=
  ⟨h, rfl, .inl hr⟩

variable [Executor ε]

theorem Books.take (hc : x.captured.or p.limit? = x.captured) (hx : x.attempt? = none)
    (hv : command? s.log = x.view) (hcalls : s.calls = x.site.calls)
    (ha : s.node.runner.applied = x.applied) : Books x (x.take s p) := by
  refine ⟨fun n _ hn => (congrFun hv n).trans hn, hc, hcalls, ?_, ?_, ?_, ha⟩
  · simp only [Lifetime.take, hx]
    rfl
  · simp only [Lifetime.take, hx]
    rfl
  · simp only [Lifetime.take, hx]
    rfl

theorem Stores.take (hc : x.captured.or p.limit? = x.captured) (hl : s.log = x.site.log)
    (ha : s.node.runner.applied = x.applied) (hp : s.node.runner.pending = x.pending)
    (hpos : s.position = x.position) : Stores x (x.take s p) :=
  ⟨fun n _ hn => (congrFun (congrArg _ hl) n).trans hn, Nat.le_of_eq (congrArg _ hl.symm), hc, ha,
    hp, hpos⟩

theorem Books.keeps (hc : x.captured.or p.limit? = x.captured) (hx : x.attempt? = none)
    (hk : x.site.Keeps s) : Books x (x.take s p) :=
  .take hc hx (by rw [hk.log]; rfl) hk.calls (by rw [hk.runner]; rfl)

theorem Stores.keeps (hc : x.captured.or p.limit? = x.captured) (hk : x.site.Keeps s)
    (hpos : s.position = x.position) : Stores x (x.take s p) :=
  .take hc hk.log (by rw [hk.runner]; rfl) (by rw [hk.runner]; rfl) hpos

theorem Stock.read (h : x.Stock limit .replay backlog) (hl : s.log = x.site.log)
    (ha : s.node.runner.applied = x.applied)
    (hp : s.node.runner.pending = x.pending ++ Replaying.beyond limit cs)
    (hpos : s.position = x.position + cs.length) (hs : Segment x.view x.position cs) :
    (x.take s p).Stock limit .replay (backlog ++ Replaying.below limit cs) := by
  have ho : ∀ n c, x.view n = some c → c.offset = n := fun _ _ => LawfulLog.offset_eq
  have hseg : Segment x.view x.applied ((backlog ++ x.pending) ++ cs) := by
    rw [Segment.append, ← h.position]
    exact ⟨h.segment, hs⟩
  have happ : backlog ++ Replaying.below limit cs ++ (x.pending ++ Replaying.beyond limit cs) =
      backlog ++ x.pending ++ cs := by
    rw [List.append_assoc] at hseg
    have hrest := below_append_pending ho (Segment.append.1 hseg).2 h.beyond
    rw [List.append_assoc, hrest, List.append_assoc]
  have hpend : (x.take s p).pending = x.pending ++ Replaying.beyond limit cs := hp
  have hview : (x.take s p).view = x.view := congrArg LawfulLog.command? hl
  have hpass : (x.take s p).applied = x.applied := ha
  have hbound : limit ≤ LawfulLog.size s.log := by
    rw [hl]
    exact h.bounded
  refine ⟨captured_take h.captured s p, hbound, ?_, ?_, ?_, ?_⟩
  · rw [hpend, happ, hview, hpass]
    exact hseg
  · rw [hpend, happ, hpass, List.length_append, ← Nat.add_assoc, ← h.position]
    exact hpos
  · intro c hc
    rcases List.mem_append.1 hc with hc | hc
    · exact h.mode_eq c hc
    · have hlt : c.offset < limit := by simpa using (List.mem_filter.1 hc).2
      exact if_pos hlt
  · rw [hpend]
    intro c hc
    rcases List.mem_append.1 hc with hc | hc
    · exact h.beyond c hc
    · simpa using (List.mem_filter.1 hc).2

end

variable [Executor ε]

section

variable {x y : Lifetime μ κ ε} (hb : LawfulLog.size x.site.log ≤ Word.max)
include hb

theorem rewinding_orderly {stage : Rewinding} (hp : x.phase = .replaying (.rewinding stage))
    (h : x.Blank) (hc : x.captured = none)
    (hy : x.enter ((Replaying.rewinding stage).step x.task x.site) .replaying .replayed = some y) :
    y.Orderly := by
  have hx : x.attempt? = none := by rw [attempt?, hp]
  rcases enter_within_cases hy with ⟨s, stage', hs, rfl⟩ | ⟨s, r, hs, hy⟩
  · have hk := Rewinding.keeps_next hs
    have hb : LawfulLog.size s.log ≤ Word.max := by rw [hk.log]; exact hb
    refine ⟨hb, h.books (.keeps (Option.or_none ..) hx hk) ?_, (Option.or_none ..).trans hc⟩
    rw [pending, take, hk.runner]
    rfl
  · obtain ⟨hk, hpos⟩ := Rewinding.keeps_done hs
    have hb : LawfulLog.size s.log ≤ Word.max := by rw [hk.log]; exact hb
    cases r with
    | error e =>
      cases hy
      exact ⟨hb, h.resting.halting.books (.keeps (Option.or_none ..) hx hk)⟩
    | ok u =>
      cases hy
      refine ⟨hb, h.books (.keeps (Option.or_none ..) hx hk) ?_, (Option.or_none ..).trans hc,
        hpos rfl⟩
      rw [pending, take, hk.runner]
      rfl

theorem measuring_orderly (hp : x.phase = .replaying .measuring) (h : x.Blank)
    (hc : x.captured = none) (hpos : x.position = 0)
    (hy : x.enter (Replaying.measuring.step x.task x.site) .replaying .replayed = some y) :
    y.Orderly := by
  have hx : x.attempt? = none := by rw [attempt?, hp]
  have hsize : LawfulLog.size x.site.endPosition.2.log ≤ Word.max :=
    Nat.le_trans (Nat.le_of_eq (LawfulLog.size_endPosition ..)) hb
  have hview : command? x.site.endPosition.2.log = x.view :=
    funext (LawfulLog.command?_endPosition x.site.log x.site.node.client)
  have hcalls : x.site.endPosition.2.calls = x.site.calls := rfl
  have hnode : x.site.endPosition.2.node = x.site.node := rfl
  rcases he : x.site.endPosition with ⟨r, s⟩
  rw [Replaying.step, he] at hy
  rw [he] at hsize hview hcalls hnode
  have happ : s.node.runner.applied = x.applied := congrArg (·.runner.applied) hnode
  have hpend : s.node.runner.pending = x.pending := congrArg (·.runner.pending) hnode
  cases r with
  | error e =>
    cases hy
    exact ⟨hsize, h.resting.halting.books (.take (Option.or_none ..) hx hview hcalls happ)⟩
  | ok limit =>
    cases hy
    have hset : (x.take s (.replaying (.fetching limit []))).settled = [] := by
      rw [take, hx]
      exact h.settled
    have hpub : (x.take s (.replaying (.fetching limit []))).published = [] := by
      rw [take, hx]
      exact h.published
    have hcon : (x.take s (.replaying (.fetching limit []))).concluded = [] := by
      rw [take, hx]
      exact h.concluded
    have hblank : (x.take s (.replaying (.fetching limit []))).Blank :=
      ⟨hcalls.trans h.calls, hset, hpub, hcon, happ.trans h.applied, hpend.trans h.pending⟩
    have hzero : (x.take s (.replaying (.fetching limit []))).position = 0 :=
      (congrArg (CommandLog.position μ ·.client) hnode).trans hpos
    refine ⟨hsize, ⟨?_, ?_, ?_, ?_, by simp, ?_⟩, hblank.resting⟩
    · rw [take, hc]
      rfl
    · exact Nat.le_of_eq (Site.endPosition_ok he)
    · rw [hblank.pending]
      trivial
    · rw [hblank.pending, hblank.applied, hzero]
      rfl
    · rw [hblank.pending]
      simp

theorem fetching_orderly {limit : Nat} {backlog : List Command}
    (hp : x.phase = .replaying (.fetching limit backlog)) (h : x.Stock limit .replay backlog)
    (hr : x.Resting)
    (hy : x.enter ((Replaying.fetching limit backlog).step x.task x.site) .replaying .replayed =
      some y) : y.Orderly := by
  have hx : x.attempt? = none := by rw [attempt?, hp]
  rw [Replaying.step] at hy
  split at hy
  · next hpos =>
    split at hy <;> cases hy
    · next hstop =>
      exact ⟨hb, hr.halting.books (.take (Option.or_none ..) hx rfl rfl rfl), hstop⟩
    · exact ⟨hb, h.stores (.take (Option.or_none ..) rfl rfl rfl rfl),
        hr.books (.take (Option.or_none ..) hx rfl rfl rfl), hpos⟩
  · next hpos =>
    cases hy
    exact ⟨hb, ⟨h.stores (.take (Option.or_none ..) rfl rfl rfl rfl), Nat.not_lt.1 hpos⟩,
      hr.books (.take (Option.or_none ..) hx rfl rfl rfl)⟩

theorem polling_orderly {limit : Nat} {backlog : List Command} {stage : Polling}
    (hp : x.phase = .replaying (.polling limit backlog stage)) (h : x.Stock limit .replay backlog)
    (hr : x.Resting) (hlt : x.position < limit)
    (hy : x.enter ((Replaying.polling limit backlog stage).step x.task x.site) .replaying .replayed =
      some y) : y.Orderly := by
  have hx : x.attempt? = none := by rw [attempt?, hp]
  rcases enter_within_cases hy with ⟨s, stage', hs, rfl⟩ | ⟨s, r, hs, hy⟩
  · obtain ⟨hk, hpos⟩ := Polling.keeps_next hs
    have hb : LawfulLog.size s.log ≤ Word.max := by rw [hk.log]; exact hb
    exact ⟨hb, h.stores (.keeps (Option.or_none ..) hk hpos),
      hr.books (.keeps (Option.or_none ..) hx hk), Nat.lt_of_le_of_lt (Nat.le_of_eq hpos) hlt⟩
  · obtain ⟨hk, hread⟩ := Polling.keeps_done hs
    have hb : LawfulLog.size s.log ≤ Word.max := by rw [hk.log]; exact hb
    cases r with
    | error e =>
      cases hy
      exact ⟨hb, hr.halting.books (.keeps (Option.or_none ..) hx hk)⟩
    | ok cs =>
      obtain ⟨hpos, hseg⟩ := hread cs rfl
      cases hy
      have hview : command? s.log = x.view := by rw [hk.log]; rfl
      have happ : s.node.runner.applied = x.applied := by rw [hk.runner]; rfl
      have hcap : x.captured.or (some limit) = x.captured := by rw [h.captured]; rfl
      refine ⟨hb, h.read hk.log happ ?_ hpos hseg, hr.books (.take hcap hx hview hk.calls happ)⟩
      rw [pending, ← hk.runner]
      rfl

theorem sorting_orderly {limit : Nat} {backlog : List Command}
    (hf : findTermination backlog = none)
    (hp : x.phase = .replaying (.sorting limit backlog)) (h : x.Supply limit .replay backlog)
    (hr : x.Resting)
    (hy : x.enter ((Replaying.sorting limit backlog).step x.task x.site) .replaying .replayed =
      some y) : y.Orderly := by
  have hx : x.attempt? = none := by rw [attempt?, hp]
  rw [Replaying.step, hf] at hy
  cases hy
  exact ⟨hb, limit, h.stores (.take (Option.or_none ..) rfl rfl rfl rfl),
    hr.books (.take (Option.or_none ..) hx rfl rfl rfl)⟩

theorem resuming_orderly {limit n : Nat} {rest : List Command}
    (hp : x.phase = .replaying (.resuming rest n)) (h : x.Supply limit .replay rest)
    (hr : x.Resting)
    (hy : x.enter ((Replaying.resuming rest n).step x.task x.site) .replaying .replayed =
      some y) : y.Orderly := by
  have hx : x.attempt? = none := by rw [attempt?, hp]
  cases rest with
  | nil =>
    cases hy
    exact ⟨hb, limit, h.idle.stores (.take (Option.or_none ..) rfl rfl rfl rfl),
      hr.books (.take (Option.or_none ..) hx rfl rfl rfl)⟩
  | cons c rest =>
    cases hy
    exact ⟨hb, limit, (h.stores (.take (Option.or_none ..) rfl rfl rfl rfl)).handling
      (hr.books (.take (Option.or_none ..) hx rfl rfl rfl))⟩

theorem applying_orderly {limit n : Nat} {rest : List Command} {a : Applying}
    (hp : x.phase = .replaying (.applying rest n a)) (h : x.Handling limit .replay rest a)
    (hy : x.enter ((Replaying.applying rest n a).step x.task x.site) .replaying .replayed =
      some y) : y.Orderly := by
  have hx : x.attempt? = some a := by rw [attempt?, hp]
  rcases enter_within_cases hy with ⟨s, a', hs, rfl⟩ | ⟨s, c, hs, hy⟩
  · have hl := (Applying.step_next hs).log
    have hb : LawfulLog.size s.log ≤ Word.max := by rw [hl]; exact hb
    exact ⟨hb, limit, h.next hx hs _⟩
  · rcases h.done hx hb hs y.phase with ⟨rfl, hl, hstop, hh⟩ | ⟨hc, hl, -, hsup, hr⟩
    · have hb : LawfulLog.size s.log ≤ Word.max := by rw [hl]; exact hb
      cases hy
      exact ⟨hb, hh, hstop⟩
    · have hb : LawfulLog.size s.log ≤ Word.max := by rw [hl]; exact hb
      cases c with
      | interrupted => exact absurd rfl hc
      | applied effect =>
        cases hy
        exact ⟨hb, limit, hsup, hr⟩
      | failed f =>
        cases hy
        exact ⟨hb, limit, hsup, hr⟩

theorem finishing_orderly {limit n : Nat} (hp : x.phase = .replaying (.finishing n))
    (h : x.Supply limit .live []) (hr : x.Resting)
    (hy : x.enter ((Replaying.finishing n).step x.task x.site) .replaying .replayed =
      some y) : y.Orderly := by
  have hx : x.attempt? = none := by rw [attempt?, hp]
  rcases he : Executor.finishReplay x.site.executor with ⟨r, e⟩
  rw [Replaying.step, he] at hy
  have hr (p : Phase) :
      (x.take ({ x.site with executor := e }.record (.finishReplay r)) p).Resting := by
    refine ⟨?_, ?_, ?_, ?_, ?_⟩
    · rw [captured_take h.captured]
      simp
    · rw [limit_take h.captured]
      exact .finish hr.handed
    · simp only [take, hx]
      exact hr.settled
    · simp only [take, hx]
      exact hr.reported
    · simp only [take, hx]
      exact hr.concluded
  cases r with
  | error f =>
    cases hy
    exact ⟨hb, (hr _).halting⟩
  | ok u =>
    cases hy
    exact ⟨hb, limit, h.stores (.take (Option.or_none ..) rfl rfl rfl rfl), hr _⟩

theorem replaying_orderly {stage : Replaying}
    (hf : ∀ limit backlog, stage = .sorting limit backlog → findTermination backlog = none)
    (hp : x.phase = .replaying stage) (h : x.AtReplaying stage)
    (hy : x.enter (stage.step x.task x.site) .replaying .replayed = some y) : y.Orderly := by
  cases stage with
  | starting =>
    have hx : x.attempt? = none := by rw [attempt?, hp]
    cases hy
    exact ⟨hb, h.1.books (.take (Option.or_none ..) hx rfl rfl rfl) rfl,
      (Option.or_none ..).trans h.2⟩
  | rewinding stage => exact rewinding_orderly hb hp h.1 h.2 hy
  | measuring => exact measuring_orderly hb hp h.1 h.2.1 h.2.2 hy
  | fetching limit backlog => exact fetching_orderly hb hp h.1 h.2 hy
  | polling limit backlog stage => exact polling_orderly hb hp h.1 h.2.1 h.2.2 hy
  | sorting limit backlog => exact sorting_orderly hb (hf limit backlog rfl) hp h.1 h.2 hy
  | terminating limit a => exact h.elim
  | resuming rest n =>
    obtain ⟨limit, h, hr⟩ := h
    exact resuming_orderly hb hp h hr hy
  | applying rest n a =>
    obtain ⟨limit, h⟩ := h
    exact applying_orderly hb hp h hy
  | finishing n =>
    obtain ⟨limit, h, hr⟩ := h
    exact finishing_orderly hb hp h hr hy

end

section

variable {x y : Lifetime μ κ ε} {limit : Nat} {rest cs : List Command}

theorem Supply.receive {s : Site μ κ ε} {p : Phase} (h : x.Supply limit .live [])
    (hpend : x.pending = []) (hl : s.log = x.site.log)
    (ha : s.node.runner.applied = x.applied) (hp : s.node.runner.pending = x.pending)
    (hpos : s.position = x.position + cs.length) (hs : Segment x.view x.position cs) :
    (x.take s p).Supply limit .live cs := by
  have hcur : x.position = x.applied := by
    rw [h.position, hpend]
    rfl
  have hpend' : (x.take s p).pending = [] := hp.trans hpend
  have hview : (x.take s p).view = x.view := congrArg LawfulLog.command? hl
  have hpass : (x.take s p).applied = x.applied := ha
  have hle := h.enough
  have hbound : limit ≤ LawfulLog.size s.log := by
    rw [hl]
    exact h.bounded
  refine ⟨⟨captured_take h.captured s p, hbound, ?_, ?_, ?_, ?_⟩, ?_⟩
  · rw [hpend', hview, hpass, List.append_nil, ← hcur]
    exact hs
  · rw [hpend', hpass, List.append_nil, ← hcur]
    exact hpos
  · intro c hc
    have hge := hs.le_offset (fun _ _ => LawfulLog.offset_eq) c hc
    exact Mode.at_eq_live.2 (Nat.le_trans hle hge)
  · rw [hpend']
    simp
  · exact Nat.le_trans (Nat.le_trans hle (Nat.le_add_right ..)) (Nat.le_of_eq hpos.symm)

theorem Supply.pick_up {p : Phase} (h : x.Supply limit .live []) :
    (x.take (x.site.mapRunner fun r => { r with pending := [] }) p).Supply limit .live
      x.pending := by
  refine ⟨⟨captured_take h.captured _ _, h.bounded, ?_, ?_, ?_, ?_⟩, h.enough⟩
  · exact (List.append_nil x.pending).symm ▸ h.segment
  · exact (List.append_nil x.pending).symm ▸ h.position
  · exact fun c hc => Mode.at_eq_live.2 (h.beyond c hc)
  · exact fun c hc => nomatch hc

end

section

variable {x y : Lifetime μ κ ε} (hb : LawfulLog.size x.site.log ≤ Word.max)
include hb

theorem aborted_orderly {stage : Running} (hp : x.phase = .running stage)
    (ha : x.site.node.runner.aborted = true) (h : x.Halting)
    (hy : x.enter (stage.step x.task x.site) .running .ended = some y) : y.Orderly := by
  have hx : x.attempt? = none := by
    rw [attempt?, hp]
    cases stage <;> simp [ha]
  rw [Running.step.eq_def, if_pos ha] at hy
  cases hy
  exact ⟨hb, h.books (.take (Option.or_none ..) hx rfl rfl rfl)⟩

theorem idle_orderly (hp : x.phase = .running .idle) (ha : x.site.node.runner.aborted = false)
    (h : x.Ready) (hy : x.enter (Running.idle.step x.task x.site) .running .ended = some y) :
    y.Orderly := by
  have hx : x.attempt? = none := by rw [attempt?, hp]
  rw [Running.step, if_neg (by simp [ha])] at hy
  split at hy
  · cases hy
    exact ⟨hb, h.halting.books (.take (Option.or_none ..) hx rfl rfl rfl)⟩
  · next hstop =>
    rcases h with ⟨limit, h, hr⟩ | ⟨-, hs⟩
    · split at hy
      · next hpend =>
        cases hy
        exact ⟨hb, limit, h.stores (.take (Option.or_none ..) rfl rfl rfl rfl),
          hr.books (.take (Option.or_none ..) hx rfl rfl rfl), hpend⟩
      · next c cs hpend =>
        cases hy
        have hsup := h.pick_up (p := .running (.batch (c :: cs)))
        rw [pending, hpend] at hsup
        exact ⟨hb, limit, hsup, hr.books (.take (Option.or_none ..) hx rfl rfl rfl), rfl⟩
    · exact absurd hs hstop

theorem receiving_orderly {limit : Nat} {stage : Polling} (hp : x.phase = .running (.polling stage))
    (ha : x.site.node.runner.aborted = false) (h : x.Supply limit .live []) (hr : x.Resting)
    (hpend : x.pending = [])
    (hy : x.enter ((Running.polling stage).step x.task x.site) .running .ended = some y) :
    y.Orderly := by
  have hx : x.attempt? = none := by rw [attempt?, hp]
  rw [Running.step, if_neg (by simp [ha])] at hy
  split at hy
  · cases hy
    exact ⟨hb, hr.halting.books (.take (Option.or_none ..) hx rfl rfl rfl)⟩
  · rcases enter_within_cases hy with ⟨s, stage', hs, rfl⟩ | ⟨s, r, hs, hy⟩
    · obtain ⟨hk, hpos⟩ := Polling.keeps_next hs
      have hb : LawfulLog.size s.log ≤ Word.max := by rw [hk.log]; exact hb
      have hstores := Stores.keeps (p := .running (.polling stage')) (Option.or_none ..) hk hpos
      exact ⟨hb, limit, h.stores hstores, hr.books (.keeps (Option.or_none ..) hx hk),
        hstores.pending.trans hpend⟩
    · obtain ⟨hk, hread⟩ := Polling.keeps_done hs
      have hb : LawfulLog.size s.log ≤ Word.max := by rw [hk.log]; exact hb
      cases r with
      | error e =>
        cases hy
        exact ⟨hb, hr.halting.books (.keeps (Option.or_none ..) hx hk)⟩
      | ok cs =>
        obtain ⟨hpos, hseg⟩ := hread cs rfl
        cases hy
        have happ : s.node.runner.applied = x.applied := by rw [hk.runner]; rfl
        have hpd : s.node.runner.pending = x.pending := by rw [hk.runner]; rfl
        exact ⟨hb, limit, h.receive hpend hk.log happ hpd hpos hseg,
          hr.books (.keeps (Option.or_none ..) hx hk), hpd.trans hpend⟩

theorem batch_orderly {limit : Nat} {rest : List Command} (hp : x.phase = .running (.batch rest))
    (ha : x.site.node.runner.aborted = false) (h : x.Supply limit .live rest) (hr : x.Resting)
    (hpend : x.pending = [])
    (hy : x.enter ((Running.batch rest).step x.task x.site) .running .ended = some y) :
    y.Orderly := by
  have hx : x.attempt? = none := by rw [attempt?, hp]
  cases rest with
  | nil =>
    rw [Running.step, if_neg (by simp [ha])] at hy
    cases hy
    exact ⟨hb, .inl ⟨limit, h.stores (.take (Option.or_none ..) rfl rfl rfl rfl),
      hr.books (.take (Option.or_none ..) hx rfl rfl rfl)⟩⟩
  | cons c rest =>
    -- the next command stands at the applied position, so the runner never passes over it
    have ho : c.offset = x.applied := LawfulLog.offset_eq h.segment.1
    have hn : ¬ c.offset < x.site.node.runner.applied := by
      rw [ho]
      exact Nat.lt_irrefl _
    rw [Running.step, if_neg (by simp [ha])] at hy
    simp only [if_neg hn] at hy
    cases hy
    exact ⟨hb, limit, (h.stores (.take (Option.or_none ..) rfl rfl rfl rfl)).handling
      (hr.books (.take (Option.or_none ..) hx rfl rfl rfl)), hpend⟩

theorem live_orderly {limit : Nat} {rest : List Command} {a : Applying}
    (hp : x.phase = .running (.applying rest a)) (ha : x.site.node.runner.aborted = false)
    (h : x.Handling limit .live rest a) (hpend : x.pending = [])
    (hy : x.enter ((Running.applying rest a).step x.task x.site) .running .ended = some y) :
    y.Orderly := by
  have hx : x.attempt? = some a := by
    rw [attempt?, hp]
    simp [ha]
  rw [Running.step, if_neg (by simp [ha])] at hy
  rcases enter_within_cases hy with ⟨s, a', hs, rfl⟩ | ⟨s, c, hs, hy⟩
  · have ho := Applying.step_next hs
    have hb : LawfulLog.size s.log ≤ Word.max := by rw [ho.log]; exact hb
    obtain ⟨state, hrun⟩ := ho.runner
    refine ⟨hb, limit, h.next hx hs _, ?_⟩
    rw [pending, take, hrun]
    exact hpend
  · rcases h.done hx hb hs y.phase with ⟨rfl, hl, -, hh⟩ | ⟨hc, hl, hpd, hsup, hr⟩
    · have hb : LawfulLog.size s.log ≤ Word.max := by rw [hl]; exact hb
      cases hy
      exact ⟨hb, hh⟩
    · have hb : LawfulLog.size s.log ≤ Word.max := by rw [hl]; exact hb
      cases c with
      | interrupted => exact absurd rfl hc
      | applied effect =>
        simp only at hy
        split at hy
        · cases hy
          exact ⟨hb, hr.halting.books ⟨fun _ _ hn => hn, rfl, rfl, rfl, rfl, rfl, rfl⟩⟩
        · cases hy
          exact ⟨hb, limit, hsup, hr, hpd.trans hpend⟩
      | failed f =>
        cases hy
        exact ⟨hb, limit, hsup, hr, hpd.trans hpend⟩

theorem running_orderly {stage : Running} (hp : x.phase = .running stage) (h : x.AtRunning stage)
    (hy : x.enter (stage.step x.task x.site) .running .ended = some y) : y.Orderly := by
  cases ha : x.site.node.runner.aborted with
  | true => exact aborted_orderly hb hp ha h.halting hy
  | false =>
    cases stage with
    | starting =>
      have hx : x.attempt? = none := by rw [attempt?, hp]
      rw [Running.step, if_neg (by simp [ha])] at hy
      split at hy <;> cases hy
      · exact ⟨hb, h.halting.books (.take (Option.or_none ..) hx rfl rfl rfl)⟩
      · exact ⟨hb, Ready.drift h (.take (Option.or_none ..) hx rfl rfl rfl)
          (.take (Option.or_none ..) rfl rfl rfl rfl) id⟩
    | idle => exact idle_orderly hb hp ha h hy
    | polling stage =>
      obtain ⟨limit, h, hr, hpend⟩ := h
      exact receiving_orderly hb hp ha h hr hpend hy
    | batch rest =>
      obtain ⟨limit, h, hr, hpend⟩ := h
      exact batch_orderly hb hp ha h hr hpend hy
    | applying rest a =>
      obtain ⟨limit, h, hpend⟩ := h
      exact live_orderly hb hp ha h hpend hy
    | stopping r =>
      have hx : x.attempt? = none := by rw [attempt?, hp]
      rw [Running.step, if_neg (by simp [ha])] at hy
      cases hy
      exact ⟨hb, Halting.books h (.take (Option.or_none ..) hx rfl rfl rfl)⟩

end

theorem Orderly.proceed {x y : Lifetime μ κ ε} (h : x.Orderly)
    (hf : ∀ limit backlog, x.phase = .replaying (.sorting limit backlog) →
      findTermination backlog = none)
    (hy : x.advance? = some y) : y.Orderly := by
  obtain ⟨hb, h⟩ := h
  unfold advance? at hy
  cases hp : x.phase with
  | replaying stage =>
    rw [hp] at h hy
    exact replaying_orderly hb (fun limit backlog hs => hf limit backlog (hs ▸ hp)) hp h hy
  | replayed r =>
    rw [hp] at h hy
    have hx : x.attempt? = none := by rw [attempt?, hp]
    cases r with
    | error e => cases hy
    | ok outcome =>
      cases hy
      have hbk : Books x (x.take x.site (.running .starting)) :=
        .take (Option.or_none ..) hx rfl rfl rfl
      have hst : Stores x (x.take x.site (.running .starting)) :=
        .take (Option.or_none ..) rfl rfl rfl rfl
      cases outcome with
      | completed n =>
        obtain ⟨limit, h, hr⟩ := h
        exact ⟨hb, .inl ⟨limit, h.stores hst, hr.books hbk⟩⟩
      | terminated e => exact h.elim
      | interrupted => exact ⟨hb, .inr ⟨h.1.books hbk, h.2⟩⟩
  | running stage =>
    rw [hp] at h hy
    exact running_orderly hb hp h hy
  | ended r =>
    rw [hp] at hy
    cases hy

theorem Orderly.advance {x y : Lifetime μ κ ε} (h : x.Orderly) (hu : x.Unterminated)
    (hy : x.advance? = some y) : y.Orderly := by
  refine h.proceed ?_ hy
  intro limit backlog hp
  have h := h.2
  rw [hp] at h
  exact h.1.findTermination_none hu

theorem Unterminated.of_step {x y : Lifetime μ κ ε} (h : Step Site.Drift x y)
    (hu : y.Unterminated) : x.Unterminated := by
  intro limit hc n hn c hv
  cases h with
  | act ha =>
    have hview := (advance?_view ha).1
    obtain ⟨s, p, rfl⟩ := advance?_take ha
    exact hu limit (captured_take hc s p) n hn c ((congrFun hview n).trans hv)
  | change hd => exact hu limit hc n hn c (hd.log.command? hv)

theorem Orderly.step {x y : Lifetime μ κ ε} (h : x.Orderly) (hu : x.Unterminated)
    (hs : Step Site.Drift x y) : y.Orderly := by
  cases hs with
  | act ha => exact h.advance hu ha
  | change hd => exact h.change hd

theorem Orderly.reaches {x y : Lifetime μ κ ε} (h : x.Orderly) (hr : Reaches Site.Drift x y)
    (hu : y.Unterminated) : y.Orderly := by
  induction hr with
  | refl => exact h
  | tail _ hs ih => exact (ih (hu.of_step hs)).step (hu.of_step hs) hs

theorem Unterminated.of_reaches {x y : Lifetime μ κ ε} (hr : Reaches Site.Drift x y)
    (hu : y.Unterminated) : x.Unterminated := by
  induction hr with
  | refl => exact hu
  | tail _ hs ih => exact ih (hu.of_step hs)

omit [LawfulLog μ] in
theorem concluded_suffix {world : Site μ κ ε → Site μ κ ε → Prop} {x y : Lifetime μ κ ε}
    (hr : Reaches world x y) : x.concluded <:+ y.concluded := by
  induction hr with
  | refl => exact List.suffix_refl _
  | tail _ hs ih =>
    cases hs with
    | act ha =>
      obtain ⟨s, p, rfl⟩ := advance?_take ha
      exact ih.trans (List.suffix_append _ _)
    | change _ => exact ih

omit [Executor ε] in
theorem Orderly.handling {x : Lifetime μ κ ε} {a : Applying} (h : x.Orderly)
    (hx : x.phase.attempt? = some a) : ∃ limit mode rest, x.Handling limit mode rest a := by
  have h := h.2
  unfold Phase.attempt? at hx
  split at hx
  · next hp =>
    rw [hp] at h
    exact h.elim
  · next hp =>
    cases hx
    rw [hp] at h
    obtain ⟨limit, h⟩ := h
    exact ⟨limit, _, _, h⟩
  · next hp =>
    cases hx
    rw [hp] at h
    obtain ⟨limit, h, -⟩ := h
    exact ⟨limit, _, _, h⟩
  · cases hx

omit [Executor ε] in
theorem Handling.settled_length {x : Lifetime μ κ ε} {limit : Nat} {mode : Mode}
    {rest : List Command} {a : Applying} (h : x.Handling limit mode rest a) (ha : a.Waiting) :
    x.settled.length = a.command.offset := by
  have ho : a.command.offset = x.applied := LawfulLog.offset_eq h.view_applied
  have hu := h.underway
  unfold Underway at hu
  unfold Applying.Waiting at ha
  rw [ho]
  split at hu
  case h_4 ht => simp [ht] at ha
  case h_5 ht => simp [ht] at ha
  all_goals
    rcases hu with hu | ⟨hu, -⟩
    · exact hu.settled.length_eq
    · exact hu.settled.length_eq

omit [Executor ε] in
theorem Halting.concludes {x : Lifetime μ κ ε} (h : x.Halting) {n : Nat} (hn : n < x.applied) :
    ∃ c conclusion status, x.view n = some c ∧
      x.concluded.reverse[n]? = some (c, conclusion) ∧ conclusion ≠ .interrupted ∧
      terminals x.published ⟨c.id, n⟩ = [status] := by
  obtain ⟨handed, settled, reported, hacc, hle, hrep, -⟩ := h
  obtain ⟨c, conclusion, hc, hv, hi⟩ := hacc.concluded.getElem? hn
  obtain ⟨d, status, hd, ht⟩ := hacc.reported.terminals_eq_single
    (fun _ _ _ => hacc.settled.offset_eq fun _ _ => LawfulLog.offset_eq)
    (Nat.lt_of_lt_of_le hn hle)
  obtain ⟨e, _, he, hve, -⟩ :=
    hacc.settled.getElem? (Nat.lt_of_lt_of_le hn (Nat.le_trans hle hrep))
  cases hd.symm.trans he
  cases hv.symm.trans hve
  exact ⟨c, conclusion, status, hv, hc, hi, ht⟩

omit [Executor ε] in
theorem ofSite_orderly {s : Site μ κ ε} (h : s.Fresh) (task : Nat) :
    (ofSite task s).Orderly := by
  obtain ⟨policy, pollTimeout, hr⟩ := h.runner
  refine ⟨h.bounded, ⟨h.calls, rfl, rfl, rfl, ?_, ?_⟩, rfl⟩
  · rw [applied, ofSite, hr]
  · rw [pending, ofSite, hr]

/-- The ledger of a runner is what its tracker has been told, where others only make use of it. -/
theorem ofSite_heard {world : Site μ κ ε → Site μ κ ε → Prop}
    (hw : ∀ s s', world s s' → Tracker.Use s.tracker s'.tracker) {task : Nat} {s : Site μ κ ε}
    {y : Lifetime μ κ ε} (hy : Reaches world (ofSite task s) y) :
    Tracker.Hears y.published s.tracker y.site.tracker := by
  obtain ⟨ps, hp, ht⟩ := hy.heard hw
  rw [hp, ofSite, List.append_nil]
  exact ht

def onTape {ε : Type} (lines : List (List Char)) (broker : Broker) (executor : ε) :
    Site Tape TapeClient ε where
  now := 0
  origin := 0
  log := { lines }
  broker := broker
  tracker := .ofCapacity 1
  executor := executor
  node := { client := {}, tracker := 0, executor := 0, runner := {} }

theorem onTape_fresh {ε : Type} {lines : List (List Char)} (h : lines.length ≤ Word.max)
    (broker : Broker) (executor : ε) : (onTape lines broker executor).Fresh :=
  ⟨rfl, ⟨{}, 100, rfl⟩, h⟩

def grown {ε : Type} (x : Lifetime Tape TapeClient ε) (lines : List (List Char)) :
    Lifetime Tape TapeClient ε :=
  { x with site := { x.site with log := { x.site.log with lines := x.site.log.lines ++ lines } } }

theorem drift_grown {ε : Type} {x : Lifetime Tape TapeClient ε} {lines : List (List Char)}
    (h : x.site.log.lines.length + lines.length ≤ Word.max) : x.site.Drift (x.grown lines).site := by
  refine ⟨Tape.grows_append ?_, rfl, rfl, rfl, rfl, rfl, rfl, rfl, id⟩
  rw [List.length_append]
  exact h

def recordLine (id : CommandId) (statement : String) : List Char :=
  (Record.mk id { statement } 0).line

def creation (name : String) : List Char :=
  recordLine ⟨.stream, name, .create⟩ ("CREATE STREAM " ++ name ++ ";")

end Lifetime

end StatementLog
