import StatementLog.Proofs.Fleet.Agreement

namespace StatementLog

namespace Fleet

variable {μ κ : Type} [CommandLog μ κ] [LawfulLog μ] {k : Nat} {view : Nat → Option Command}
  {c : Catalog} {b : Broker} {F G : Fleet k μ κ} {i j : Fin k}

structure Serving (view : Nat → Option Command) (F : Fleet k μ κ) : Prop where
  view : command? F.log = view
  node (i : Fin k) : (F.node i).Serving

structure Stands (view : Nat → Option Command) (c : Catalog) (b : Broker) (F : Fleet k μ κ)
    (i : Fin k) (n : Nat) : Prop where
  settled : (F.node i).settled.length = n
  started : (F.node i).started = (alone view c b n).1

theorem Serving.lt_size (h : F.Serving view) {n : Nat} {command : Command}
    (hv : view n = some command) : n < LawfulLog.size F.log :=
  LawfulLog.lt_size ((congrFun h.view n).trans hv)

theorem Serving.exists_settled (h : F.Serving view) (hb : F.broker.available = true)
    {command : Command} (hv : view (F.node i).settled.length = some command) :
    ∃ G, F.Reaches G ∧ G.Serving view ∧
      (G.node i).settled.length = (F.node i).settled.length + 1 ∧
      ((G.node i).started, G.broker) = ((F.node i).started.settle F.broker command).2 ∧
      ∀ j, j ≠ i → (G.node j).settled = (F.node j).settled ∧
        (G.node j).started = (F.node j).started := by
  obtain ⟨y, d, hd, hy, hys, hread, hlen, hafter⟩ :=
    (h.node i).exists_settled passing_private hb (h.lt_size hv)
  have hd : command? F.log (F.node i).settled.length = some d := hd
  rw [h.view] at hd
  cases hv.symm.trans hd
  obtain ⟨G, hG, hi, hl, hbr, hothers⟩ := exists_reaches hy
  have hview : command? G.log = view := by
    rw [hl]
    exact hread.view.trans h.view
  refine ⟨G, hG, ⟨hview, ?_⟩, ?_, ?_, ?_⟩
  · intro j
    by_cases hj : j = i
    · rw [hj, hi]
      exact hys
    · have hgrows : Grows F.log y.site.log :=
        ⟨Nat.le_of_eq hread.size.symm, fun _ => congrFun hread.view _,
          hread.size ▸ (h.node i).orderly.1⟩
      rw [hothers j hj]
      exact (h.node j).drift (drift_meet hgrows _) hread.view hread.size
        ((hread.checks _).trans (h.node j).check) (h.node j).stop (h.node j).aborted
  · rw [hi]
    exact hlen
  · rw [hi, hbr]
    exact hafter
  · intro j hj
    rw [hothers j hj]
    exact ⟨rfl, rfl⟩

theorem Serving.exists_settled_by (h : F.Serving view) (hb : b.available = true) {n : Nat}
    {command : Command} (hv : view n = some command) {l : List (Fin k)} (hl : l.Nodup)
    (hbr : F.broker = (alone view c b n).2 ∨ F.broker = (alone view c b (n + 1)).2)
    (hat : ∀ i ∈ l, Stands view c b F i n) :
    ∃ G, F.Reaches G ∧ G.Serving view ∧ (∀ i ∈ l, Stands view c b G i (n + 1)) ∧
      (∀ i, i ∉ l → (G.node i).settled = (F.node i).settled ∧
        (G.node i).started = (F.node i).started) ∧
      (l ≠ [] ∨ F.broker = (alone view c b (n + 1)).2 →
        G.broker = (alone view c b (n + 1)).2) := by
  -- the first node may change the topics; those after it find them as the command leaves them
  induction l generalizing F with
  | nil =>
    refine ⟨F, .refl, h, by simp, fun _ _ => ⟨rfl, rfl⟩, ?_⟩
    rintro (hn | hbr)
    · exact absurd rfl hn
    · exact hbr
  | cons i l ih =>
    obtain ⟨hi, hl⟩ := List.nodup_cons.1 hl
    obtain ⟨hset, hst⟩ := hat i (List.mem_cons_self ..)
    have hav : F.broker.available = true := by
      rcases hbr with hbr | hbr
      · rw [hbr]
        exact alone_available hb n
      · rw [hbr]
        exact alone_available hb (n + 1)
    have hafter : ((F.node i).started.settle F.broker command).2 = alone view c b (n + 1) := by
      rw [hst, alone_succ hv]
      rcases hbr with hbr | hbr
      · rw [hbr]
      · rw [hbr, alone_succ hv]
        exact Catalog.settle_twice (alone_available hb n)
    obtain ⟨G, hG, hGs, hlen, hGi, hothers⟩ := h.exists_settled hav (hset ▸ hv)
    rw [hafter] at hGi
    obtain ⟨hGst, hGbr⟩ := Prod.mk.inj hGi
    have hatG : ∀ j ∈ l, Stands view c b G j n := by
      intro j hj
      have hne : j ≠ i := fun he => hi (he ▸ hj)
      obtain ⟨hjset, hjst⟩ := hat j (List.mem_cons_of_mem _ hj)
      obtain ⟨hs, ht⟩ := hothers j hne
      exact ⟨(congrArg _ hs).trans hjset, ht.trans hjst⟩
    obtain ⟨H, hH, hHs, hHl, hHothers, hHbr⟩ := ih hGs hl (.inr hGbr) hatG
    refine ⟨H, hG.trans hH, hHs, ?_, ?_, fun _ => hHbr (.inr hGbr)⟩
    · intro j hj
      rcases List.mem_cons.1 hj with rfl | hj
      · obtain ⟨hs, ht⟩ := hHothers j hi
        refine ⟨?_, ht.trans hGst⟩
        rw [hs, hlen, hset]
      · exact hHl j hj
    · intro j hj
      obtain ⟨hji, hjl⟩ := not_or.1 (List.mem_cons.not.1 hj)
      obtain ⟨hs, ht⟩ := hothers j hji
      obtain ⟨hs', ht'⟩ := hHothers j hjl
      exact ⟨hs'.trans hs, ht'.trans ht⟩

theorem Serving.exists_rounds (h : F.Serving view) (hb : b.available = true) (hbr : F.broker = b)
    (hat : ∀ i, Stands view c b F i 0) (target : Fin k → Nat) (n : Nat)
    (hn : ∃ i, n ≤ target i) (hv : ∀ m < n, (view m).isSome) :
    ∃ G, F.Reaches G ∧ G.Serving view ∧ G.broker = (alone view c b n).2 ∧
      ∀ i, Stands view c b G i (min n (target i)) := by
  induction n with
  | zero =>
    refine ⟨F, .refl, h, hbr, ?_⟩
    intro i
    rw [Nat.zero_min]
    exact hat i
  | succ n ih =>
    obtain ⟨i, hi⟩ := hn
    obtain ⟨G, hG, hGs, hGbr, hGat⟩ := ih ⟨i, Nat.le_of_succ_le hi⟩ fun m hm =>
      hv m (Nat.lt_succ_of_lt hm)
    obtain ⟨command, hc⟩ := Option.isSome_iff_exists.1 (hv n (Nat.lt_succ_self n))
    let l := (List.finRange k).filter fun j => n < target j
    have hmem (j : Fin k) : j ∈ l ↔ n < target j := by simp [l]
    have hatn : ∀ j ∈ l, Stands view c b G j n := by
      intro j hj
      have hle := Nat.le_of_lt ((hmem j).1 hj)
      have hj := hGat j
      rw [Nat.min_eq_left hle] at hj
      exact hj
    obtain ⟨H, hH, hHs, hHl, hHothers, hHbr⟩ :=
      hGs.exists_settled_by hb hc ((List.nodup_finRange k).filter _) (.inl hGbr) hatn
    have hne : l ≠ [] := List.ne_nil_of_mem ((hmem i).2 hi)
    refine ⟨H, hG.trans hH, hHs, hHbr (.inl hne), ?_⟩
    intro j
    by_cases hj : n < target j
    · rw [Nat.min_eq_left hj]
      exact hHl j ((hmem j).2 hj)
    · obtain ⟨hs, ht⟩ := hHothers j fun hl => hj ((hmem j).1 hl)
      obtain ⟨hset, hst⟩ := hGat j
      have hmin : min (n + 1) (target j) = min n (target j) := by omega
      rw [hmin]
      exact ⟨(congrArg _ hs).trans hset, ht.trans hst⟩

end Fleet

end StatementLog
