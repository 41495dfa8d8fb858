import StatementLog.Proofs.Fleet.Sharing

namespace StatementLog

namespace Fleet

variable {μ κ : Type} [CommandLog μ κ] [LawfulLog μ] {k : Nat} {view : Nat → Option Command}
  {c : Catalog} {b : Broker} {F G : Fleet k μ κ} {i : Fin k} {y : Lifetime μ κ Engine}

structure Tuned (view : Nat → Option Command) (c : Catalog) (b : Broker) (F : Fleet k μ κ) :
    Prop where
  available : F.broker.available = true
  undeletable : F.broker.undeletable = b.undeletable
  orderly (i : Fin k) : (F.node i).Orderly
  launched (i : Fin k) : (∃ r, .finishReplay r ∈ (F.node i).site.calls) → (F.node i).Launched
  started (i : Fin k) : (F.node i).started = (alone view c b (F.node i).settled.length).1
  topics (topic : String) (present : Bool) : Fixed view c b topic present →
    (b.topics.contains topic = present ∨
      ∃ i, ∃ n < (F.node i).settled.length, Changes view c b n topic present) →
        F.broker.topics.contains topic = present

theorem tuned_of_begins (hb : b.available = true) (h : F.Begins c b) :
    F.Tuned view c.startQueries b := by
  have hnode (i : Fin k) : (F.node i).settled = [] ∧ (F.node i).site.calls = [] := by
    obtain ⟨task, s, hs, hf⟩ := h.fresh i
    rw [hs]
    exact ⟨rfl, hf.calls⟩
  refine ⟨?_, ?_, ?_, ?_, ?_, ?_⟩
  · rw [h.broker]
    exact hb
  · rw [h.broker]
  · intro i
    obtain ⟨task, s, hs, hf⟩ := h.fresh i
    rw [hs]
    exact Lifetime.ofSite_orderly hf task
  · rintro i ⟨r, hr⟩
    rw [(hnode i).2] at hr
    cases hr
  · intro i
    rw [(hnode i).1, Lifetime.started, h.catalog]
    rfl
  · rintro topic present - (ht | ⟨i, n, hn, -⟩)
    · rw [h.broker]
      exact ht
    · rw [(hnode i).1] at hn
      exact absurd hn (Nat.not_lt_zero n)

theorem Tuned.needs (h : F.Tuned view c b) (hb : b.available = true) (hs : Steady view c b)
    (i : Fin k) (topic : String) (hn : Needs view c b (F.node i).settled.length topic) :
    F.broker.topics.contains topic =
      (alone view c b (F.node i).settled.length).2.topics.contains topic := by
  have hfix : Fixed view c b topic _ := fun m p hc => (hs _ m topic p hn hc).symm
  refine h.topics topic _ hfix ?_
  rcases contains_alone hb (F.node i).settled.length topic with ht | ⟨m, hm, p, hc⟩
  · exact .inl ht.symm
  · rw [hfix m p hc] at hc
    exact .inr ⟨i, m, hm, hc⟩

theorem Tuned.put (h : F.Tuned view c b) (hg : Grows F.log y.site.log)
    (hav : y.site.broker.available = true) (hun : y.site.broker.undeletable = b.undeletable)
    (ho : y.Orderly) (hl : (∃ r, .finishReplay r ∈ y.site.calls) → y.Launched)
    (hst : y.started = (alone view c b y.settled.length).1)
    (ht : ∀ topic present, Fixed view c b topic present →
      (F.broker.topics.contains topic = present ∨
        ∃ n < y.settled.length, Changes view c b n topic present) →
          y.site.broker.topics.contains topic = present) : (F.put i y).Tuned view c b := by
  refine ⟨hav, hun, ?_, ?_, ?_, ?_⟩
  · intro j
    by_cases hj : j = i
    · rw [hj, node_put_self]
      exact ho
    · rw [node_put_of_ne hj]
      exact (h.orderly j).change (drift_meet hg _)
  · intro j
    by_cases hj : j = i
    · rw [hj, node_put_self]
      exact hl
    · rw [node_put_of_ne hj]
      intro hr
      obtain ⟨hp, hc⟩ := h.launched j hr
      exact ⟨hp, hc⟩
  · intro j
    by_cases hj : j = i
    · rw [hj, node_put_self]
      exact hst
    · rw [node_put_of_ne hj]
      exact h.started j
  · rintro topic present hfix (hp | ⟨j, n, hn, hc⟩)
    · exact ht topic present hfix (.inl (h.topics topic present hfix (.inl hp)))
    · by_cases hj : j = i
      · rw [hj, node_put_self] at hn
        exact ht topic present hfix (.inr ⟨n, hn, hc⟩)
      · rw [node_put_of_ne hj] at hn
        exact ht topic present hfix (.inl (h.topics topic present hfix (.inr ⟨j, n, hn, hc⟩)))

theorem Tuned.act (h : F.Tuned view c b) (hb : b.available = true) (hs : Steady view c b)
    (hv : ∀ n command, (F.node i).view n = some command → view n = some command)
    (hw : Written (F.node i).view) (hy : (F.node i).advance? = some y) :
    (F.put i y).Tuned view c b := by
  have ho := h.orderly i
  have hg : Grows F.log y.site.log := grows_advance ho hy
  have hoy := ho.advance (Lifetime.unterminated_of_written hw) hy
  have hly := Lifetime.launched_advance ho hw (h.launched i) hy
  rcases Lifetime.settle_cases ho hw hy with
    ⟨hset, hbr, hst⟩ | ⟨a, status, -, -, hc, hset, -, hafter⟩
  · have hbr : y.site.broker = F.broker := hbr
    refine h.put hg ?_ ?_ hoy hly ?_ ?_
    · rw [hbr]
      exact h.available
    · rw [hbr]
      exact h.undeletable
    · rw [hset, hst]
      exact h.started i
    · rintro topic present hfix (hp | ⟨n, hn, hc⟩)
      · rw [hbr]
        exact hp
      · rw [hbr]
        rw [hset] at hn
        exact h.topics topic present hfix (.inr ⟨i, n, hn, hc⟩)
  · have hc := hv _ _ hc
    have hbr : (F.node i).site.broker = F.broker := rfl
    -- the node finds the topic that it needs as it would alone, and so it gets the same answer
    rw [h.started i, hbr, settle_alone hb h.available h.undeletable hc (h.needs hb hs i)] at hafter
    obtain ⟨hst, hbr⟩ := Prod.mk.inj hafter
    refine h.put hg ?_ ?_ hoy hly ?_ ?_
    · rw [← hbr, Broker.available_assign]
      exact h.available
    · rw [← hbr, Broker.undeletable_assign]
      exact h.undeletable
    · rw [hset, ← hst, List.length_cons]
    · intro topic present hfix hor
      rw [← hbr]
      refine contains_assign_fixed hc hfix ?_
      rcases hor with hp | ⟨n, hn, hcn⟩
      · exact .inl hp
      · rw [hset, List.length_cons] at hn
        rcases Nat.lt_succ_iff_lt_or_eq.1 hn with hn | rfl
        · exact .inl (h.topics topic present hfix (.inr ⟨i, n, hn, hcn⟩))
        · exact .inr hcn

theorem Tuned.change (h : F.Tuned view c b) {s : Site μ κ Engine}
    (hs : (F.node i).site.Private s) : (F.put i { F.node i with site := s }).Tuned view c b := by
  have hbr : s.broker = F.broker := hs.broker
  refine h.put hs.log ?_ ?_ ((h.orderly i).change hs.toDrift) ?_ ?_ ?_
  · show s.broker.available = true
    rw [hbr]
    exact h.available
  · show s.broker.undeletable = b.undeletable
    rw [hbr]
    exact h.undeletable
  · rintro ⟨r, hr⟩
    have hr : .finishReplay r ∈ s.calls := hr
    rw [hs.calls] at hr
    obtain ⟨hp, hc⟩ := h.launched i ⟨r, hr⟩
    refine ⟨hp, ?_⟩
    rw [Lifetime.started, hs.executor]
    exact hc
  · rw [Lifetime.started, hs.executor]
    exact h.started i
  · rintro topic present hfix (hp | ⟨n, hn, hc⟩)
    · show s.broker.topics.contains topic = present
      rw [hbr]
      exact hp
    · show s.broker.topics.contains topic = present
      rw [hbr]
      exact h.topics topic present hfix (.inr ⟨i, n, hn, hc⟩)

theorem Tuned.grow (h : F.Tuned view c b) {m : μ} (hg : Grows F.log m) :
    Tuned view c b { F with log := m } :=
  ⟨h.available, h.undeletable, fun i => (h.orderly i).change (drift_meet hg _),
    fun i hr => ⟨(h.launched i hr).phase, (h.launched i hr).catalog⟩, h.started, h.topics⟩

theorem view_step (h : F.Step G) {n : Nat} {command : Command}
    (hc : command? F.log n = some command) : command? G.log n = some command := by
  cases h with
  | act hy => exact (congrFun (Lifetime.advance?_view hy).1 n).trans hc
  | change hs => exact hs.log.command? hc
  | grow hg => exact hg.command? hc

theorem Tuned.reaches (hF : F.Tuned view c b) (hb : b.available = true) (hs : Steady view c b)
    (hw : Written view) (h : F.Reaches G)
    (hv : ∀ n command, command? G.log n = some command → view n = some command) :
    G.Tuned view c b := by
  induction h with
  | refl => exact hF
  | @tail G H hG hstep ih =>
    have hvG (n : Nat) (command : Command) (hc : command? G.log n = some command) :
        view n = some command := hv n command (view_step hstep hc)
    have hG := ih hvG
    cases hstep with
    | act hy => exact hG.act hb hs hvG (fun n d hd => hw n d (hvG n d hd)) hy
    | change hp => exact hG.change hp
    | grow hg => exact hG.grow hg

def Agrees (F : Fleet k μ κ) : Prop :=
  ∀ i j, (F.node i).settled.length = (F.node j).settled.length →
    (F.node i).started.sources = (F.node j).started.sources ∧
      (F.node i).started.queries = (F.node j).started.queries

theorem Tuned.agrees (h : F.Tuned view c b) : F.Agrees := by
  intro i j hij
  have he : (F.node i).started = (F.node j).started := by
    rw [h.started i, h.started j, hij]
  exact ⟨congrArg Catalog.sources he, congrArg Catalog.queries he⟩

theorem Tuned.complete (h : F.Tuned view c b) (i j : Fin k) (hi : (F.node i).Complete)
    (hj : (F.node j).Complete) :
    (F.node i).site.executor.catalog.sources = (F.node j).site.executor.catalog.sources ∧
      (F.node i).site.executor.catalog.queries = (F.node j).site.executor.catalog.queries := by
  have hlen (i : Fin k) (hi : (F.node i).Complete) :
      (F.node i).settled.length = LawfulLog.size F.log := by
    have hle := (h.orderly i).settled_le
    have ha : (F.node i).applied = LawfulLog.size F.log := hi.applied
    have hle' : (F.node i).settled.length ≤ LawfulLog.size F.log := hle.2
    omega
  have hagree := h.agrees i j ((hlen i hi).trans (hlen j hj).symm)
  rw [(h.launched i hi.finished).catalog, (h.launched j hj.finished).catalog] at hagree
  exact hagree

end Fleet

end StatementLog
