import StatementLog.Proofs.Fleet.Rounds

namespace StatementLog

namespace Fleet

section

variable {μ κ : Type} [CommandLog μ κ] [LawfulLog μ] {view : Nat → Option Command}
  {c : Catalog} {b : Broker} {F : Fleet 3 μ κ}

def stops (m n : Nat) : Fin 3 → Nat
  | 0 => m
  | 1 => n
  | 2 => n + 1

theorem Serving.steady_of_agrees (h : F.Serving view) (hb : b.available = true)
    (hbr : F.broker = b) (hat : ∀ i, Stands view c b F i 0)
    (hv : ∀ n < LawfulLog.size F.log, (view n).isSome)
    (hagree : ∀ G, F.Reaches G → command? G.log = view → G.Agrees) : Steady view c b := by
  intro n m topic present hneeds hchanges
  obtain ⟨needing, hvn, hreq⟩ := hneeds
  obtain ⟨changing, hvm, hch⟩ := hchanges
  by_contra hne
  have hmax : ∃ i, max m (n + 1) ≤ stops m n i := by
    rcases Nat.le_total m (n + 1) with hle | hle
    · exact ⟨2, Nat.max_le.2 ⟨hle, Nat.le_refl _⟩⟩
    · exact ⟨0, Nat.max_le.2 ⟨Nat.le_refl _, hle⟩⟩
  have hread (l : Nat) (hl : l < max m (n + 1)) : (view l).isSome := by
    have hm := h.lt_size hvm
    have hn := h.lt_size hvn
    exact hv l (by omega)
  -- node 0 stands where the topic changes, node 1 where it is needed, and node 2 is past that
  obtain ⟨G, hG, hGs, hGbr, hGat⟩ := h.exists_rounds hb hbr hat (stops m n) _ hmax hread
  have hstands (i : Fin 3) (hle : stops m n i ≤ max m (n + 1)) :
      Stands view c b G i (stops m n i) := by
    have hat := hGat i
    rwa [Nat.min_eq_right hle] at hat
  have hmaker : Stands view c b G 0 m := hstands 0 (Nat.le_max_left ..)
  have hneedy : Stands view c b G 1 n :=
    hstands 1 (Nat.le_trans (Nat.le_succ n) (Nat.le_max_right ..))
  have hpassed : Stands view c b G 2 (n + 1) := hstands 2 (Nat.le_max_right ..)
  have hGav : G.broker.available = true := by
    rw [hGbr]
    exact alone_available hb _
  have hGun : G.broker.undeletable = b.undeletable := by
    rw [hGbr]
    exact alone_undeletable hb _
  obtain ⟨H, hH, hHs, -, hHafter, hHothers⟩ :=
    hGs.exists_settled (i := 0) hGav (hmaker.settled ▸ hvm)
  have hHbr : H.broker = G.broker.assign (some (topic, present)) := by
    have hafter := (Prod.mk.inj hHafter).2
    rw [hmaker.started, Catalog.settle, Plan.settle_broker hGav, hGun, hch] at hafter
    exact hafter
  have hHav : H.broker.available = true := by
    rw [hHbr, Broker.available_assign]
    exact hGav
  have hHcontains : H.broker.topics.contains topic = present := by
    rw [hHbr, Broker.contains_assign]
    exact if_pos rfl
  obtain ⟨hHset, hHst⟩ := hHothers 1 (by decide)
  obtain ⟨hHset', hHst'⟩ := hHothers 2 (by decide)
  have hvn' : view (H.node 1).settled.length = some needing := by
    rw [hHset, hneedy.settled]
    exact hvn
  obtain ⟨K, hK, hKs, hKlen, hKafter, hKothers⟩ := hHs.exists_settled hHav hvn'
  obtain ⟨hKset, hKst⟩ := hKothers 2 (by decide)
  have hlen : (K.node 1).settled.length = (K.node 2).settled.length := by
    rw [hKlen, hHset, hKset, hHset', hneedy.settled, hpassed.settled]
  have hsame := (hagree K ((hG.trans hH).trans hK) hKs.view 1 2 hlen).1
  have hfirst := (Prod.mk.inj hKafter).1
  rw [hfirst, hHst, hneedy.started, hKst, hHst', hpassed.started, alone_succ hvn] at hsame
  refine Catalog.settle_sources_ne (alone_available hb n) hHav hreq ?_ hsame
  rw [hHcontains]
  exact fun he => hne he.symm

end

variable {μ κ : Type} [CommandLog μ κ] [LawfulLog μ]

def ofClient (k : Nat) (m : μ) (client : κ) (c : Catalog) (b : Broker)
    (policy : RetryPolicy) : Fleet k μ κ where
  log := m
  broker := b
  member i := .ofSite i.val {
    now := 0
    origin := 0
    log := m
    broker := b
    tracker := .ofCapacity 1
    executor := { catalog := c }
    node := { client, tracker := 0, executor := 0, runner := { policy } } }

theorem ofClient_begins {m : μ} (hm : LawfulLog.size m ≤ Word.max) (k : Nat) (client : κ)
    (c : Catalog) (b : Broker) (policy : RetryPolicy) :
    (ofClient k m client c b policy).Begins c b :=
  ⟨rfl, fun i => ⟨i.val, _, rfl, rfl, ⟨policy, 100, rfl⟩, hm⟩, fun _ => rfl⟩

theorem ofClient_serving {m : μ} {client : κ} (hm : LawfulLog.size m ≤ Word.max)
    (hc : CommandLog.check m client = .ok ())
    (hr : ∀ n < LawfulLog.size m, (command? m n).isSome) (hw : Written (command? m)) (k : Nat)
    (c : Catalog) (b : Broker) : (ofClient k m client c b {}).Serving (command? m) := by
  refine ⟨rfl, ?_⟩
  intro i
  obtain ⟨task, s, hs, hf⟩ := (ofClient_begins hm k client c b {}).fresh i
  refine ⟨⟨hr, hc, rfl, rfl, trivial⟩, ?_, hw, ?_⟩
  · rw [hs]
    exact Lifetime.ofSite_orderly hf task
  · rw [hs]
    exact Lifetime.ofSite_enduring hf task

/-- Whatever their number and whatever the order of their steps, nodes that share a log and a broker
have the same sources and queries whenever they have settled as many commands, if and only if the
topics of the log are steady; and then they have the same metadata when all is concluded and the
replays are over. -/
theorem nodes_agree_iff_steady {m : μ} {client : κ} (c : Catalog) {b : Broker}
    (hb : b.available = true) (hm : LawfulLog.size m ≤ Word.max)
    (hc : CommandLog.check m client = .ok ())
    (hr : ∀ n < LawfulLog.size m, (command? m n).isSome) (hw : Written (command? m)) :
    ((∀ (k : Nat) (F G : Fleet k μ κ), F.Begins c b → F.Reaches G → command? G.log = command? m →
        G.Agrees) ↔ Steady (command? m) c.startQueries b) ∧
    (Steady (command? m) c.startQueries b → ∀ (k : Nat) (F G : Fleet k μ κ), F.Begins c b →
      F.Reaches G → command? G.log = command? m → ∀ i j, (G.node i).Complete →
        (G.node j).Complete →
          (G.node i).site.executor.catalog.sources = (G.node j).site.executor.catalog.sources ∧
          (G.node i).site.executor.catalog.queries =
            (G.node j).site.executor.catalog.queries) := by
  have htuned (hs : Steady (command? m) c.startQueries b) {k : Nat} {F G : Fleet k μ κ}
      (hF : F.Begins c b) (hG : F.Reaches G) (hv : command? G.log = command? m) :
      G.Tuned (command? m) c.startQueries b :=
    (tuned_of_begins hb hF).reaches hb hs hw hG fun n d hd => (congrFun hv n).symm.trans hd
  refine ⟨⟨?_, ?_⟩, ?_⟩
  · intro hagree
    -- three nodes are enough: one stands before the topic is needed, one changes it, one is past it
    have hbegins := ofClient_begins hm 3 client c b {}
    refine (ofClient_serving hm hc hr hw 3 c b).steady_of_agrees hb rfl ?_ hr
      fun G hG hv => hagree 3 _ G hbegins hG hv
    exact fun i => ⟨rfl, rfl⟩
  · exact fun hs k F G hF hG hv => (htuned hs hF hG hv).agrees
  · exact fun hs k F G hF hG hv => (htuned hs hF hG hv).complete

theorem exists_one_then_other (F : Fleet 2 Tape TapeClient) {n n' : Nat}
    {x y : Lifetime Tape TapeClient Engine} (hx : Lifetime.steps? n (F.node 0) = some x)
    (hy : Lifetime.steps? n' ((F.node 1).meet x.site.log x.site.broker) = some y) :
    ∃ G, F.Reaches G ∧ G.log = y.site.log ∧ G.node 0 = x.meet y.site.log y.site.broker ∧
      G.node 1 = y := by
  obtain ⟨G, hG, hGx, -, -, hGothers⟩ := exists_reaches (Lifetime.steps?_reaches hx)
  rw [← hGothers 1 (by decide)] at hy
  obtain ⟨H, hH, hHy, hHl, -, hHothers⟩ := exists_reaches (Lifetime.steps?_reaches hy)
  have hHx := hHothers 0 (by decide)
  rw [hGx] at hHx
  exact ⟨H, hG.trans hH, hHl, hHx, hHy⟩

theorem steady_creation : Steady (command? ({ lines := [Lifetime.creation "A"] } : Tape))
    (Catalog.startQueries {}) (.ofTopics ["A"]) := by
  have hplan : ((command? ({ lines := [Lifetime.creation "A"] } : Tape) 0).all fun d =>
      ((Catalog.startQueries {}).plan d .live).change? ∅ = none) = true := by
    decide +kernel
  rintro n m topic present - ⟨d, hd, hc⟩
  have hm : m < 1 := LawfulLog.lt_size hd
  obtain rfl : m = 0 := Nat.lt_one_iff.1 hm
  rw [hd] at hplan
  cases (of_decide_eq_true hplan).symm.trans hc

set_option maxRecDepth 10000 in
theorem nodes_agree_on_creation :
    ∃ F G : Fleet 2 Tape TapeClient, F.Begins {} (.ofTopics ["A"]) ∧ F.Reaches G ∧ G.Agrees ∧
      (G.node 0).Complete ∧ (G.node 1).Complete ∧
      ((G.node 0).site.executor.catalog.source? "A").isSome = true ∧
      (G.node 0).site.executor.catalog.sources = (G.node 1).site.executor.catalog.sources := by
  let m : Tape := { lines := [Lifetime.creation "A"] }
  let F : Fleet 2 Tape TapeClient := ofClient 2 m {} {} (.ofTopics ["A"]) {}
  have hrun : ((Lifetime.steps? 19 (F.node 0)).bind fun x =>
      (Lifetime.steps? 19 ((F.node 1).meet x.site.log x.site.broker)).map fun y =>
        decide (x.applied = 1 ∧ Lifetime.finished x.site.calls = true ∧ y.applied = 1 ∧
          Lifetime.finished y.site.calls = true ∧
          y.site.log = { lines := [Lifetime.creation "A"] } ∧
          (x.site.executor.catalog.source? "A").isSome = true)) = some true := by
    decide +kernel
  obtain ⟨x, hx, hrun⟩ := Option.bind_eq_some_iff.1 hrun
  obtain ⟨y, hy, hrun⟩ := Option.map_eq_some_iff.1 hrun
  obtain ⟨hax, hdx, hay, hdy, hl, hsx⟩ := of_decide_eq_true hrun
  obtain ⟨G, hG, hGl, hGx, hGy⟩ := exists_one_then_other F hx hy
  have hb : (Broker.ofTopics ["A"]).available = true := rfl
  have hcheck : CommandLog.check m ({} : TapeClient) = .ok () := rfl
  have hread : ∀ n < LawfulLog.size m, (command? m n).isSome := by
    intro n hn
    obtain rfl : n = 0 := Nat.lt_one_iff.1 hn
    decide +kernel
  have hview : command? G.log = command? m := by rw [hGl, hl]
  have hfirst : (G.node 0).Complete := by
    rw [hGx, hl]
    exact ⟨hax, Lifetime.finished_sound hdx⟩
  have hsecond : (G.node 1).Complete := by
    rw [hGy]
    refine ⟨?_, Lifetime.finished_sound hdy⟩
    rw [hay, hl]
    rfl
  obtain ⟨hiff, hcomplete⟩ := nodes_agree_iff_steady {} hb (by decide) hcheck hread
    (Lifetime.written_sound (by decide +kernel))
  refine ⟨F, G, ofClient_begins (by decide) 2 _ _ _ _, hG, ?_, hfirst, hsecond, ?_, ?_⟩
  · exact hiff.2 steady_creation 2 F G (ofClient_begins (by decide) 2 _ _ _ _) hG hview
  · rw [hGx]
    exact hsx
  · exact (hcomplete steady_creation 2 F G (ofClient_begins (by decide) 2 _ _ _ _) hG hview 0 1
      hfirst hsecond).1

def sharedTopic : List (List Char) :=
  [Lifetime.recordLine ⟨.stream, "A", .create⟩ "CREATE STREAM A (X INT) WITH (KAFKA_TOPIC='t');",
    Lifetime.recordLine ⟨.stream, "B", .create⟩ "CREATE STREAM B (X INT) WITH (KAFKA_TOPIC='t');",
    Lifetime.recordLine ⟨.stream, "A", .drop⟩ "DROP STREAM A DELETE TOPIC;"]

set_option maxRecDepth 10000 in
/-- The node that comes second finds the topic deleted, and creates neither stream. -/
theorem nodes_disagree_on_sharedTopic :
    ∃ F G : Fleet 2 Tape TapeClient, F.Begins {} (.ofTopics ["t"]) ∧ F.Reaches G ∧
      Written (command? G.log) ∧ (G.node 0).Complete ∧ (G.node 1).Complete ∧
      ((G.node 0).site.executor.catalog.source? "B").isSome = true ∧
      (G.node 1).site.executor.catalog.source? "B" = none := by
  let F : Fleet 2 Tape TapeClient :=
    ofClient 2 { lines := sharedTopic } {} {} (.ofTopics ["t"]) { maxRetries := 0 }
  have hrun : ((Lifetime.steps? 29 (F.node 0)).bind fun x =>
      (Lifetime.steps? 29 ((F.node 1).meet x.site.log x.site.broker)).map fun y =>
        decide (x.applied = 3 ∧ Lifetime.finished x.site.calls = true ∧ y.applied = 3 ∧
          Lifetime.finished y.site.calls = true ∧ y.site.log = { lines := sharedTopic } ∧
          Lifetime.written y.site.log = true ∧
          (x.site.executor.catalog.source? "B").isSome = true ∧
          y.site.executor.catalog.source? "B" = none)) = some true := by
    decide +kernel
  obtain ⟨x, hx, hrun⟩ := Option.bind_eq_some_iff.1 hrun
  obtain ⟨y, hy, hrun⟩ := Option.map_eq_some_iff.1 hrun
  obtain ⟨hax, hdx, hay, hdy, hl, hw, hsx, hsy⟩ := of_decide_eq_true hrun
  obtain ⟨G, hG, hGl, hGx, hGy⟩ := exists_one_then_other F hx hy
  refine ⟨F, G, ofClient_begins (by decide) 2 _ _ _ _, hG, ?_, ?_, ?_, ?_, ?_⟩
  · rw [hGl]
    exact Lifetime.written_sound hw
  · rw [hGx, hl]
    exact ⟨hax, Lifetime.finished_sound hdx⟩
  · rw [hGy]
    refine ⟨?_, Lifetime.finished_sound hdy⟩
    rw [hay, hl]
    rfl
  · rw [hGx]
    exact hsx
  · rw [hGy]
    exact hsy

end Fleet

end StatementLog
