import StatementLog.Cluster.Basic
import StatementLog.Proofs.Cluster.Following
import StatementLog.Script

namespace StatementLog

variable {μ κ ε : Type}

namespace Station

variable {x y : Station μ κ ε} {a b : Activity} {seat : Option Nat} {seats : Nat → Option Nat}
  {tasks tasks' : List Task} {t : Task} {node n : Nat}

structure Seated (x : Station μ κ ε) (tasks : List Task) (node : Nat) (seats : Nat → Option Nat) :
    Prop where
  has {t : Task} : t ∈ tasks → t.node = node → x.Has t.activity (seats t.number)
  apart {t u : Task} : t ∈ tasks → u ∈ tasks → t.node = node → u.node = node →
    seats t.number = seats u.number → t.number = u.number

theorem Has.accept (h : x.Has a seat) (b : Activity) : (x.accept b).Has a seat := by
  cases seat with
  | none => exact h.of_own rfl rfl
  | some i =>
    obtain ⟨hcalls, c, hc, hbusy⟩ := h
    refine ⟨hcalls, c, ?_, hbusy⟩
    rw [accept, List.getElem?_append_left (List.getElem?_eq_some_iff.1 hc).1]
    exact hc

theorem has_accept (h : b.Calls) : (x.accept b).Has b (some x.callers.length) :=
  ⟨h, .ofCall b, List.getElem?_concat_length, rfl⟩

theorem Has.ne_length (h : x.Has a seat) : seat ≠ some x.callers.length := by
  rintro rfl
  obtain ⟨-, c, hc, -⟩ := h
  exact absurd (List.getElem?_eq_some_iff.1 hc).1 (Nat.lt_irrefl _)

theorem Seated.mono (h : x.Seated tasks node seats)
    (ht : ∀ t ∈ tasks', t.node = node → t ∈ tasks)
    (hy : ∀ a seat, x.Has a seat → y.Has a seat) : y.Seated tasks' node seats where
  has hm hn := hy _ _ (h.has (ht _ hm hn) hn)
  apart hm hm' hn hn' := h.apart (ht _ hm hn) (ht _ hm' hn') hn hn'

theorem Seated.drop (h : x.Seated tasks node seats) (ht : t ∈ tasks) (hn : t.node = node)
    (hk : x.Keeps y (seats t.number)) :
    y.Seated (tasks.filter fun u => u.number != t.number) node seats ∧
      ∀ u ∈ tasks.filter fun u => u.number != t.number, u.node = node →
        seats u.number ≠ seats t.number := by
  have hmem {u : Task} (hu : u ∈ tasks.filter fun u => u.number != t.number) :
      u ∈ tasks ∧ u.number ≠ t.number := by simpa using hu
  have hfree {u : Task} (hu : u ∈ tasks.filter fun u => u.number != t.number)
      (hun : u.node = node) : seats u.number ≠ seats t.number := fun he =>
    (hmem hu).2 (h.apart (hmem hu).1 ht hun hn he)
  exact ⟨⟨fun hu hun => hk _ _ (hfree hu hun) (h.has (hmem hu).1 hun),
    fun hu hv => h.apart (hmem hu).1 (hmem hv).1⟩, fun u hu => hfree hu⟩

theorem Seated.goOn (h : x.Seated tasks node seats) (ht : t ∈ tasks) (hn : t.node = node)
    (ha : y.Has a (seats t.number)) (hk : x.Keeps y (seats t.number)) :
    y.Seated (tasks.map fun u => if u.number == t.number then { u with activity := a } else u)
      node seats := by
  have hmem {u : Task} (hu : u ∈ tasks.map fun u =>
      if u.number == t.number then { u with activity := a } else u) :
      ∃ v ∈ tasks, u.number = v.number ∧ u.node = v.node ∧
        (v.number = t.number ∧ u.activity = a ∨ v.number ≠ t.number ∧ u = v) := by
    obtain ⟨v, hv, rfl⟩ := List.mem_map.1 hu
    refine ⟨v, hv, ?_⟩
    split
    · next he => exact ⟨rfl, rfl, .inl ⟨eq_of_beq he, rfl⟩⟩
    · next he => exact ⟨rfl, rfl, .inr ⟨fun hv => he (beq_iff_eq.2 hv), rfl⟩⟩
  refine ⟨fun {u} hu hun => ?_, fun {u w} hu hw hun hwn he => ?_⟩
  · obtain ⟨v, hv, hnumber, hnode, ⟨hvt, hact⟩ | ⟨hvt, rfl⟩⟩ := hmem hu
    · rw [hnumber, hvt, hact]
      exact ha
    · exact hk _ _ (fun he => hvt (h.apart hv ht hun hn he)) (h.has hv hun)
  · obtain ⟨v, hv, hnumber, hnode, -⟩ := hmem hu
    obtain ⟨v', hv', hnumber', hnode', -⟩ := hmem hw
    rw [hnumber, hnumber'] at he ⊢
    exact h.apart hv hv' (hnode ▸ hun) (hnode' ▸ hwn) he

theorem Seated.take (h : x.Seated tasks node seats) (hfresh : ∀ t ∈ tasks, t.number ≠ n)
    (hfree : ∀ t ∈ tasks, t.node = node → seats t.number ≠ seat) (ha : x.Has a seat) :
    x.Seated (tasks ++ [{ number := n, node, activity := a }]) node
      (Function.update seats n seat) := by
  have hold {t : Task} (ht : t ∈ tasks) : Function.update seats n seat t.number = seats t.number :=
    Function.update_of_ne (hfresh t ht) ..
  have hmem {t : Task} (ht : t ∈ tasks ++ [({ number := n, node, activity := a } : Task)]) :
      t ∈ tasks ∨ t = { number := n, node, activity := a } := by simpa using ht
  refine ⟨fun {t} ht htn => ?_, fun {t u} ht hu htn hun he => ?_⟩
  · rcases hmem ht with ht | rfl
    · rw [hold ht]
      exact h.has ht htn
    · rw [Function.update_self]
      exact ha
  · rcases hmem ht with ht | rfl <;> rcases hmem hu with hu | rfl
    · rw [hold ht, hold hu] at he
      exact h.apart ht hu htn hun he
    · rw [hold ht, Function.update_self] at he
      exact absurd he (hfree t ht htn)
    · rw [hold hu, Function.update_self] at he
      exact absurd he.symm (hfree u hu hun)
    · rfl

end Station

namespace Cluster

variable {c c' : Cluster μ κ ε} {i j k : Nat} {r s s' : Site μ κ ε} {t u : Task}

theorem site?_eq_some : c.site? i = some s ↔ ∃ n tracker executor, c.nodes[i]? = some n ∧
    c.trackers[n.tracker]? = some tracker ∧ c.executors[n.executor]? = some executor ∧
      s = { now := c.now, origin := c.origin, log := c.log, broker := c.broker, tracker, executor
            node := n } := by
  constructor
  · intro h
    obtain ⟨n, hn, h⟩ := Option.bind_eq_some_iff.1 h
    obtain ⟨tracker, htracker, h⟩ := Option.bind_eq_some_iff.1 h
    obtain ⟨executor, hexecutor, h⟩ := Option.bind_eq_some_iff.1 h
    exact ⟨n, tracker, executor, hn, htracker, hexecutor, (Option.some.inj h).symm⟩
  · rintro ⟨n, tracker, executor, hn, htracker, hexecutor, rfl⟩
    simp [site?, hn, htracker, hexecutor]

theorem log_of_site? (h : c.site? i = some s) : s.log = c.log := by
  obtain ⟨_, _, _, -, -, -, rfl⟩ := site?_eq_some.1 h
  rfl

theorem site?_absorb_self (h : c.site? i = some s) (hs : s.Stays s') :
    (c.absorb i s').site? i = some { s' with calls := [] } := by
  obtain ⟨n, tracker, executor, hn, ht, he, rfl⟩ := site?_eq_some.1 h
  have hnode := (List.getElem?_eq_some_iff.1 hn).1
  have htracker := (List.getElem?_eq_some_iff.1 ht).1
  have hexecutor := (List.getElem?_eq_some_iff.1 he).1
  have hn' : s'.node.tracker = n.tracker := hs.tracker
  have he' : s'.node.executor = n.executor := hs.executor
  refine site?_eq_some.2
    ⟨s'.node, s'.tracker, s'.executor, List.getElem?_set_self hnode, ?_, ?_, ?_⟩
  · exact List.getElem?_set_self (hn' ▸ htracker)
  · exact List.getElem?_set_self (he' ▸ hexecutor)
  · simp [absorb, hs.now, hs.origin]

theorem site?_absorb_of_ne (hs : s.Stays s') (hij : i ≠ j)
    (hr : c.site? i = some r) (ht : r.node.tracker ≠ s.node.tracker) :
    ∃ executor, (c.absorb j s').site? i =
      some { r with log := s'.log, broker := s'.broker, executor } := by
  obtain ⟨n, tracker, executor, hn, htracker, he, rfl⟩ := site?_eq_some.1 hr
  have hexecutor : n.executor < (c.executors.set s'.node.executor s'.executor).length := by
    rw [List.length_set]
    exact (List.getElem?_eq_some_iff.1 he).1
  refine ⟨_, site?_eq_some.2 ⟨n, tracker, _, ?_, ?_, List.getElem?_eq_getElem hexecutor, rfl⟩⟩
  · exact (List.getElem?_set_ne hij.symm).trans hn
  · have hne : s'.node.tracker ≠ n.tracker := fun he => ht (he.symm.trans hs.tracker)
    exact (List.getElem?_set_ne hne).trans htracker

variable [CommandLog μ κ] [LawfulLog μ]

omit [CommandLog μ κ] [LawfulLog μ] in
theorem tidy_eq (c : Cluster μ κ ε) (i : Nat) : ∃ f : Node κ → Node κ, c.tidy i = c.mapNode i f ∧
    ∀ n, f n = n ∨ f n = n.dropHandle ∨ f n = n.dropRunner := by
  refine ⟨_, rfl, fun n => ?_⟩
  split
  · exact .inr (.inl rfl)
  · split
    · exact .inr (.inr rfl)
    · exact .inl rfl

omit [CommandLog μ κ] [LawfulLog μ] in
theorem site?_mapNode {f : Node κ → Node κ} (hf : ∀ n, (f n).tracker = n.tracker ∧
    (f n).executor = n.executor) (i : Nat) (h : c.site? j = some s) :
    (c.mapNode i f).site? j = some (if i = j then s.mapNode f else s) := by
  obtain ⟨n, tracker, executor, hn, htracker, hexecutor, rfl⟩ := site?_eq_some.1 h
  refine site?_eq_some.2 ⟨if i = j then f n else n, tracker, executor, ?_, ?_, ?_, ?_⟩
  · rw [mapNode, List.getElem?_modify, hn]
    split <;> rfl
  · split
    · exact (hf n).1 ▸ htracker
    · exact htracker
  · split
    · exact (hf n).2 ▸ hexecutor
    · exact hexecutor
  · split <;> rfl

theorem site?_tidy (hb : LawfulLog.size c.log ≤ Word.max) (i : Nat) (h : c.site? j = some s) :
    ∃ s', (c.tidy i).site? j = some s' ∧ s.Abroad s' := by
  have hlog : LawfulLog.size s.log ≤ Word.max := log_of_site? h ▸ hb
  have hsame : s.Abroad s := ⟨⟨.refl hlog, rfl, rfl, rfl, rfl, rfl, rfl, rfl, id⟩, id, rfl⟩
  obtain ⟨f, he, hf⟩ := c.tidy_eq i
  rw [he]
  refine ⟨_, site?_mapNode (fun n => ?_) i h, ?_⟩
  · rcases hf n with hn | hn | hn <;> rw [hn] <;> exact ⟨rfl, rfl⟩
  · split
    · rw [Site.mapNode]
      rcases hf s.node with hn | hn | hn <;> rw [hn]
      · exact hsame
      · exact ⟨⟨.refl hlog, rfl, rfl, rfl, rfl, rfl, rfl, rfl, fun _ => rfl⟩, id, rfl⟩
      · exact ⟨⟨.refl hlog, rfl, rfl, rfl, rfl, rfl, rfl, rfl, id⟩, id, rfl⟩
    · exact hsame

structure Serving (c : Cluster μ κ ε) : Prop where
  bounded : LawfulLog.size c.log ≤ Word.max
  serves : ∀ t ∈ c.tasks, t.activity.Serves
  numbers : (c.tasks.map Task.number).Nodup
  fresh : ∀ t ∈ c.tasks, t.number < c.nextTask
  trackers : (c.nodes.map Node.tracker).Nodup

namespace Serving

variable {a : Activity}

theorem eq_of_number (h : c.Serving) (ht : t ∈ c.tasks) (hu : u ∈ c.tasks)
    (hn : t.number = u.number) : t = u :=
  List.inj_on_of_nodup_map h.numbers ht hu hn

theorem tracker_ne (h : c.Serving) (hr : c.site? i = some r) (hs : c.site? j = some s)
    (hij : i ≠ j) : r.node.tracker ≠ s.node.tracker := by
  obtain ⟨n, _, _, hn, -, -, rfl⟩ := site?_eq_some.1 hr
  obtain ⟨m, _, _, hm, -, -, rfl⟩ := site?_eq_some.1 hs
  intro he
  have hlt : i < (c.nodes.map Node.tracker).length := by
    rw [List.length_map]
    exact (List.getElem?_eq_some_iff.1 hn).1
  refine hij ((List.getElem?_inj hlt h.trackers).1 ?_)
  rw [List.getElem?_map, List.getElem?_map, hn, hm]
  exact congrArg some he

theorem absorb (h : c.Serving) (hsite : c.site? i = some s) (hs : s.Stays s')
    (hb : LawfulLog.size s'.log ≤ Word.max) : (c.absorb i s').Serving := by
  refine ⟨hb, h.serves, h.numbers, h.fresh, ?_⟩
  obtain ⟨n, _, _, hn, -, -, rfl⟩ := site?_eq_some.1 hsite
  have htracker : (c.nodes.map Node.tracker)[i]? = some s'.node.tracker := by
    rw [List.getElem?_map, hn, hs.tracker]
    rfl
  have htrackers : (c.nodes.set i s'.node).map Node.tracker = c.nodes.map Node.tracker := by
    obtain ⟨hlt, hget⟩ := List.getElem?_eq_some_iff.1 htracker
    rw [List.map_set, ← hget, List.set_getElem_self]
  exact htrackers ▸ h.trackers

theorem setTask (h : c.Serving) (ha : a.Serves) (k : Nat) :
    (c.setTask k fun t => { t with activity := a }).Serving := by
  have hnumber : ∀ t : Task, (if t.number == k then { t with activity := a } else t).number =
      t.number := by
    intro t
    split <;> rfl
  refine ⟨h.bounded, ?_, ?_, ?_, h.trackers⟩
  · intro u hu
    obtain ⟨t, ht, rfl⟩ := List.mem_map.1 hu
    split
    · exact ha
    · exact h.serves t ht
  · have hnumbers : (c.setTask k fun t => { t with activity := a }).tasks.map Task.number =
        c.tasks.map Task.number := by
      rw [Cluster.setTask, List.map_map]
      exact List.map_congr_left fun t _ => hnumber t
    exact hnumbers ▸ h.numbers
  · intro u hu
    obtain ⟨t, ht, rfl⟩ := List.mem_map.1 hu
    rw [hnumber]
    exact h.fresh t ht

theorem removeTask (h : c.Serving) (k : Nat) : (c.removeTask k).Serving :=
  ⟨h.bounded, fun t ht => h.serves t (List.mem_of_mem_filter ht),
    h.numbers.sublist (List.filter_sublist.map _),
    fun t ht => h.fresh t (List.mem_of_mem_filter ht), h.trackers⟩

theorem spawn (h : c.Serving) (ha : a.Serves) (i : Nat) : (c.spawn i a).2.Serving := by
  refine ⟨h.bounded, ?_, ?_, ?_, h.trackers⟩
  · intro t ht
    rcases List.mem_append.1 ht with ht | ht
    · exact h.serves t ht
    · exact List.mem_singleton.1 ht ▸ ha
  · rw [Cluster.spawn, List.map_append, List.nodup_append]
    refine ⟨h.numbers, List.nodup_singleton _, ?_⟩
    intro n hn m hm he
    obtain ⟨t, ht, rfl⟩ := List.mem_map.1 hn
    exact Nat.ne_of_lt (h.fresh t ht) (he.trans (List.mem_singleton.1 hm))
  · intro t ht
    rcases List.mem_append.1 ht with ht | ht
    · exact Nat.lt_succ_of_lt (h.fresh t ht)
    · rw [List.mem_singleton.1 ht]
      exact Nat.lt_succ_self _

theorem reply (h : c.Serving) (replies : List (Nat × Reply)) : { c with replies }.Serving :=
  ⟨h.bounded, h.serves, h.numbers, h.fresh, h.trackers⟩

theorem tidy (h : c.Serving) (i : Nat) : (c.tidy i).Serving := by
  refine ⟨h.bounded, h.serves, h.numbers, h.fresh, ?_⟩
  obtain ⟨f, he, hf⟩ := c.tidy_eq i
  have htrackers : (c.tidy i).nodes.map Node.tracker = c.nodes.map Node.tracker := by
    refine List.ext_getElem? fun j => ?_
    rw [he, mapNode, List.getElem?_map, List.getElem?_map, List.getElem?_modify]
    cases c.nodes[j]? with
    | none => rfl
    | some n =>
      have hn : (f n).tracker = n.tracker := by
        rcases hf n with hn | hn | hn <;> rw [hn] <;> rfl
      simp only [Option.map_eq_map, Option.map_some]
      split
      · rw [hn]
      · rfl
  exact htrackers ▸ h.trackers

end Serving

/-- What the cluster has of a node is the station: its site, what has reached its executor from it,
and the tasks at work on it. -/
structure Shows (c : Cluster μ κ ε) (node : Nat) (x : Station μ κ ε) : Prop where
  sound : x.Sound
  site : ∃ s, c.site? node = some s ∧ s.Alike x.site.calls x.site
  calls : x.site.calls.Sublist (c.history.map ExecutorEvent.call)
  seats : ∃ seats, x.Seated c.tasks node seats

variable {x y : Station μ κ ε} {a : Activity}

omit [CommandLog μ κ] [LawfulLog μ] in
theorem calls_eq_nil (h : c.site? i = some s) : s.calls = [] := by
  obtain ⟨_, _, _, -, -, -, rfl⟩ := site?_eq_some.1 h
  rfl

omit [CommandLog μ κ] [LawfulLog μ] in
theorem Shows.alike (hx : c.Shows i x) (hs : c.site? i = some s) :
    s.Alike x.site.calls x.site := by
  obtain ⟨s₀, hs₀, halike⟩ := hx.site
  cases hs.symm.trans hs₀
  exact halike

variable [Executor ε] [WritableLog μ]

theorem Shows.abroad (hx : c.Shows i x)
    (hs : ∀ s, c.site? i = some s → ∃ s', c'.site? i = some s' ∧ s.Abroad s')
    (ht : ∀ t ∈ c'.tasks, t.node = i → t ∈ c.tasks)
    (hh : (c.history.map ExecutorEvent.call).Sublist (c'.history.map ExecutorEvent.call)) :
    ∃ y, Station.Step x y ∧ c'.Shows i y := by
  obtain ⟨s, hsite, turns, halike⟩ := hx.site
  obtain ⟨s', hsite', habroad⟩ := hs s hsite
  have hstep : Station.Step x (x.move { s' with calls := x.site.calls }) := by
    refine .abroad ⟨⟨?_, ?_, rfl, ?_, ?_, ?_, ?_, ?_, ?_⟩, ?_, ?_⟩
    all_goals rw [halike]
    · exact habroad.log
    · exact habroad.position
    · exact habroad.applied
    · exact habroad.pending
    · exact habroad.policy
    · exact habroad.state
    · exact habroad.terminated
    · exact habroad.stop
    · exact habroad.ready
    · exact habroad.tracker
  obtain ⟨seats, hseats⟩ := hx.seats
  refine ⟨_, hstep, hx.sound.step hstep, ⟨s', hsite', s'.node.turns, ?_⟩, hx.calls.trans hh,
    seats, hseats.mono ht fun _ _ h => h.move _⟩
  rw [calls_eq_nil hsite']
  rfl

theorem Shows.tidy (hx : c.Shows i x) (hb : LawfulLog.size c.log ≤ Word.max) (j : Nat) :
    ∃ y, Station.Step x y ∧ (c.tidy j).Shows i y :=
  hx.abroad (fun _ hs => site?_tidy hb j hs) (fun _ ht _ => ht) (List.Sublist.refl _)

theorem Shows.elsewhere (hc : c.Serving) (hx : c.Shows i x) (hij : i ≠ j)
    (hs : c.site? j = some s) (hstays : s.Stays s') (hgrows : s.Grows s')
    (hb : LawfulLog.size s'.log ≤ Word.max) {tasks : List Task}
    (ht : ∀ t ∈ tasks, t.node = i → t ∈ c.tasks) {nextTask : Nat} {replies : List (Nat × Reply)} :
    ∃ y, Station.Step x y ∧ { c.absorb j s' with tasks, nextTask, replies }.Shows i y := by
  refine hx.abroad (fun r hr => ?_) ht ?_
  · obtain ⟨executor, hsite⟩ := site?_absorb_of_ne hstays hij hr (hc.tracker_ne hr hs hij)
    refine ⟨_, hsite, ⟨?_, rfl, rfl, rfl, rfl, rfl, rfl, rfl, id⟩, id, rfl⟩
    rw [log_of_site? hr, ← log_of_site? hs]
    exact hgrows hb
  · rw [absorb, List.map_append]
    exact List.sublist_append_right ..

theorem Shows.absorb (hx : c.Shows i x) (hs : c.site? i = some s) (hstays : s.Stays s')
    (hxy : x.Reaches y) (ha : s'.Alike x.site.calls y.site) {tasks : List Task} {nextTask : Nat}
    {replies : List (Nat × Reply)} {seats : Nat → Option Nat} (hseats : y.Seated tasks i seats) :
    { c.absorb i s' with tasks, nextTask, replies }.Shows i y := by
  have hsite : ({ c.absorb i s' with tasks, nextTask, replies }).site? i =
      some { s' with calls := [] } := site?_absorb_self hs hstays
  have hcall (n : Node κ) : ExecutorEvent.call ∘ c.observe n = id := rfl
  obtain ⟨turns, ha⟩ := ha
  refine ⟨(Station.life_reaches hx.sound hxy).1, ⟨_, hsite, turns, ?_⟩, ?_, seats, hseats⟩
  · rw [ha]
    rfl
  · rw [ha, Cluster.absorb, List.map_append, List.map_map, hcall, List.map_id]
    exact (List.Sublist.refl _).append hx.calls

theorem Shows.next (hc : c.Serving) (hx : c.Shows t.node x) (ht : t ∈ c.tasks)
    (hs : c.site? t.node = some s) (hstays : s.Stays s')
    (hm : t.activity.step t.number s = .next s' a) (hb : LawfulLog.size s'.log ≤ Word.max) :
    ∃ y, x.Reaches y ∧
      ((c.absorb t.node s').setTask t.number fun u => { u with activity := a }).Shows t.node y := by
  obtain ⟨seats, hseats⟩ := hx.seats
  have halike := hx.alike hs
  have hlog : LawfulLog.size s.log ≤ Word.max := log_of_site? hs ▸ hc.bounded
  obtain ⟨y, hxy, ha, hhas, hkeeps⟩ := (hseats.has ht rfl).follow_next halike hm hlog hb
  exact ⟨y, hxy, hx.absorb hs hstays hxy ha (hseats.goOn ht rfl hhas hkeeps)⟩

theorem Shows.done (hc : c.Serving) (hx : c.Shows t.node x) (ht : t ∈ c.tasks)
    (hs : c.site? t.node = some s) (hstays : s.Stays s') {reply : Reply}
    (hm : t.activity.step t.number s = .done s' reply) (hb : LawfulLog.size s'.log ≤ Word.max)
    (replies : List (Nat × Reply)) : ∃ y, x.Reaches y ∧
      { ((c.absorb t.node s').removeTask t.number).spawnAll t.node t.activity.offspring with
        replies }.Shows t.node y := by
  obtain ⟨seats, hseats⟩ := hx.seats
  have halike := hx.alike hs
  have hlog : LawfulLog.size s.log ≤ Word.max := log_of_site? hs ▸ hc.bounded
  obtain ⟨y, hxy, ha, hkeeps, hends⟩ := (hseats.has ht rfl).follow_done halike hm hlog hb
  obtain ⟨hdrop, hfree⟩ := hseats.drop ht rfl hkeeps
  -- the start that succeeds leaves its seat to the runner, whose retirement comes in as a call
  rcases hends with hend | ⟨hlaunch, hseat, hhas⟩
  · rw [hend]
    exact ⟨y, hxy, hx.absorb hs hstays hxy ha hdrop⟩
  · have hfresh {u : Task} (hu : u ∈ c.tasks.filter fun u => u.number != t.number) :
        u.number < c.nextTask := hc.fresh u (List.mem_of_mem_filter hu)
    have hrunning := hdrop.take (fun u hu => Nat.ne_of_lt (hfresh hu))
      (fun u hu hun => hseat ▸ hfree u hu hun) hhas
    have hboth := (hrunning.mono (fun u hu _ => hu)
      fun a seat h => h.accept (.retiring .watching)).take (n := c.nextTask + 1)
      (fun u hu => ?_) (fun u hu hun => (hrunning.has hu hun).ne_length)
      (Station.has_accept trivial)
    · rw [hlaunch]
      have hcall : Station.Step y (y.accept (.retiring .watching)) := .call trivial
      exact ⟨_, hxy.tail hcall, hx.absorb hs hstays (hxy.tail hcall) ha hboth⟩
    · rcases List.mem_append.1 hu with hu | hu
      · exact Nat.ne_of_lt (Nat.lt_succ_of_lt (hfresh hu))
      · rw [List.mem_singleton.1 hu]
        exact Nat.ne_of_lt (Nat.lt_succ_self _)

omit [CommandLog μ κ] [LawfulLog μ] [Executor ε] [WritableLog μ] in
theorem spawnAll_eq (c : Cluster μ κ ε) (i : Nat) (as : List Activity) : ∃ tasks nextTask,
    c.spawnAll i as = { c with tasks, nextTask } ∧ ∀ t ∈ tasks, t ∈ c.tasks ∨ t.node = i := by
  induction as generalizing c with
  | nil => exact ⟨c.tasks, c.nextTask, rfl, fun _ ht => .inl ht⟩
  | cons a as ih =>
    obtain ⟨tasks, nextTask, he, hm⟩ := ih (c.spawn i a).2
    refine ⟨tasks, nextTask, he, fun t ht => ?_⟩
    rcases hm t ht with ht | ht
    · rcases List.mem_append.1 ht with ht | ht
      · exact .inl ht
      · exact .inr (by rw [List.mem_singleton.1 ht])
    · exact .inr ht

omit [Executor ε] [WritableLog μ] in
theorem Serving.spawnAll (h : c.Serving) {as : List Activity} (ha : ∀ a ∈ as, a.Serves) (i : Nat) :
    (c.spawnAll i as).Serving := by
  induction as generalizing c with
  | nil => exact h
  | cons a as ih =>
    exact ih (h.spawn (ha a List.mem_cons_self) i) fun b hb => ha b (List.mem_cons_of_mem a hb)

theorem Serving.step?_cases (hc : c.Serving) (h : c.step? k = some c') : ∃ t ∈ c.tasks, ∃ s s',
    c.site? t.node = some s ∧ s.Stays s' ∧ s.Grows s' ∧ c'.log = s'.log ∧
    ((∃ a, t.activity.step t.number s = .next s' a ∧ a.Serves ∧
        c' = (c.absorb t.node s').setTask t.number fun u => { u with activity := a }) ∨
      ∃ reply replies, t.activity.step t.number s = .done s' reply ∧
        c' = ({ ((c.absorb t.node s').removeTask t.number).spawnAll t.node
          t.activity.offspring with replies }).tidy t.node) := by
  obtain ⟨t, ht, h⟩ := Option.bind_eq_some_iff.1 h
  obtain ⟨s, hs, h⟩ := Option.bind_eq_some_iff.1 h
  obtain rfl : t.number = k := by simpa using List.find?_some ht
  have ht := List.mem_of_find?_eq_some ht
  have hserves := hc.serves t ht
  have hstays := hserves.step_stays (s := s) t.number
  have hgrows := hserves.step_grows (s := s) t.number
  cases hm : t.activity.step t.number s with
  | wait =>
    rw [hm] at h
    cases h
  | next s' a =>
    rw [hm] at h hstays hgrows
    obtain ⟨ha, hnone⟩ := hserves.next hm
    rw [hnone] at h
    cases h
    exact ⟨t, ht, s, s', hs, hstays, hgrows, rfl, .inl ⟨a, hm, ha, rfl⟩⟩
  | done s' reply =>
    rw [hm] at h hstays hgrows
    cases h
    obtain ⟨tasks, nextTask, he, -⟩ :=
      ((c.absorb t.node s').removeTask t.number).spawnAll_eq t.node t.activity.offspring
    exact ⟨t, ht, s, s', hs, hstays, hgrows, by rw [he]; rfl, .inr ⟨reply, _, hm, rfl⟩⟩

/-- A task takes its next step, somebody calls a node, time goes by, or the broker changes. -/
inductive Step : Cluster μ κ ε → Cluster μ κ ε → Prop where
  | task {c c' : Cluster μ κ ε} (k : Nat) : c.step? k = some c' →
      LawfulLog.size c'.log ≤ Word.max → Step c c'
  | call {c : Cluster μ κ ε} {a : Activity} (node : Nat) : a.IsCall → Step c (c.spawn node a).2
  | clock {c : Cluster μ κ ε} (now : Nat) : Step c { c with now }
  | broker {c : Cluster μ κ ε} (broker : Broker) : Step c { c with broker }

def Reaches : Cluster μ κ ε → Cluster μ κ ε → Prop :=
  Relation.ReflTransGen Step

theorem Serving.step (hc : c.Serving) (h : Step c c') : c'.Serving := by
  cases h with
  | task k h hb =>
    obtain ⟨t, ht, s, s', hs, hstays, -, hlog, ⟨a, -, ha, rfl⟩ | ⟨reply, replies, -, rfl⟩⟩ :=
      hc.step?_cases h
    · exact (hc.absorb hs hstays (hlog ▸ hb)).setTask ha t.number
    · exact ((((hc.absorb hs hstays (hlog ▸ hb)).removeTask t.number).spawnAll
        (hc.serves t ht).offspring t.node).reply replies).tidy t.node
  | call node h => exact hc.spawn h.calls.serves node
  | clock now => exact ⟨hc.bounded, hc.serves, hc.numbers, hc.fresh, hc.trackers⟩
  | broker broker => exact ⟨hc.bounded, hc.serves, hc.numbers, hc.fresh, hc.trackers⟩

theorem Shows.task (hc : c.Serving) (hx : c.Shows i x) (h : c.step? k = some c')
    (hb : LawfulLog.size c'.log ≤ Word.max) : ∃ y, x.Reaches y ∧ c'.Shows i y := by
  -- the node of the task takes its step, and any other sees it from outside
  obtain ⟨t, ht, s, s', hs, hstays, hgrows, hlog, ⟨a, hm, -, rfl⟩ | ⟨reply, replies, hm, rfl⟩⟩ :=
    hc.step?_cases h
  · by_cases hi : i = t.node
    · subst hi
      exact hx.next hc ht hs hstays hm (hlog ▸ hb)
    · have hothers : ∀ u ∈ ((c.absorb t.node s').setTask t.number fun u =>
          { u with activity := a }).tasks, u.node = i → u ∈ c.tasks := by
        intro u hu hun
        obtain ⟨v, hv, rfl⟩ := List.mem_map.1 hu
        by_cases he : v.number = t.number
        · rw [if_pos (beq_iff_eq.2 he), hc.eq_of_number hv ht he] at hun
          exact absurd hun.symm hi
        · rw [if_neg (mt beq_iff_eq.1 he)]
          exact hv
      obtain ⟨y, hy, hshows⟩ := hx.elsewhere hc hi hs hstays hgrows (hlog ▸ hb) hothers
      exact ⟨y, .single hy, hshows⟩
  · have hafter : ∃ y, x.Reaches y ∧ { ((c.absorb t.node s').removeTask t.number).spawnAll t.node
        t.activity.offspring with replies }.Shows i y := by
      by_cases hi : i = t.node
      · subst hi
        exact hx.done hc ht hs hstays hm (hlog ▸ hb) replies
      · obtain ⟨tasks, nextTask, he, htasks⟩ :=
          ((c.absorb t.node s').removeTask t.number).spawnAll_eq t.node t.activity.offspring
        rw [he]
        have hothers : ∀ u ∈ tasks, u.node = i → u ∈ c.tasks := by
          intro u hu hun
          rcases htasks u hu with hu | hu
          · exact List.mem_of_mem_filter hu
          · exact absurd (hun.symm.trans hu) hi
        obtain ⟨y, hy, hshows⟩ := hx.elsewhere hc hi hs hstays hgrows (hlog ▸ hb) hothers
        exact ⟨y, .single hy, hshows⟩
    obtain ⟨y, hxy, hy⟩ := hafter
    obtain ⟨z, hyz, hz⟩ := hy.tidy hb t.node
    exact ⟨z, hxy.tail hyz, hz⟩

theorem Shows.around (hc : c.Serving) (hx : c.Shows i x) (now : Nat) (broker : Broker) :
    ∃ y, x.Reaches y ∧ { c with now, broker }.Shows i y := by
  have hsite : ∀ s, c.site? i = some s → ∃ s', { c with now, broker }.site? i = some s' ∧
      s.Abroad s' := by
    intro s hs
    obtain ⟨n, tracker, executor, hn, htracker, hexecutor, rfl⟩ := site?_eq_some.1 hs
    exact ⟨_, site?_eq_some.2 ⟨n, tracker, executor, hn, htracker, hexecutor, rfl⟩,
      ⟨.refl hc.bounded, rfl, rfl, rfl, rfl, rfl, rfl, rfl, id⟩, id, rfl⟩
  obtain ⟨y, hxy, hy⟩ := hx.abroad hsite (fun t ht _ => ht) (List.Sublist.refl _)
  exact ⟨y, .single hxy, hy⟩

theorem Shows.step (hc : c.Serving) (hx : c.Shows i x) (h : Step c c') :
    ∃ y, x.Reaches y ∧ c'.Shows i y := by
  cases h with
  | task k h hb => exact hx.task hc h hb
  | @call a node h =>
    obtain ⟨seats, hseats⟩ := hx.seats
    by_cases hi : node = i
    · subst hi
      have hcall : Station.Step x (x.accept a) := .call h
      have hcalls : (x.accept a).Seated c.tasks node seats :=
        hseats.mono (fun t ht _ => ht) fun b seat hb => hb.accept a
      exact ⟨_, .single hcall, hx.sound.step hcall, hx.site, hx.calls, _,
        hcalls.take (fun t ht => Nat.ne_of_lt (hc.fresh t ht))
          (fun t ht hn => (hseats.has ht hn).ne_length) (Station.has_accept h.calls)⟩
    · refine ⟨x, .refl, hx.sound, hx.site, hx.calls, seats, hseats.mono (fun t ht hn => ?_)
        fun b seat hb => hb⟩
      rcases List.mem_append.1 ht with ht | ht
      · exact ht
      · rw [List.mem_singleton.1 ht] at hn
        exact absurd hn hi
  | clock now => exact hx.around hc now c.broker
  | broker broker => exact hx.around hc c.now broker

theorem Shows.reaches (hc : c.Serving) (hx : c.Shows i x) (h : Reaches c c') :
    c'.Serving ∧ ∃ y, x.Reaches y ∧ c'.Shows i y := by
  induction h with
  | refl => exact ⟨hc, x, .refl, hx⟩
  | tail _ hs ih =>
    obtain ⟨hd, y, hxy, hy⟩ := ih
    obtain ⟨z, hyz, hz⟩ := hy.step hd hs
    exact ⟨hd.step hs, z, hxy.trans hyz, hz⟩

structure Starts (c : Cluster μ κ ε) (node : Nat) (s : Site μ κ ε) (task : Nat)
    (parts : Parts) : Prop where
  site : c.site? node = some s
  fresh : s.Fresh
  ready : s.node.queue.ready = false
  tracker : ∃ capacity, s.tracker = .ofCapacity capacity
  tasks : ∀ t ∈ c.tasks, t.node = node →
    t.number = task ∧ t.activity = .starting (.checking parts)

/-- However the tasks of a cluster are interleaved, each of its nodes goes through what a station
that started afresh may go through, and its runner through what it may go through by itself. -/
theorem Starts.runs {task : Nat} {parts : Parts} (hc : c.Serving)
    (hi : c.Starts i s task parts) (h : Reaches c c') :
    ∃ x y : Station μ κ ε, x.Fresh ∧ x.site = s ∧ x.Reaches y ∧ c'.Shows i y ∧
      Lifetime.Reaches Site.Drift (.ofSite task s) y.life := by
  let x : Station μ κ ε := { life := .ofSite task s, start := some (.checking parts) }
  have hfresh : x.Fresh := ⟨⟨task, rfl⟩, hi.fresh, hi.ready, hi.tracker, ⟨parts, rfl⟩, rfl⟩
  have hx : c.Shows i x := by
    refine ⟨hfresh.sound, ⟨s, hi.site, s.node.turns, ?_⟩, ?_, fun _ => none, ?_, ?_⟩
    · rw [calls_eq_nil hi.site]
      rfl
    · have hcalls : x.site.calls = [] := hi.fresh.calls
      rw [hcalls]
      exact List.nil_sublist _
    · exact fun ht hn => .inl ⟨_, (hi.tasks _ ht hn).2, rfl⟩
    · exact fun ht hu hn hm _ => (hi.tasks _ ht hn).1.trans (hi.tasks _ hu hm).1.symm
  obtain ⟨-, y, hxy, hy⟩ := hx.reaches hc h
  exact ⟨x, y, hfresh, rfl, hxy, hy, (Station.life_reaches hfresh.sound hxy).2⟩

def couple : Cluster Tape TapeClient Script :=
  let c : Cluster Tape TapeClient Script :=
    ((Cluster.addNode { log := {} } {} {} {}).2.addNode {} {} {}).2
  ((c.spawn 0 (.starting (.checking {}))).2.spawn 1 (.starting (.checking {}))).2

theorem couple_serving : couple.Serving where
  bounded := Nat.zero_le _
  serves t ht := by
    rcases List.mem_pair.1 ht with rfl | rfl <;> trivial
  numbers := by decide
  fresh t ht := by
    rcases List.mem_pair.1 ht with rfl | rfl <;> decide
  trackers := by decide

theorem couple_runs {c : Cluster Tape TapeClient Script} (h : Reaches couple c) :
    ∃ x y : Station Tape TapeClient Script, x.Fresh ∧ x.Reaches y ∧ c.Shows 1 y := by
  obtain ⟨s, hstarts⟩ : ∃ s, couple.Starts 1 s 1 {} := by
    refine ⟨_, rfl, ⟨rfl, ⟨_, _, rfl⟩, Nat.zero_le _⟩, rfl, ⟨_, rfl⟩, fun t ht hn => ?_⟩
    rcases List.mem_pair.1 ht with rfl | rfl
    · cases hn
    · exact ⟨rfl, rfl⟩
  obtain ⟨x, y, hx, -, hxy, hy, -⟩ := hstarts.runs couple_serving h
  exact ⟨x, y, hx, hxy, hy⟩

end Cluster

end StatementLog
