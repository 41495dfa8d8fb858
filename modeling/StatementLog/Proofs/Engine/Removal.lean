import StatementLog.Proofs.Engine.Accounting
import StatementLog.Proofs.Statement.Quoting

namespace StatementLog

open Std

namespace Statement

theorem read_names {text : String} {statement : Statement} (h : read text = .ok statement) :
    statement.Names :=
  readTrimmed_names h

end Statement

namespace Catalog

variable {c d : Catalog} {command : Command} {mode : Mode} {statement : Statement} {name : String}

theorem mark_not_mem_toString {q : Char} (hq : Statement.IsMark q) (n : Nat) :
    q ∉ (toString n).toList := by
  rw [Nat.toString_eq_repr, Nat.toList_repr]
  intro hm
  have hdigit := Nat.isDigit_of_mem_toDigits (by decide) (by decide) hm
  rcases hq with rfl | rfl <;> exact absurd hdigit (by decide)

theorem quotable_insertQueryId (offset : Nat) : Statement.Quotable (insertQueryId offset) := by
  have hq : Statement.IsMark Statement.backquote := .inl rfl
  refine Statement.Fits.quotable ⟨hq, ?_, by simp [insertQueryId]⟩
  simpa [insertQueryId, Statement.backquote] using mark_not_mem_toString hq offset

theorem quotable_selectQueryId (h : Statement.Quotable name) (kind : SourceKind) (offset : Nat) :
    Statement.Quotable (selectQueryId kind name offset) := by
  have hname : Statement.markFor name ∉ (name.map Char.toUpper).toList := by
    rw [String.toList_map]
    exact Statement.not_mem_upper h.mark h.apart
  have hoffset := mark_not_mem_toString h.mark offset
  have hrest : Statement.markFor name ∉ "CSAS_".toList ∧ Statement.markFor name ∉ "CTAS_".toList ∧
      Statement.markFor name ∉ "_".toList := by
    rcases h.mark with hq | hq <;> rw [hq] <;> decide
  obtain ⟨hstream, htable, hunderscore⟩ := hrest
  refine Statement.Fits.quotable ⟨h.mark, ?_, by cases kind <;> simp [selectQueryId]⟩
  cases kind with
  | stream =>
    simp only [selectQueryId, String.toList_append, List.mem_append, not_or]
    exact ⟨⟨⟨hstream, hname⟩, hunderscore⟩, hoffset⟩
  | table =>
    simp only [selectQueryId, String.toList_append, List.mem_append, not_or]
    exact ⟨⟨⟨htable, hname⟩, hunderscore⟩, hoffset⟩

structure Quotable (c : Catalog) : Prop where
  source {k : String} {s : Source} : c.sources[k]? = some s → Statement.Quotable k
  query {k : String} {q : Query} : c.queries[k]? = some q → Statement.Quotable k

theorem Coherent.mem_queriesTouching {topic : Option String} (h : c.Coherent topic) {k : String} :
    k ∈ c.queriesTouching name ↔ ∃ q, c.queries[k]? = some q ∧ q.touches name = true := by
  simp only [queriesTouching, List.mem_map, List.mem_filter]
  constructor
  · rintro ⟨q, ⟨⟨⟨key, _⟩, hq, rfl⟩, ht⟩, rfl⟩
    have hq := ExtTreeMap.mem_toList_iff_getElem?_eq_some.1 hq
    exact ⟨_, h.query_key hq ▸ hq, ht⟩
  · rintro ⟨q, hq, ht⟩
    exact ⟨q, ⟨⟨(k, q), ExtTreeMap.mem_toList_iff_getElem?_eq_some.2 hq, rfl⟩, ht⟩, h.query_key hq⟩

theorem Coherent.nodup_queriesTouching {topic : Option String} (h : c.Coherent topic)
    (name : String) : (c.queriesTouching name).Nodup := by
  have hkeys : (c.queries.toList.map Prod.snd).map Query.id = c.queries.keys := by
    rw [← ExtTreeMap.map_fst_toList_eq_keys, List.map_map]
    refine List.map_congr_left fun ⟨k, q⟩ hq => ?_
    exact h.query_key (ExtTreeMap.mem_toList_iff_getElem?_eq_some.1 hq)
  have hsub : List.Sublist (c.queriesTouching name) c.queries.keys :=
    hkeys ▸ List.filter_sublist.map _
  exact hsub.nodup ExtTreeMap.nodup_keys

namespace Quotable

theorem addSource (h : c.Quotable) {s : Source} (hs : Statement.Quotable s.name) :
    (c.addSource s).Quotable where
  source {k t} ht := by
    simp only [Catalog.addSource, ExtTreeMap.getElem?_insert, Std.compare_eq_iff_eq] at ht
    split at ht
    · next hk => exact hk ▸ hs
    · exact h.source ht
  query := h.query

theorem addQuery (h : c.Quotable) {q : Query} (hq : Statement.Quotable q.id) :
    (c.addQuery q).Quotable where
  source := h.source
  query {k p} hp := by
    simp only [Catalog.addQuery, ExtTreeMap.getElem?_insert, Std.compare_eq_iff_eq] at hp
    split at hp
    · next hk => exact hk ▸ hq
    · exact h.query hp

theorem change (h : c.Quotable) (hs : statement.Names) (hd : Change command mode c statement d) :
    d.Quotable := by
  cases hd with
  | skip => exact h
  | createSource _ => exact h.addSource (Statement.IsName.quotable hs)
  | @createAsSelect kind name sources _ _ _ =>
    have hname := Statement.IsName.quotable hs
    have hadded := h.addSource (s := newSource command kind name name) hname
    have hmanaged : ((c.addSource (newSource command kind name name)).manage name).Quotable :=
      ⟨hadded.source, hadded.query⟩
    exact hmanaged.addQuery (quotable_selectQueryId hname kind command.offset)
  | insertInto _ _ _ => exact h.addQuery (quotable_insertQueryId command.offset)
  | dropSource _ _ _ =>
    refine ⟨fun hs => ?_, h.query⟩
    simp only [ExtTreeMap.getElem?_erase] at hs
    split at hs
    · cases hs
    · exact h.source hs
  | terminateQuery _ =>
    refine ⟨h.source, fun hq => ?_⟩
    simp only [ExtTreeMap.getElem?_erase] at hq
    split at hq
    · cases hq
    · exact h.query hq
  | terminateCluster => constructor <;> simp

theorem startQueries (h : c.Quotable) : c.startQueries.Quotable where
  source := h.source
  query {k q} hq := by
    simp only [Catalog.startQueries, ExtTreeMap.getElem?_map, Option.map_eq_some_iff] at hq
    obtain ⟨p, hp, -⟩ := hq
    exact h.query hp

theorem ofTopic? (topic : Option String) : (Engine.ofTopic? topic).catalog.Quotable := by
  cases topic with
  | none => constructor <;> simp [Engine.ofTopic?]
  | some topic =>
    have hname : Statement.Quotable commandsStream := ⟨.inl (by decide), by decide, by decide⟩
    have hempty : ({} : Catalog).Quotable := by constructor <;> simp
    have hadded := hempty.addSource (s := builtIn topic) hname
    exact ⟨hadded.source, hadded.query⟩

end Quotable

structure Without (c : Catalog) (ids : List String) (d : Catalog) : Prop where
  sources : d.sources = c.sources
  queries (k : String) : d.queries[k]? = if k ∈ ids then none else c.queries[k]?
  terminated : d.terminated = c.terminated

theorem Without.refl (c : Catalog) : c.Without [] c :=
  ⟨rfl, fun _ => (if_neg List.not_mem_nil).symm, rfl⟩

theorem Without.cons {ids : List String} {id : String} {c' : Catalog} (h : c'.Without ids d)
    (hs : c'.sources = c.sources) (hq : c'.queries = c.queries.erase id)
    (ht : c'.terminated = c.terminated) : c.Without (id :: ids) d where
  sources := h.sources.trans hs
  queries k := by
    simp only [h.queries k, hq, ExtTreeMap.getElem?_erase, Std.compare_eq_iff_eq]
    by_cases hk : k ∈ ids <;> by_cases hid : id = k <;> simp [hk, hid, eq_comm]
  terminated := h.terminated.trans ht

theorem Without.queriesTouching {topic : Option String} (h : c.Without (c.queriesTouching name) d)
    (hc : c.Coherent topic) : d.queriesTouching name = [] := by
  refine queriesTouching_eq_nil.2 fun k q hq => ?_
  rw [h.queries k] at hq
  split at hq
  · cases hq
  · next hk => exact Bool.eq_false_iff.2 fun ht => hk (hc.mem_queriesTouching.2 ⟨q, hq, ht⟩)

end Catalog

namespace Engine

variable {topic : Option String} {events later : List Event} {event : Event} {b : Broker}
  {command : Command} {mode : Mode} {e : Engine} {statement : Statement} {effect : Effect}
  {d : Catalog}

theorem run_quotable (topic : Option String) (events : List Event) :
    ((ofTopic? topic).run events).catalog.Quotable := by
  refine run_keeps (P := fun e => e.catalog.Quotable) ?_ (.ofTopic? topic)
  rintro e (⟨b, command, mode⟩ | _) - h
  · rw [act]
    rcases e.apply_change b command mode with ha | ⟨statement, d, hs, -, hd, ha⟩
    · rwa [ha]
    · have hchanged := h.change (Statement.read_names hs) hd
      rw [ha]
      exact ⟨hchanged.source, hchanged.query⟩
  · exact h.startQueries

def Event.text? (event : Event) : Option String :=
  event.command?.map fun command => command.payload.statement

/-- The commands of the later events come in the order of the log, after all of the run. -/
def Follows (events later : List Event) : Prop :=
  (later.filterMap Event.command?).Pairwise (fun c d => c.offset < d.offset) ∧
    ∀ c ∈ events.filterMap Event.command?, ∀ d ∈ later.filterMap Event.command?, c.offset < d.offset

/-- The events come with these statements, one after the other, and each of them takes effect. -/
inductive Carries : Engine → List Event → List Statement → Prop where
  | nil {e : Engine} : Carries e [] []
  | cons {e : Engine} {event : Event} {events : List Event} {command : Command}
      {statement : Statement} {statements : List Statement} {effect : Effect} :
      Enacts e event command statement effect → Carries (e.act event) events statements →
        Carries e (event :: events) (statement :: statements)

/-- The texts are read as the statements, and wherever they come next, each takes effect and together
they make the change. -/
def Suffice (origin : Engine) (events : List Event) (texts : List String)
    (statements : List Statement) (change : Catalog → Catalog → Prop) : Prop :=
  texts.map Statement.read = statements.map .ok ∧
    ∀ later, Follows events later → later.map Event.text? = texts.map some →
      Carries (origin.run events) later statements ∧
        change (origin.run events).catalog (origin.run (events ++ later)).catalog

theorem Follows.append {more : List Event} (h : Follows events (later ++ more)) :
    Follows events later ∧ Follows (events ++ later) more := by
  obtain ⟨hlater, hevents⟩ := h
  rw [List.filterMap_append, List.pairwise_append] at hlater
  rw [List.filterMap_append] at hevents
  refine ⟨⟨hlater.1, fun c hc d hd => hevents c hc d (List.mem_append_left _ hd)⟩, hlater.2.1,
    fun c hc d hd => ?_⟩
  rw [List.filterMap_append, List.mem_append] at hc
  rcases hc with hc | hc
  · exact hevents c hc d (List.mem_append_right _ hd)
  · exact hlater.2.2 c hc d hd

theorem Follows.tail (h : Follows events (event :: later)) :
    Follows (events ++ [event]) later := by
  rw [← List.singleton_append] at h
  exact h.append.2

theorem Carries.append {more : List Event} {statements further : List Statement}
    (h : Carries e later statements) (hmore : Carries (e.run later) more further) :
    Carries e (later ++ more) (statements ++ further) := by
  induction h with
  | nil => exact hmore
  | cons hx _ ih => exact .cons hx (ih hmore)

theorem Event.text?_eq_some {text : String} (h : event.text? = some text) :
    ∃ b command mode, event = .apply b command mode ∧ command.payload.statement = text := by
  obtain ⟨command, hc, ht⟩ := Option.map_eq_some_iff.1 h
  cases event with
  | finishReplay => cases hc
  | apply b command mode =>
    cases hc
    exact ⟨b, command, mode, rfl, ht⟩

theorem Follows.fresh (h : Follows events (.apply b command mode :: later)) :
    ((ofTopic? topic).run events).catalog.alreadyApplied command.id command.offset = false := by
  rw [Bool.eq_false_iff]
  intro hk
  obtain ⟨m, hm, hle⟩ := Catalog.alreadyApplied_iff.1 hk
  rcases applied_of_run hm with hm | ⟨b', c, mode', hc, -, rfl⟩
  · simp at hm
  · have hlt : c.offset < command.offset :=
      h.2 c (List.mem_filterMap.2 ⟨_, hc, rfl⟩) command (by simp [Event.command?])
    exact Nat.not_lt.2 hle hlt

theorem apply_accept (hn : e.catalog.alreadyApplied command.id command.offset = false)
    (ht : e.catalog.terminated = false)
    (hs : Statement.read command.payload.statement = .ok statement)
    (hc : statement.isTerminateCluster = false)
    (hp : e.catalog.planStatement command mode statement = .accept effect d) (b : Broker) :
    e.apply b command mode = (.ok effect, e.publish (d.recordApplied command), b) := by
  have hx : e.catalog.execute b command mode statement = .ok (effect, d, b) := by
    rw [Catalog.execute_eq _ b command mode hc, hp]
    rfl
  have hperform : e.catalog.perform b command mode = .ok (effect, d.recordApplied command, b) := by
    rw [Catalog.perform, hs]
    simp only [ht, Bool.false_and, hx]
    rfl
  rw [apply, if_neg (by simp [hn]), hperform]

theorem terminates {id text : String} {q : Query} (hf : Follows events (event :: later))
    (ht : ((ofTopic? topic).run events).catalog.terminated = false)
    (htext : event.text? = some text) (hread : Statement.read text = .ok (.terminateQuery id))
    (hq : ((ofTopic? topic).run events).catalog.queries[id]? = some q) :
    ∃ command effect,
      Enacts ((ofTopic? topic).run events) event command (.terminateQuery id) effect ∧
      (((ofTopic? topic).run events).act event).catalog =
        { ((ofTopic? topic).run events).catalog with
          queries := ((ofTopic? topic).run events).catalog.queries.erase id }.recordApplied
            command := by
  obtain ⟨b, command, mode, rfl, rfl⟩ := Event.text?_eq_some htext
  have hp : ((ofTopic? topic).run events).catalog.planStatement command mode (.terminateQuery id) =
      .accept { message := "Query terminated.", query := some id }
        { ((ofTopic? topic).run events).catalog with
          queries := ((ofTopic? topic).run events).catalog.queries.erase id } := by
    simp only [Catalog.planStatement, Catalog.planTerminateQuery, hq]
  have ha := apply_accept hf.fresh ht hread rfl hp b
  exact ⟨command, _, .apply hread (by rw [ha]) rfl, by rw [act, ha]; rfl⟩

theorem drops {name text : String} {s : Source} (hf : Follows events (event :: later))
    (ht : ((ofTopic? topic).run events).catalog.terminated = false)
    (htext : event.text? = some text)
    (hread : Statement.read text = .ok (.dropSource s.kind name false false))
    (hs : ((ofTopic? topic).run events).catalog.source? name = some s)
    (hc : s.createdAt.isSome)
    (hq : ((ofTopic? topic).run events).catalog.queriesTouching name = []) :
    ∃ command effect,
      Enacts ((ofTopic? topic).run events) event command (.dropSource s.kind name false false)
        effect ∧
      (((ofTopic? topic).run events).act event).catalog =
        { ((ofTopic? topic).run events).catalog with
          sources := ((ofTopic? topic).run events).catalog.sources.erase name }.recordApplied
            command := by
  obtain ⟨b, command, mode, rfl, rfl⟩ := Event.text?_eq_some htext
  have hcreated : s.createdAt.isNone = false := by simpa using hc
  obtain ⟨effect, hp⟩ : ∃ effect, ((ofTopic? topic).run events).catalog.planStatement command mode
      (.dropSource s.kind name false false) = .accept effect
        { ((ofTopic? topic).run events).catalog with
          sources := ((ofTopic? topic).run events).catalog.sources.erase name } := by
    simp [Catalog.planStatement, Catalog.planDropSource, hs, hcreated, hq]
  have ha := apply_accept hf.fresh ht hread rfl hp b
  exact ⟨command, _, .apply hread (by rw [ha]) (Catalog.planStatement_booking
    (d := _) (by rw [hp]; rfl)).1, by rw [act, ha]; rfl⟩

theorem terminates_all {ids : List String}
    (hread : ∀ id ∈ ids, Statement.read (Statement.terminationOf id) = .ok (.terminateQuery id))
    (hnodup : ids.Nodup) (hf : Follows events later)
    (htext : later.map Event.text? = (ids.map Statement.terminationOf).map some)
    (ht : ((ofTopic? topic).run events).catalog.terminated = false)
    (hq : ∀ id ∈ ids, ∃ q, ((ofTopic? topic).run events).catalog.queries[id]? = some q) :
    Carries ((ofTopic? topic).run events) later (ids.map .terminateQuery) ∧
      ((ofTopic? topic).run events).catalog.Without ids
        ((ofTopic? topic).run (events ++ later)).catalog := by
  induction ids generalizing events later with
  | nil =>
    obtain rfl : later = [] := List.map_eq_nil_iff.1 htext
    rw [List.append_nil]
    exact ⟨.nil, .refl _⟩
  | cons id ids ih =>
    obtain ⟨event, later, rfl, hfirst, hrest⟩ := List.map_eq_cons_iff.1 htext
    obtain ⟨hid, hnodup⟩ := List.nodup_cons.1 hnodup
    obtain ⟨q, hfound⟩ := hq id List.mem_cons_self
    obtain ⟨command, effect, hx, ha⟩ :=
      terminates hf ht hfirst (hread id List.mem_cons_self) hfound
    rw [← run_concat] at ha
    obtain ⟨hcarries, hwithout⟩ := ih
      (fun id hm => hread id (List.mem_cons_of_mem _ hm)) hnodup hf.tail hrest (by rw [ha]; exact ht)
      (by
        intro k hk
        obtain ⟨p, hp⟩ := hq k (List.mem_cons_of_mem _ hk)
        have hne : id ≠ k := fun he => hid (he ▸ hk)
        refine ⟨p, ?_⟩
        rw [ha]
        simpa [Catalog.recordApplied, ExtTreeMap.getElem?_erase, hne] using hp)
    rw [run_concat] at hcarries
    rw [List.append_assoc, List.singleton_append] at hwithout
    exact ⟨.cons hx hcarries, hwithout.cons (by rw [ha]; rfl) (by rw [ha]; rfl) (by rw [ha]; rfl)⟩

/-- Nothing is stuck. As long as the cluster has not been terminated, whatever the names are made of
and whatever the broker answers: a query goes when its id is quoted in a termination; and a source
goes, unless it is the stream over the command topic, when the queries that touch it are terminated
first. The texts for this are accepted one after the other, at any later offsets and under any ids,
and nothing else goes with them. -/
theorem nothing_stuck (topic : Option String) (events : List Event)
    (ht : ((ofTopic? topic).run events).catalog.terminated = false) :
    (∀ (id : String) (q : Query), ((ofTopic? topic).run events).catalog.queries[id]? = some q →
      Suffice (ofTopic? topic) events [Statement.terminationOf id] [.terminateQuery id]
        fun c d => d.sources = c.sources ∧
          ∀ k, d.queries[k]? = if k = id then none else c.queries[k]?) ∧
    ∀ (name : String) (s : Source), ((ofTopic? topic).run events).catalog.source? name = some s →
      s.createdAt.isSome →
      Suffice (ofTopic? topic) events
        ((((ofTopic? topic).run events).catalog.queriesTouching name).map Statement.terminationOf ++
          [Statement.dropOf s.kind name])
        ((((ofTopic? topic).run events).catalog.queriesTouching name).map .terminateQuery ++
          [.dropSource s.kind name false false])
        fun c d => d.sources = c.sources.erase name ∧
          ∀ k, d.queries[k]? = if k ∈ c.queriesTouching name then none else c.queries[k]? := by
  have hcoherent := run_coherent topic events
  have hquotable := run_quotable topic events
  refine ⟨fun id q hq => ?_, fun name s hs hc => ?_⟩
  · have hread := Statement.read_terminationOf (hquotable.query hq)
    refine ⟨by simp [hread], fun later hf htext => ?_⟩
    have hids : ∀ k ∈ [id], Statement.read (Statement.terminationOf k) = .ok (.terminateQuery k) :=
      fun k hk => List.mem_singleton.1 hk ▸ hread
    obtain ⟨hcarries, hwithout⟩ := terminates_all hids (List.pairwise_singleton _ id) hf
      (by rw [List.map_singleton]; exact htext) ht fun k hk => ⟨q, List.mem_singleton.1 hk ▸ hq⟩
    exact ⟨hcarries, hwithout.sources, fun k => by simpa using hwithout.queries k⟩
  · have hread : ∀ id ∈ ((ofTopic? topic).run events).catalog.queriesTouching name,
        Statement.read (Statement.terminationOf id) = .ok (.terminateQuery id) := by
      intro id hid
      obtain ⟨q, hq, -⟩ := hcoherent.mem_queriesTouching.1 hid
      exact Statement.read_terminationOf (hquotable.query hq)
    have hdrop := Statement.read_dropOf (hquotable.source hs) s.kind
    refine ⟨?_, fun later hf htext => ?_⟩
    · have hreads : (((ofTopic? topic).run events).catalog.queriesTouching name).map
          (Statement.read ∘ Statement.terminationOf) =
            (((ofTopic? topic).run events).catalog.queriesTouching name).map
              (Except.ok ∘ Statement.terminateQuery) :=
        List.map_congr_left fun id hid => by rw [Function.comp_apply, Function.comp_apply, hread id hid]
      rw [List.map_append, List.map_append, List.map_map, List.map_map, hreads, List.map_singleton,
        hdrop]
      rfl
    rw [List.map_append] at htext
    obtain ⟨before, last, rfl, hbefore, hlast⟩ := List.map_eq_append_iff.1 htext
    obtain ⟨event, rest, rfl, hevent, hrest⟩ := List.map_eq_cons_iff.1 hlast
    obtain rfl : rest = [] := List.map_eq_nil_iff.1 hrest
    obtain ⟨hbefores, hlasts⟩ := hf.append
    -- with the queries that touch it gone, nothing holds the source
    obtain ⟨hcarries, hwithout⟩ := terminates_all hread (hcoherent.nodup_queriesTouching name)
      hbefores hbefore ht fun id hid =>
        (hcoherent.mem_queriesTouching.1 hid).imp fun _ hq => hq.1
    have hsource : ((ofTopic? topic).run (events ++ before)).catalog.source? name = some s := by
      rw [Catalog.source?, hwithout.sources]
      exact hs
    obtain ⟨command, effect, hx, ha⟩ := drops hlasts (hwithout.terminated.trans ht) hevent hdrop
      hsource hc (hwithout.queriesTouching hcoherent)
    rw [← List.append_assoc, run_concat, ha]
    rw [run_append] at hx
    refine ⟨hcarries.append (.cons hx .nil), ?_, hwithout.queries⟩
    show ((ofTopic? topic).run (events ++ before)).catalog.sources.erase name = _
    rw [hwithout.sources]

def oddNames : List Command :=
  [⟨⟨.stream, "a \x22\n\u00E9", .create⟩,
      { statement := "CREATE STREAM \x60a \x22\n\u00E9\x60 (X INT) WITH (KAFKA_TOPIC='A');" }, 0⟩,
    ⟨⟨.stream, "\x60b\x60", .create⟩,
      { statement := "CREATE STREAM \x22\x60b\x60\x22 AS SELECT * FROM \x60a \x22\n\u00E9\x60;" }, 1⟩,
    ⟨⟨.stream, "InsertInto_\x60b\x60", .execute⟩,
      { statement := "INSERT INTO \x22\x60b\x60\x22 SELECT * FROM \x60a \x22\n\u00E9\x60;" }, 2⟩]

theorem nothing_stuck_oddNames :
    ((ofTopic? none).run (served oddNames)).catalog.terminated = false ∧
      Suffice (ofTopic? none) (served oddNames)
        ["TERMINATE \x22CSAS_\x60B\x60_1\x22;", "TERMINATE \x60INSERTQUERY_2\x60;",
          "DROP STREAM \x60a \x22\n\u00E9\x60;"]
        [.terminateQuery "CSAS_\x60B\x60_1", .terminateQuery "INSERTQUERY_2",
          .dropSource .stream "a \x22\n\u00E9" false false]
        fun c d => d.sources = c.sources.erase "a \x22\n\u00E9" ∧
          ∀ k, d.queries[k]? =
            if k ∈ c.queriesTouching "a \x22\n\u00E9" then none else c.queries[k]? := by
  have hrun : (((ofTopic? none).run (served oddNames)).catalog.terminated,
      ((ofTopic? none).run (served oddNames)).catalog.queriesTouching "a \x22\n\u00E9",
      (((ofTopic? none).run (served oddNames)).catalog.source? "a \x22\n\u00E9").map
        fun s => (s.kind, s.createdAt)) =
          (false, ["CSAS_\x60B\x60_1", "INSERTQUERY_2"], some (.stream, some 0)) := by
    decide +kernel
  simp only [Prod.mk.injEq, Option.map_eq_some_iff] at hrun
  obtain ⟨ht, hids, s, hs, hkind, hcreated⟩ := hrun
  have h := (nothing_stuck none (served oddNames) ht).2 _ s hs (by rw [hcreated]; rfl)
  have htexts : ["CSAS_\x60B\x60_1", "INSERTQUERY_2"].map Statement.terminationOf ++
      [Statement.dropOf .stream "a \x22\n\u00E9"] =
        ["TERMINATE \x22CSAS_\x60B\x60_1\x22;", "TERMINATE \x60INSERTQUERY_2\x60;",
          "DROP STREAM \x60a \x22\n\u00E9\x60;"] := by
    decide +kernel
  rw [hids, hkind, htexts] at h
  exact ⟨ht, h⟩

end Engine

end StatementLog
