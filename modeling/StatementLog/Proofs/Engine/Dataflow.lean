import StatementLog.Proofs.Engine.Accounting
import StatementLog.Proofs.Engine.Touch

namespace StatementLog

open Std

def Query.BringsSink (q : Query) : Prop :=
  "CSAS_".toList <+: q.id.toList ∨ "CTAS_".toList <+: q.id.toList

theorem Query.not_bringsSink_insertQueryId {q : Query} {offset : Nat}
    (h : q.id = Catalog.insertQueryId offset) : ¬ q.BringsSink := by
  rw [BringsSink, h]
  simp [Catalog.insertQueryId]

structure Query.Dates (q : Query) (createdAt? : String → Option Nat) (n : Nat) : Prop where
  sink : createdAt? q.sink = some n
  read : ∀ name ∈ q.sources, ∀ m, createdAt? name = some m → m < n

theorem Query.Dates.congr {q : Query} {f g : String → Option Nat} {n : Nat} (h : q.Dates f n)
    (hg : ∀ name, q.touches name = true → g name = f name) : q.Dates g n where
  sink := (hg q.sink (by simp [touches])).trans h.sink
  read name hm m hn := h.read name hm m ((hg name (by simp [touches, hm])).symm.trans hn)

namespace Catalog

def createdAt? (c : Catalog) (name : String) : Option Nat :=
  (c.source? name).bind Source.createdAt

def Layered (c : Catalog) : Prop :=
  ∀ (k : String) (q : Query), c.queries[k]? = some q → q.BringsSink →
    ∃ n, Query.Numbered q.id n ∧ q.Dates c.createdAt? n

variable {c d : Catalog} {topic : Option String} {command : Command} {mode : Mode}
  {statement : Statement}

theorem Coherent.touched {k name : String} {q : Query} (h : c.Coherent topic)
    (hq : c.queries[k]? = some q) (ht : q.touches name = true) : (c.source? name).isSome := by
  simp only [Query.touches, Bool.or_eq_true, beq_iff_eq, List.contains_iff_mem] at ht
  rcases ht with rfl | hm
  · obtain ⟨s, hs, -⟩ := h.sink hq
    rw [hs]
    rfl
  · exact h.read hq name hm

namespace Layered

theorem of_sources (h : c.Layered) (hq : d.queries = c.queries)
    (hd : ∀ (k : String) (q : Query), c.queries[k]? = some q → ∀ name, q.touches name = true →
      d.source? name = c.source? name) : d.Layered := by
  intro k q hk hb
  rw [hq] at hk
  obtain ⟨n, hn, hdates⟩ := h k q hk hb
  refine ⟨n, hn, hdates.congr fun name ht => ?_⟩
  rw [createdAt?, createdAt?, hd k q hk name ht]

theorem addSource (h : c.Layered) (hc : c.Coherent topic) {s : Source}
    (hn : c.source? s.name = none) : (c.addSource s).Layered := by
  refine h.of_sources rfl fun k q hk name ht => ?_
  rw [source?_insert rfl, if_neg]
  rintro rfl
  have hsome := hc.touched hk ht
  rw [hn] at hsome
  cases hsome

theorem addQuery (h : c.Layered) {q : Query} (hq : q.BringsSink →
    ∃ n, Query.Numbered q.id n ∧ q.Dates c.createdAt? n) : (c.addQuery q).Layered := by
  intro k p hp hb
  simp only [Catalog.addQuery, ExtTreeMap.getElem?_insert] at hp
  split at hp
  · cases hp
    exact hq hb
  · exact h k p hp hb

theorem eraseQuery (h : c.Layered) (query : String) :
    ({ c with queries := c.queries.erase query } : Catalog).Layered := by
  intro k q hk hb
  simp only [ExtTreeMap.getElem?_erase] at hk
  split at hk
  · cases hk
  · exact h k q hk hb

theorem startQueries (h : c.Layered) : c.startQueries.Layered := by
  intro k q hk hb
  simp only [Catalog.startQueries, ExtTreeMap.getElem?_map, Option.map_eq_some_iff] at hk
  obtain ⟨p, hp, rfl⟩ := hk
  obtain ⟨n, hn, hdates⟩ := h k p hp hb
  exact ⟨n, hn, hdates.sink, hdates.read⟩

theorem of_no_queries (h : d.queries = ∅) : d.Layered := by
  intro k q hk
  simp [h] at hk

theorem change (h : c.Layered) (hc : c.Coherent topic)
    (hlater : ∀ name n, c.createdAt? name = some n → n < command.offset)
    (hd : Change command mode c statement d) : d.Layered := by
  cases hd with
  | skip => exact h
  | createSource hn => exact h.addSource hc hn
  | @createAsSelect kind name sources _ hn hs =>
    have hadded : ((c.addSource (newSource command kind name name)).manage name).Layered :=
      (h.addSource (s := newSource command kind name name) hc hn).of_sources rfl
        fun _ _ _ _ _ => rfl
    refine hadded.addQuery fun _ => ⟨command.offset, numbered_selectQueryId kind name _, ?_, ?_⟩
    · show (c.addSource (newSource command kind name name)).createdAt? name = some command.offset
      rw [createdAt?, source?_insert rfl, newSource, if_pos rfl]
      rfl
    · intro source hm n hsource
      -- the sink was not there, so the query does not read it
      have hne : name ≠ source := by
        rintro rfl
        have hsome := hs name hm
        rw [hn] at hsome
        cases hsome
      have hkept : (c.addSource (newSource command kind name name)).source? source =
          c.source? source := by
        rw [source?_insert rfl]
        exact if_neg hne
      refine hlater source n (Eq.trans ?_ hsource)
      show c.createdAt? source = (c.addSource (newSource command kind name name)).createdAt? source
      rw [createdAt?, createdAt?, hkept]
  | insertInto _ _ _ =>
    exact h.addQuery fun hb => absurd hb (Query.not_bringsSink_insertQueryId rfl)
  | @dropSource _ name _ _ existing managed _ _ hn =>
    refine h.of_sources rfl fun k q hk source ht => ?_
    rw [source?_erase rfl, if_neg]
    rintro rfl
    rw [queriesTouching_eq_nil.1 hn k q hk] at ht
    cases ht
  | terminateQuery _ => exact h.eraseQuery _
  | terminateCluster => exact .of_no_queries rfl

end Layered

/-- A query that came with its sink reads the one source and writes the other. -/
def Feeds (c : Catalog) (source sink : String) : Prop :=
  ∃ (k : String) (q : Query), c.queries[k]? = some q ∧ q.BringsSink ∧ source ∈ q.sources ∧
    q.sink = sink

theorem Layered.feeds {source sink : String} (h : c.Layered) (hf : c.Feeds source sink) :
    ∃ n, c.createdAt? sink = some n ∧ ∀ m, c.createdAt? source = some m → m < n := by
  obtain ⟨k, q, hk, hb, hm, rfl⟩ := hf
  obtain ⟨n, -, hdates⟩ := h k q hk hb
  exact ⟨n, hdates.sink, hdates.read source hm⟩

theorem Layered.flows {source sink : String} (h : c.Layered)
    (hf : Relation.TransGen c.Feeds source sink) :
    ∃ n, c.createdAt? sink = some n ∧ ∀ m, c.createdAt? source = some m → m < n := by
  induction hf with
  | single hf => exact h.feeds hf
  | tail _ hf ih =>
    obtain ⟨n, hn, hbefore⟩ := ih
    obtain ⟨l, hl, hlast⟩ := h.feeds hf
    exact ⟨l, hl, fun m hm => Nat.lt_trans (hbefore m hm) (hlast n hn)⟩

theorem Layered.acyclic (h : c.Layered) (name : String) : ¬ Relation.TransGen c.Feeds name name := by
  intro hf
  obtain ⟨n, hn, hbefore⟩ := h.flows hf
  exact Nat.lt_irrefl n (hbefore n hn)

theorem Change.createdAt? (h : Change command mode c statement d) {name : String} {n : Nat}
    (hn : d.createdAt? name = some n) : c.createdAt? name = some n ∨ n = command.offset := by
  have hadd {s : Source} (hs : s.createdAt = some command.offset)
      (hn : (c.addSource s).createdAt? name = some n) :
      c.createdAt? name = some n ∨ n = command.offset := by
    rw [Catalog.createdAt?, source?_insert rfl] at hn
    split at hn
    · rw [Option.bind_some, hs] at hn
      exact .inr (Option.some_inj.1 hn.symm)
    · exact .inl hn
  cases h with
  | createSource _ => exact hadd rfl hn
  | createAsSelect _ _ => exact hadd rfl hn
  | dropSource _ _ _ =>
    rw [Catalog.createdAt?, source?_erase rfl] at hn
    split at hn
    · cases hn
    · exact .inl hn
  | terminateCluster => simp [Catalog.createdAt?, source?] at hn
  | _ => exact .inl hn

end Catalog

namespace Engine

variable {topic : Option String} {events : List Event} {event : Event} {b : Broker}
  {command : Command} {mode : Mode} {e : Engine} {name : String} {n : Nat}

theorem createdAt?_act (h : (e.act event).catalog.createdAt? name = some n) :
    e.catalog.createdAt? name = some n ∨ ∃ b command mode, event = .apply b command mode ∧
      command.offset = n ∧ (e.act event).catalog.alreadyApplied command.id n = true := by
  cases event with
  | finishReplay => exact .inl h
  | apply b command mode =>
    rcases e.apply_cases b command mode with
      ⟨-, ha⟩ | ⟨f, ha⟩ | ⟨-, statement, effect, d, b', -, -, hx, ha⟩
    · rw [act, ha] at h
      exact .inl h
    · rw [act, ha] at h
      exact .inl h
    · have hknown : (e.act (.apply b command mode)).catalog.alreadyApplied command.id
          command.offset = true :=
        act_alreadyApplied (congrArg Prod.fst ha)
      rw [act, ha] at h
      rcases (Catalog.execute_change hx).createdAt? h with hc | rfl
      · exact .inl hc
      · exact .inr ⟨b, command, mode, rfl, rfl, hknown⟩

theorem createdAt?_run (h : ((ofTopic? topic).run events).catalog.createdAt? name = some n) :
    ∃ b command mode, .apply b command mode ∈ events ∧ command.offset = n ∧
      ((ofTopic? topic).run events).catalog.alreadyApplied command.id n = true := by
  induction events using List.reverseRecOn with
  | nil =>
    cases topic with
    | none => simp [run, ofTopic?, Catalog.createdAt?, Catalog.source?] at h
    | some topic =>
      obtain ⟨s, hs, hn⟩ := Option.bind_eq_some_iff.1 h
      have hs : ((∅ : ExtTreeMap String Source compare).insert Catalog.commandsStream
          (Catalog.builtIn topic))[name]? = some s := hs
      rw [ExtTreeMap.getElem?_insert] at hs
      split at hs
      · cases hs
        cases hn
      · simp at hs
  | append_singleton events event ih =>
    rw [run_concat] at h ⊢
    rcases createdAt?_act h with h | ⟨b, command, mode, rfl, ho, hk⟩
    · obtain ⟨b, command, mode, hm, ho, hk⟩ := ih h
      refine ⟨b, command, mode, List.mem_append_left _ hm, ho, ?_⟩
      exact run_alreadyApplied [event] hk
    · exact ⟨b, command, mode, by simp, ho, hk⟩

theorem created_before (ho : Ordered (events ++ [.apply b command mode]))
    (hnew : ((ofTopic? topic).run events).catalog.alreadyApplied command.id command.offset = false)
    (h : ((ofTopic? topic).run events).catalog.createdAt? name = some n) : n < command.offset := by
  obtain ⟨b', c, mode', hm, rfl, hk⟩ := createdAt?_run h
  rcases ho.before hm with hlt | rfl
  · exact hlt
  · exact absurd (hnew.symm.trans hk) Bool.false_ne_true

theorem run_layered (ho : Ordered events) : ((ofTopic? topic).run events).catalog.Layered := by
  induction events using List.reverseRecOn with
  | nil => cases topic <;> exact .of_no_queries rfl
  | append_singleton events event ih =>
    have h := ih ho.of_append
    rw [run_concat]
    cases event with
    | finishReplay => exact h.startQueries
    | apply b command mode =>
      rcases ((ofTopic? topic).run events).apply_cases b command mode with
        ⟨-, ha⟩ | ⟨f, ha⟩ | ⟨hn, statement, effect, d, b', -, -, hx, ha⟩
      · rw [act, ha]
        exact h
      · rw [act, ha]
        exact h
      · have hd := h.change (run_coherent topic events) (fun name n => created_before ho hn)
          (Catalog.execute_change hx)
        rw [act, ha]
        exact hd

/-- At any point of a run, in the order of the log and with the broker in any state, the sink of a
query that came with it was created by the very command that installed the query, and each source
that the query reads by an earlier one, but for the stream over the command topic. So no path of
such queries leads from a source back to itself, however often names were dropped and taken
again. -/
theorem dataflow_acyclic (h : Ordered events) :
    (∀ (k : String) (q : Query), ((ofTopic? topic).run events).catalog.queries[k]? = some q →
      q.BringsSink →
        ∃ b command mode,
          Since (ofTopic? topic) events
            (fun e event => event = .apply b command mode ∧ Installs e event q)
            (Removes · · q.id) ∧
          (∃ sink, ((ofTopic? topic).run events).catalog.source? q.sink = some sink ∧
            sink.createdAt = some command.offset) ∧
          ∀ name ∈ q.sources, ∃ s,
            ((ofTopic? topic).run events).catalog.source? name = some s ∧
              ((∃ t, topic = some t ∧ s = Catalog.builtIn t) ∨
                ∃ n < command.offset, s.createdAt = some n)) ∧
      ∀ name, ¬ Relation.TransGen ((ofTopic? topic).run events).catalog.Feeds name name := by
  have hlayers : ((ofTopic? topic).run events).catalog.Layered := run_layered h
  have hcoherent := run_coherent topic events
  refine ⟨fun k q hk hb => ?_, hlayers.acyclic⟩
  have hid : q.id = k := hcoherent.query_key hk
  obtain ⟨before, event, after, he, hi, hr⟩ := (holds_run h q).1 ⟨q, hid ▸ hk, rfl⟩
  obtain ⟨b, command, mode, rfl, hnumber, -, -⟩ := hi.numbered
  obtain ⟨n, hn, hdates⟩ := hlayers k q hk hb
  obtain rfl : n = command.offset := hn.unique hnumber
  refine ⟨b, command, mode, ⟨before, _, after, he, ⟨rfl, hi⟩, hr⟩,
    Option.bind_eq_some_iff.1 hdates.sink, fun name hm => ?_⟩
  obtain ⟨s, hs⟩ := Option.isSome_iff_exists.1 (hcoherent.read hk name hm)
  refine ⟨s, hs, ?_⟩
  cases hc : s.createdAt with
  | none => exact .inl (hcoherent.created hs hc)
  | some n => exact .inr ⟨n, hdates.read name hm n (by rw [Catalog.createdAt?, hs]; exact hc), rfl⟩

def reversal : List Command :=
  [creation 0,
    ⟨⟨.stream, "B", .create⟩, { statement := "CREATE STREAM B AS SELECT * FROM A;" }, 1⟩,
    ⟨⟨.terminate, "CSAS_B_1", .execute⟩, { statement := "TERMINATE CSAS_B_1;" }, 2⟩,
    ⟨⟨.stream, "B", .drop⟩, { statement := "DROP STREAM B;" }, 3⟩,
    ⟨⟨.stream, "A", .drop⟩, { statement := "DROP STREAM A;" }, 4⟩,
    ⟨⟨.stream, "B", .create⟩,
      { statement := "CREATE STREAM B (X INT) WITH (KAFKA_TOPIC='A');" }, 5⟩,
    ⟨⟨.table, "A", .create⟩, { statement := "CREATE TABLE A AS SELECT * FROM B;" }, 6⟩]

theorem dataflow_acyclic_reversal :
    Ordered (served reversal) ∧
      ((ofTopic? none).run (served reversal)).catalog.queries.keys = ["CTAS_A_6"] ∧
      ((ofTopic? none).run (served reversal)).catalog.Feeds "B" "A" ∧
      ∀ name, ¬ Relation.TransGen ((ofTopic? none).run (served reversal)).catalog.Feeds name name := by
  have ho : Ordered (served reversal) := by
    simp [Ordered, served, reversal, creation, Event.command?]
  have hquery : (((ofTopic? none).run (served reversal)).catalog.queries["CTAS_A_6"]?).map
      (fun q => (q.id, q.sources, q.sink)) = some ("CTAS_A_6", ["B"], "A") := by
    decide +kernel
  obtain ⟨q, hq, hd⟩ := Option.map_eq_some_iff.1 hquery
  obtain ⟨hid, hsources, hsink⟩ : q.id = "CTAS_A_6" ∧ q.sources = ["B"] ∧ q.sink = "A" := by
    simpa using hd
  refine ⟨ho, by decide +kernel, ⟨_, q, hq, .inr (by simp [hid]), by simp [hsources], hsink⟩,
    (dataflow_acyclic ho).2⟩

end Engine

end StatementLog
