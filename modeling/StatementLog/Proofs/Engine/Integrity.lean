import Mathlib.Logic.Relation
import StatementLog.Proofs.Engine.Change

namespace StatementLog

open Std

structure Query.Fits (id : String) (kind : SourceKind) : Prop where
  ofStream : "CSAS_".toList <+: id.toList → kind = .stream
  ofInsertion : "INSERTQUERY_".toList <+: id.toList → kind = .stream
  ofTable : "CTAS_".toList <+: id.toList → kind = .table

namespace Catalog

theorem fits_selectQueryId (kind : SourceKind) (name : String) (offset : Nat) :
    Query.Fits (selectQueryId kind name offset) kind := by
  cases kind <;> constructor <;> simp [selectQueryId]

theorem fits_insertQueryId (offset : Nat) : Query.Fits (insertQueryId offset) .stream := by
  constructor <;> simp [insertQueryId]

/-- Keys are the names and ids stored under them, what a query reads and writes is there, and only
the stream over the command topic was created by no command. -/
structure Coherent (c : Catalog) (commandTopic : Option String) : Prop where
  source_key {k : String} {s : Source} : c.sources[k]? = some s → s.name = k
  query_key {k : String} {q : Query} : c.queries[k]? = some q → q.id = k
  sink {k : String} {q : Query} : c.queries[k]? = some q →
    ∃ s, c.source? q.sink = some s ∧ Query.Fits q.id s.kind
  read {k : String} {q : Query} : c.queries[k]? = some q →
    ∀ name ∈ q.sources, (c.source? name).isSome
  created {k : String} {s : Source} : c.sources[k]? = some s → s.createdAt = none →
    ∃ topic, commandTopic = some topic ∧ s = builtIn topic

namespace Coherent

variable {c d : Catalog} {commandTopic : Option String}

theorem congr (h : c.Coherent commandTopic) (hs : d.sources = c.sources)
    (hq : d.queries = c.queries) : d.Coherent commandTopic := by
  obtain ⟨sources, queries, managed, applied, terminated⟩ := d
  cases hs
  cases hq
  exact ⟨h.source_key, h.query_key, h.sink, h.read, h.created⟩

theorem empty : (∅ : ExtTreeMap String Source compare) = c.sources →
    (∅ : ExtTreeMap String Query compare) = c.queries → c.Coherent commandTopic := by
  intro hs hq
  constructor <;> simp [← hs, ← hq]

theorem ofCommandTopic (topic : String) : (Catalog.ofCommandTopic topic).Coherent (some topic) := by
  have hs {k : String} {s : Source} (h : (Catalog.ofCommandTopic topic).sources[k]? = some s) :
      k = commandsStream ∧ s = builtIn topic := by
    simp only [Catalog.ofCommandTopic, manage, addSource, ExtTreeMap.getElem?_insert] at h
    split at h
    · next hk =>
      cases h
      exact ⟨(Std.compare_eq_iff_eq.1 hk).symm, rfl⟩
    · simp at h
  have hq (k : String) : (Catalog.ofCommandTopic topic).queries[k]? = none := by
    simp [Catalog.ofCommandTopic, manage, addSource]
  constructor
  · intro k s h
    obtain ⟨rfl, rfl⟩ := hs h
    rfl
  · simp [hq]
  · simp [hq]
  · simp [hq]
  · intro k s h _
    exact ⟨topic, rfl, (hs h).2⟩

theorem source?_addSource (c : Catalog) (s : Source) (name : String) :
    (c.addSource s).source? name = if s.name = name then some s else c.source? name := by
  simp only [source?, addSource, ExtTreeMap.getElem?_insert, Std.compare_eq_iff_eq]

theorem addSource (h : c.Coherent commandTopic) {s : Source} (hn : c.source? s.name = none)
    (hc : s.createdAt.isSome) : (c.addSource s).Coherent commandTopic := by
  have hkept {name : String} {t : Source} (ht : c.source? name = some t) :
      (c.addSource s).source? name = some t := by
    rw [source?_addSource, if_neg, ht]
    rintro rfl
    exact absurd (hn.symm.trans ht) (by simp)
  have hcases {k : String} {t : Source} (ht : (c.addSource s).sources[k]? = some t) :
      (s.name = k ∧ s = t) ∨ c.sources[k]? = some t := by
    have ht : (c.addSource s).source? k = some t := ht
    rw [source?_addSource] at ht
    split at ht
    · next hk => exact .inl ⟨hk, Option.some_inj.1 ht⟩
    · exact .inr ht
  constructor
  · intro k t ht
    rcases hcases ht with ⟨rfl, rfl⟩ | ht
    · rfl
    · exact h.source_key ht
  · exact h.query_key
  · intro k q hq
    obtain ⟨t, ht, hf⟩ := h.sink hq
    exact ⟨t, hkept ht, hf⟩
  · intro k q hq name hname
    obtain ⟨t, ht⟩ := Option.isSome_iff_exists.1 (h.read hq name hname)
    rw [hkept ht]
    rfl
  · intro k t ht hnone
    rcases hcases ht with ⟨rfl, rfl⟩ | ht
    · rw [hnone] at hc
      cases hc
    · exact h.created ht hnone

theorem addQuery (h : c.Coherent commandTopic) {q : Query} {s : Source}
    (hs : c.source? q.sink = some s) (hf : Query.Fits q.id s.kind)
    (hr : ∀ name ∈ q.sources, (c.source? name).isSome) : (c.addQuery q).Coherent commandTopic := by
  have hcases {k : String} {p : Query} (hp : (c.addQuery q).queries[k]? = some p) :
      (q.id = k ∧ q = p) ∨ c.queries[k]? = some p := by
    simp only [Catalog.addQuery, ExtTreeMap.getElem?_insert, Std.compare_eq_iff_eq] at hp
    split at hp
    · next hk => exact .inl ⟨hk, Option.some_inj.1 hp⟩
    · exact .inr hp
  constructor
  · exact h.source_key
  · intro k p hp
    rcases hcases hp with ⟨rfl, rfl⟩ | hp
    · rfl
    · exact h.query_key hp
  · intro k p hp
    rcases hcases hp with ⟨-, rfl⟩ | hp
    · exact ⟨s, hs, hf⟩
    · exact h.sink hp
  · intro k p hp
    rcases hcases hp with ⟨-, rfl⟩ | hp
    · exact hr
    · exact h.read hp
  · exact h.created

theorem eraseQuery (h : c.Coherent commandTopic) (query : String) :
    ({ c with queries := c.queries.erase query } : Catalog).Coherent commandTopic := by
  have hkept {k : String} {q : Query} (hq : (c.queries.erase query)[k]? = some q) :
      c.queries[k]? = some q := by
    rw [ExtTreeMap.getElem?_erase] at hq
    split at hq
    · cases hq
    · exact hq
  exact ⟨h.source_key, fun hq => h.query_key (hkept hq), fun hq => h.sink (hkept hq),
    fun hq => h.read (hkept hq), h.created⟩

theorem eraseSource (h : c.Coherent commandTopic) {name : String}
    (hn : c.queriesTouching name = []) :
    ({ c with sources := c.sources.erase name } : Catalog).Coherent commandTopic := by
  have hfrom {k : String} {s : Source} (hs : (c.sources.erase name)[k]? = some s) :
      c.sources[k]? = some s := by
    rw [ExtTreeMap.getElem?_erase] at hs
    split at hs
    · cases hs
    · exact hs
  have hkept {k : String} (hk : k ≠ name) : (c.sources.erase name)[k]? = c.sources[k]? := by
    rw [ExtTreeMap.getElem?_erase, if_neg]
    rw [Std.compare_eq_iff_eq]
    exact fun he => hk he.symm
  have huntouched {k : String} {q : Query} (hq : c.queries[k]? = some q) :
      q.sink ≠ name ∧ name ∉ q.sources := by
    simpa [Query.touches] using queriesTouching_eq_nil.1 hn k q hq
  constructor
  · exact fun hs => h.source_key (hfrom hs)
  · exact h.query_key
  · intro k q hq
    obtain ⟨s, hs, hf⟩ := h.sink hq
    exact ⟨s, (hkept (huntouched hq).1).trans hs, hf⟩
  · intro k q hq source hm
    have hne : source ≠ name := by
      rintro rfl
      exact (huntouched hq).2 hm
    rw [source?, hkept hne]
    exact h.read hq source hm
  · exact fun hs => h.created (hfrom hs)

theorem startQueries (h : c.Coherent commandTopic) : c.startQueries.Coherent commandTopic := by
  have hfrom {k : String} {q : Query} (hq : c.startQueries.queries[k]? = some q) :
      ∃ p, c.queries[k]? = some p ∧ p.start = q := by
    simpa [Catalog.startQueries] using hq
  constructor
  · exact h.source_key
  · intro k q hq
    obtain ⟨p, hp, rfl⟩ := hfrom hq
    exact h.query_key (q := p) hp
  · intro k q hq
    obtain ⟨p, hp, rfl⟩ := hfrom hq
    exact h.sink (q := p) hp
  · intro k q hq
    obtain ⟨p, hp, rfl⟩ := hfrom hq
    exact h.read (q := p) hp
  · exact h.created

theorem change (h : c.Coherent commandTopic) {command : Command} {mode : Mode}
    {statement : Statement} (hc : Change command mode c statement d) : d.Coherent commandTopic := by
  cases hc with
  | skip => exact h
  | createSource hn => exact h.addSource hn rfl
  | @createAsSelect kind name sources _ hn hs =>
    have hadded := (h.addSource (s := newSource command kind name name) hn rfl).congr
      (d := (c.addSource (newSource command kind name name)).manage name) rfl rfl
    have hsink : (c.addSource (newSource command kind name name)).source? name =
        some (newSource command kind name name) := by
      rw [source?_addSource]
      exact if_pos rfl
    refine hadded.addQuery hsink (fits_selectQueryId kind name command.offset) ?_
    intro source hm
    show ((c.addSource (newSource command kind name name)).source? source).isSome = true
    rw [source?_addSource]
    split
    · rfl
    · exact hs source hm
  | insertInto hs hk hr =>
    exact h.addQuery hs (hk ▸ fits_insertQueryId command.offset) hr
  | dropSource _ _ hn => exact (h.eraseSource hn).congr rfl rfl
  | terminateQuery _ => exact h.eraseQuery _
  | terminateCluster => exact .empty rfl rfl

end Coherent

end Catalog

namespace Engine

/-- An engine that no command has reached, with or without the stream over the command topic. -/
def ofTopic? : Option String → Engine
  | none => {}
  | some topic => ofCommandTopic topic

inductive Step : Engine → Engine → Prop where
  | apply (e : Engine) (b : Broker) (command : Command) (mode : Mode) :
      Step e (e.apply b command mode).2.1
  | finishReplay (e : Engine) : Step e e.finishReplay

def Reaches : Engine → Engine → Prop :=
  Relation.ReflTransGen Step

theorem ofTopic?_coherent (commandTopic : Option String) :
    (ofTopic? commandTopic).catalog.Coherent commandTopic := by
  cases commandTopic with
  | none => exact .empty rfl rfl
  | some topic => exact .ofCommandTopic topic

theorem Step.coherent {e e' : Engine} {commandTopic : Option String}
    (h : e.catalog.Coherent commandTopic) (hs : Step e e') : e'.catalog.Coherent commandTopic := by
  cases hs with
  | apply b command mode =>
    rcases e.apply_change b command mode with he | ⟨statement, changed, -, -, hc, he⟩
    · rw [he]
      exact h
    · rw [he]
      exact (h.change hc).congr rfl rfl
  | finishReplay => exact h.startQueries

/-- Whatever commands an engine was given, in whatever order and modes, and whatever became of them
at the broker, its catalog refers to nothing that is not there. -/
theorem catalog_coherent {e : Engine} {commandTopic : Option String}
    (h : Reaches (ofTopic? commandTopic) e) : e.catalog.Coherent commandTopic := by
  induction h with
  | refl => exact ofTopic?_coherent commandTopic
  | tail _ hs ih => exact hs.coherent ih

def applyAll (e : Engine) (b : Broker) (commands : List Command) : Engine :=
  commands.foldl (fun e command => (e.apply b command .live).2.1) e

theorem reaches_applyAll (e : Engine) (b : Broker) (commands : List Command) :
    Reaches e (e.applyAll b commands) := by
  induction commands generalizing e with
  | nil => exact .refl
  | cons command commands ih => exact .head (.apply e b command .live) (ih _)

def dataflow : List Command :=
  [⟨⟨.stream, "A", .create⟩, { statement := "CREATE STREAM A (X INT);" }, 0⟩,
    ⟨⟨.stream, "B", .create⟩, { statement := "CREATE STREAM B AS SELECT * FROM A;" }, 1⟩,
    ⟨⟨.stream, "InsertInto_B", .execute⟩, { statement := "INSERT INTO B SELECT * FROM A;" }, 2⟩]

theorem catalog_coherent_dataflow :
    ∃ e, Reaches (ofTopic? (some "c")) e ∧ e.catalog.Coherent (some "c") ∧
      e.catalog.queries.keys = ["CSAS_B_1", "INSERTQUERY_2"] ∧ e.catalog.sources.size = 3 := by
  have hrun : ((ofTopic? (some "c")).applyAll (.ofTopics ["A"]) dataflow).catalog.queries.keys =
      ["CSAS_B_1", "INSERTQUERY_2"] ∧
      ((ofTopic? (some "c")).applyAll (.ofTopics ["A"]) dataflow).catalog.sources.size = 3 := by
    decide +kernel
  have hr := reaches_applyAll (ofTopic? (some "c")) (.ofTopics ["A"]) dataflow
  exact ⟨_, hr, catalog_coherent hr, hrun⟩

end Engine

end StatementLog
