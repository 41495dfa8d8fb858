import StatementLog.Proofs.Engine.Recognition

namespace StatementLog

open Std

namespace Catalog

theorem queriesTouching_eq_nil {c : Catalog} {source : String} :
    c.queriesTouching source = [] ↔
      ∀ (k : String) (q : Query), c.queries[k]? = some q → q.touches source = false := by
  simp only [queriesTouching, List.map_eq_nil_iff, List.filter_eq_nil_iff, Bool.not_eq_true,
    List.mem_map]
  constructor
  · intro h k q hq
    exact h q ⟨(k, q), ExtTreeMap.mem_toList_iff_getElem?_eq_some.2 hq, rfl⟩
  · rintro h _ ⟨⟨k, q⟩, hq, rfl⟩
    exact h k q (ExtTreeMap.mem_toList_iff_getElem?_eq_some.1 hq)

theorem requireSources_ok {c : Catalog} {ss : List String} :
    c.requireSources ss = .ok () ↔ ∀ s ∈ ss, (c.source? s).isSome := by
  induction ss with
  | nil => simp [requireSources]
  | cons s ss ih =>
    rw [requireSources, List.forall_mem_cons, ← ih]
    cases (c.source? s).isSome <;> simp

inductive Change (command : Command) (mode : Mode) (c : Catalog) : Statement → Catalog → Prop where
  | skip {statement : Statement} : Change command mode c statement c
  | createSource {kind : SourceKind} {name : String} {topic : Option String} {ifNotExists : Bool} :
      c.source? name = none →
        Change command mode c (.createSource kind name topic ifNotExists)
          (c.addSource (newSource command kind name (topic.getD name)))
  | createAsSelect {kind : SourceKind} {name : String} {sources : List String}
      {ifNotExists : Bool} :
      c.source? name = none → (∀ s ∈ sources, (c.source? s).isSome) →
        Change command mode c (.createAsSelect kind name sources ifNotExists)
          (((c.addSource (newSource command kind name name)).manage name).addQuery
            (newQuery command mode (selectQueryId kind name command.offset) name sources))
  | insertInto {target : String} {sources : List String} {sink : Source} :
      c.source? target = some sink → sink.kind = .stream →
        (∀ s ∈ sources, (c.source? s).isSome) →
          Change command mode c (.insertInto target sources)
            (c.addQuery (newQuery command mode (insertQueryId command.offset) target sources))
  | dropSource {kind : SourceKind} {name : String} {ifExists deleteTopic : Bool}
      {existing : Source} {managed : Topics} :
      c.source? name = some existing → existing.createdAt.isSome → c.queriesTouching name = [] →
        Change command mode c (.dropSource kind name ifExists deleteTopic)
          { c with sources := c.sources.erase name, managed }
  | terminateQuery {query : String} {q : Query} : c.queries[query]? = some q →
      Change command mode c (.terminateQuery query)
        { c with queries := c.queries.erase query }
  | terminateCluster {topics : List String} {managed : Topics} :
      Change command mode c (.terminateCluster topics)
        { c with sources := ∅, queries := ∅, terminated := true, managed }

end Catalog

def Plan.goal? : Plan → Option (Effect × Catalog)
  | refuse _ => none
  | accept e c | require _ e c | create _ e c | delete _ e c => some (e, c)

theorem Plan.goal?_run {p : Plan} {b : Broker} {o : Catalog.Outcome} (h : p.run b = .ok o) :
    p.goal? = some (o.1, o.2.1) := by
  cases p with
  | refuse r => cases h
  | accept e c =>
    cases h
    rfl
  | require t e c =>
    rw [run] at h
    cases hr : Catalog.requireTopic b t <;> rw [hr] at h <;> cases h
    rfl
  | create t e c =>
    rw [run] at h
    cases hr : Catalog.onBroker (b.createTopic t) <;> rw [hr] at h <;> cases h
    rfl
  | delete t e c =>
    rw [run] at h
    cases hr : Catalog.onBroker (b.deleteTopic t) <;> rw [hr] at h <;> cases h
    rfl

def Plan.target? : Plan → Option Catalog
  | refuse _ => none
  | accept _ c | require _ _ c | create _ _ c | delete _ _ c => some c

theorem Plan.target?_run {p : Plan} {b : Broker} {o : Catalog.Outcome} (h : p.run b = .ok o) :
    p.target? = some o.2.1 := by
  have hg := goal?_run h
  cases p <;> cases hg <;> rfl

namespace Catalog

variable {c d : Catalog} {b b' : Broker} {command : Command} {mode : Mode} {e : Effect}
  {o : Outcome}

theorem planDropSource_change {kind : SourceKind} {name : String} {ifExists deleteTopic : Bool}
    (h : (c.planDropSource kind name ifExists deleteTopic).target? = some d) :
    Change command mode c (.dropSource kind name ifExists deleteTopic) d := by
  unfold planDropSource at h
  split at h
  · split at h <;> cases h
    exact .skip
  · next existing hs =>
    split at h
    · cases h
    · split at h
      · cases h
      · next hc =>
        split at h
        · cases h
        · next hq =>
          have hc : existing.createdAt.isSome = true := by
            simpa [Option.isSome_iff_ne_none] using hc
          have hq : c.queriesTouching name = [] := by simpa using hq
          cases deleteTopic <;> cases h <;> exact .dropSource hs hc hq

theorem planStatement_change {statement : Statement}
    (h : (c.planStatement command mode statement).target? = some d) :
    Change command mode c statement d := by
  cases statement with
  | createSource kind name topic ifNotExists =>
    simp only [planStatement, planCreateSource] at h
    split at h
    · split at h <;> cases h
      exact .skip
    · next hs =>
      cases h
      exact .createSource hs
  | createAsSelect kind name sources ifNotExists =>
    simp only [planStatement, planCreateAsSelect] at h
    split at h
    · split at h <;> cases h
      exact .skip
    · next hs =>
      split at h
      · cases h
      · next hr =>
        cases h
        exact .createAsSelect (by simpa using hs) (requireSources_ok.1 hr)
  | insertInto target sources =>
    simp only [planStatement, planInsertInto] at h
    split at h
    · cases h
    · next sink hs =>
      split at h
      · cases h
      · next hk =>
        split at h
        · cases h
        · next hr =>
          cases h
          refine .insertInto hs ?_ (requireSources_ok.1 hr)
          cases hkind : sink.kind with
          | stream => rfl
          | table => exact absurd hkind hk
  | dropSource kind name ifExists deleteTopic => exact planDropSource_change h
  | terminateQuery query =>
    simp only [planStatement, planTerminateQuery] at h
    split at h
    · cases h
    · next q hq =>
      cases h
      exact .terminateQuery hq
  | terminateCluster topics => cases h

theorem execute_change {statement : Statement}
    (h : c.execute b command mode statement = .ok (e, d, b')) :
    Change command mode c statement d := by
  rcases execute_cases h with ⟨topics, rfl, ho⟩ | ⟨-, h⟩
  · cases ho
    exact .terminateCluster
  · exact planStatement_change (Plan.target?_run h)

theorem perform_ok (h : c.perform b command mode = .ok o) :
    ∃ statement d, Statement.read command.payload.statement = .ok statement ∧
      (c.terminated = true → statement.isTerminateCluster = true) ∧
      c.execute b command mode statement = .ok (o.1, d, o.2.2) ∧
      o.2.1 = d.recordApplied command := by
  unfold perform at h
  split at h
  · cases h
  · next statement hs =>
    split at h
    · cases h
    · next hg =>
      cases hx : c.execute b command mode statement with
      | error r =>
        rw [hx] at h
        cases h
      | ok o =>
        rw [hx] at h
        cases h
        refine ⟨statement, o.2.1, hs, fun ht => ?_, hx, rfl⟩
        simpa [ht] using hg

end Catalog

theorem Engine.apply_cases (e : Engine) (b : Broker) (command : Command) (mode : Mode) :
    (e.catalog.alreadyApplied command.id command.offset = true ∧
      e.apply b command mode = (.ok (replayedEffect command), e, b)) ∨
      (∃ f, e.apply b command mode = (.error f, e, b)) ∨
        e.catalog.alreadyApplied command.id command.offset = false ∧
          ∃ statement effect d b', Statement.read command.payload.statement = .ok statement ∧
            (e.catalog.terminated = true → statement.isTerminateCluster = true) ∧
            e.catalog.execute b command mode statement = .ok (effect, d, b') ∧
            e.apply b command mode = (.ok effect, e.publish (d.recordApplied command), b') := by
  unfold apply
  split
  · next ha => exact .inl ⟨ha, rfl⟩
  · next ha =>
    split
    · exact .inr (.inl ⟨_, rfl⟩)
    · next effect c b' hp =>
      obtain ⟨statement, d, hs, ht, hx, rfl⟩ := Catalog.perform_ok hp
      exact .inr (.inr ⟨Bool.eq_false_iff.2 ha, statement, effect, d, b', hs, ht, hx, rfl⟩)

theorem Engine.apply_change (e : Engine) (b : Broker) (command : Command) (mode : Mode) :
    (e.apply b command mode).2.1 = e ∨
      ∃ statement changed, Statement.read command.payload.statement = .ok statement ∧
        (e.catalog.terminated = true → statement.isTerminateCluster = true) ∧
        Catalog.Change command mode e.catalog statement changed ∧
        (e.apply b command mode).2.1 = e.publish (changed.recordApplied command) := by
  rcases e.apply_cases b command mode with ⟨-, h⟩ | ⟨f, h⟩ |
    ⟨-, statement, effect, changed, b', hs, ht, hx, h⟩
  · exact .inl (by rw [h])
  · exact .inl (by rw [h])
  · exact .inr ⟨statement, changed, hs, ht, Catalog.execute_change hx, by rw [h]⟩

end StatementLog
