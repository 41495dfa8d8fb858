import StatementLog.Proofs.Engine.Change

namespace StatementLog

open Std

namespace Plan

variable {b : Broker} {t : String} {e : Effect} {d : Catalog} {o : Catalog.Outcome}

theorem require_run_ok (hb : b.available = true) (h : (require t e d).run b = .ok o) :
    b.topics.contains t = true ∧ o = (e, d, b) := by
  rw [run, Catalog.requireTopic_available hb] at h
  split at h
  · next ht =>
    cases h
    exact ⟨ht, rfl⟩
  · cases h

theorem create_run_ok (hb : b.available = true) (h : (create t e d).run b = .ok o) :
    o = (e, d, b.addTopic t) := by
  rw [run, Broker.createTopic, if_pos hb] at h
  cases h
  rfl

theorem delete_run_ok (hb : b.available = true) (h : (delete t e d).run b = .ok o) :
    o = (e, d, { b with topics := b.topics.erase t }) := by
  rw [run, Broker.deleteTopic, hb, Bool.not_true, if_neg Bool.false_ne_true] at h
  split at h
  · cases h
  · cases h
    rw [hb]

end Plan

theorem Broker.release_available (b : Broker) (topics : List String) :
    (b.release topics).2.available = b.available := by
  induction topics generalizing b with
  | nil => rfl
  | cons topic topics ih =>
    rw [release]
    split
    · next present b' h =>
      have hb : b'.available = b.available := by
        rw [deleteIfPresent, topicExists] at h
        cases ha : b.available with
        | false =>
          rw [ha] at h
          cases h
        | true =>
          cases hc : b.topics.contains topic <;>
            simp only [ha, hc, if_true, deleteTopic, Bool.not_true, Bool.false_eq_true, if_false,
              bind, Except.bind, pure, Except.pure] at h
          · cases h
            exact ha
          · cases hu : b.undeletable.contains topic <;> simp [hu] at h
            rw [← h.2]
      exact (ih b').trans hb
    · exact ih b

namespace Catalog

inductive Touch (c : Catalog) (b : Broker) : Statement → Catalog → Broker → Prop where
  | rest {statement : Statement} {d : Catalog} :
      (∀ kind name ifExists deleteTopic,
        statement = .dropSource kind name ifExists deleteTopic → c.source? name = none) →
        d.sources = c.sources → d.managed = c.managed → Touch c b statement d b
  | declare {kind : SourceKind} {name : String} {topic : Option String} {ifNotExists : Bool}
      {d : Catalog} (s : Source) : s.name = name → c.source? name = none →
        b.topics.contains s.topic = true → d.sources = c.sources.insert name s →
          d.managed = c.managed → Touch c b (.createSource kind name topic ifNotExists) d b
  | make {kind : SourceKind} {name : String} {sources : List String} {ifNotExists : Bool}
      {d : Catalog} (s : Source) : s.topic = name → c.source? name = none →
        d.sources = c.sources.insert name s → d.managed = c.managed.insert name →
          Touch c b (.createAsSelect kind name sources ifNotExists) d (b.addTopic name)
  | drop {kind : SourceKind} {name : String} {ifExists : Bool} {d : Catalog} (s : Source) :
      c.source? name = some s → s.createdAt.isSome → d.sources = c.sources.erase name →
        d.managed = c.managed → Touch c b (.dropSource kind name ifExists false) d b
  | purge {kind : SourceKind} {name : String} {ifExists : Bool} {d : Catalog} (s : Source) :
      c.source? name = some s → s.createdAt.isSome → d.sources = c.sources.erase name →
        d.managed = c.managed.erase s.topic →
          Touch c b (.dropSource kind name ifExists true) d
            { b with topics := b.topics.erase s.topic }

variable {c d : Catalog} {b b' : Broker} {command : Command} {mode : Mode} {statement : Statement}
  {o : Outcome}

theorem planDropSource_touch (hb : b.available = true) {kind : SourceKind} {name : String}
    {ifExists deleteTopic : Bool}
    (h : (c.planDropSource kind name ifExists deleteTopic).run b = .ok o) :
    Touch c b (.dropSource kind name ifExists deleteTopic) o.2.1 o.2.2 := by
  unfold planDropSource at h
  split at h
  · next hs =>
    split at h <;> cases h
    refine .rest ?_ rfl rfl
    rintro _ _ _ _ ⟨⟩
    exact hs
  · next existing hs =>
    split at h
    · cases h
    · split at h
      · cases h
      · next hc =>
        have hc : existing.createdAt.isSome = true := by
          simpa [Option.isSome_iff_ne_none] using hc
        split at h
        · cases h
        · cases deleteTopic with
          | false =>
            cases h
            exact .drop existing hs hc rfl rfl
          | true =>
            cases Plan.delete_run_ok hb h
            exact .purge existing hs hc rfl rfl

theorem planStatement_touch (hb : b.available = true)
    (h : (c.planStatement command mode statement).run b = .ok o) :
    Touch c b statement o.2.1 o.2.2 := by
  cases statement with
  | createSource kind name topic ifNotExists =>
    simp only [planStatement, planCreateSource] at h
    split at h
    · split at h <;> cases h
      exact .rest (by rintro _ _ _ _ ⟨⟩) rfl rfl
    · next hs =>
      obtain ⟨hc, rfl⟩ := Plan.require_run_ok hb h
      exact .declare (newSource command kind name (topic.getD name)) rfl hs hc rfl rfl
  | createAsSelect kind name sources ifNotExists =>
    simp only [planStatement, planCreateAsSelect] at h
    split at h
    · split at h <;> cases h
      exact .rest (by rintro _ _ _ _ ⟨⟩) rfl rfl
    · next hs =>
      have hs : c.source? name = none := by simpa using hs
      split at h
      · cases h
      · cases Plan.create_run_ok hb h
        exact .make (newSource command kind name name) rfl hs rfl rfl
  | insertInto target sources =>
    simp only [planStatement, planInsertInto] at h
    split at h
    · cases h
    · split at h
      · cases h
      · split at h <;> cases h
        exact .rest (by rintro _ _ _ _ ⟨⟩) rfl rfl
  | dropSource kind name ifExists deleteTopic => exact planDropSource_touch hb h
  | terminateQuery query =>
    simp only [planStatement, planTerminateQuery] at h
    split at h <;> cases h
    exact .rest (by rintro _ _ _ _ ⟨⟩) rfl rfl
  | terminateCluster topics => cases h

theorem source?_insert {k : String} {s : Source} (h : d.sources = c.sources.insert k s)
    (name : String) :
    d.source? name = if k = name then some s else c.source? name := by
  simp only [source?, h, ExtTreeMap.getElem?_insert, Std.compare_eq_iff_eq]

theorem source?_erase {k : String} (h : d.sources = c.sources.erase k) (name : String) :
    d.source? name = if k = name then none else c.source? name := by
  simp only [source?, h, ExtTreeMap.getElem?_erase, Std.compare_eq_iff_eq]

theorem Change.terminated (h : Change command mode c statement d)
    (ht : statement.isTerminateCluster = false) : d.terminated = c.terminated := by
  cases h with
  | terminateCluster => cases ht
  | _ => rfl

end Catalog

end StatementLog
