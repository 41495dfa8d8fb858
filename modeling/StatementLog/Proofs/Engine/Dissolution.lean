import StatementLog.Proofs.Engine.Ownership
import StatementLog.Proofs.Text.Order

namespace StatementLog

open Std Text

namespace Broker

variable {b : Broker} {topics : List String}

theorem contains_erase_of_not_mem {topic t : String} (h : topic ∉ topics) (ht : t ∈ topics) :
    (b.topics.erase topic).contains t = b.topics.contains t := by
  have hne : topic ≠ t := fun he => h (he ▸ ht)
  simp [ExtTreeSet.contains_erase, hne]

theorem release_report (hb : b.available = true) (h : topics.Nodup) :
    (b.release topics).1 =
      ⟨topics.filter fun t => b.topics.contains t && !b.undeletable.contains t,
        (topics.filter fun t => b.topics.contains t && b.undeletable.contains t).map fun t =>
          (t, (notAuthorized t).message)⟩ := by
  induction topics generalizing b with
  | nil => rfl
  | cons topic topics ih =>
    obtain ⟨hnot, hrest⟩ := List.nodup_cons.1 h
    rw [release, deleteIfPresent_available hb]
    cases hc : b.topics.contains topic with
    | false => simp [ih hb hrest, hc]
    | true =>
      cases hu : b.undeletable.contains topic with
      | true => simp [ih hb hrest, hc, hu]
      | false =>
        have hreport := ih (b := { b with topics := b.topics.erase topic }) hb hrest
        have hsame (p : String → Bool) :
            topics.filter (fun t => (b.topics.erase topic).contains t && p t) =
              topics.filter fun t => b.topics.contains t && p t :=
          List.filter_congr fun t ht => by rw [contains_erase_of_not_mem hnot ht]
        simp only [hsame] at hreport
        simp [hreport, hc, hu]

variable {t reason : String}

theorem mem_deleted (h : topics.Nodup) : t ∈ (b.release topics).1.deleted ↔
    b.available = true ∧ t ∈ topics ∧ t ∈ b.topics ∧ t ∉ b.undeletable := by
  cases hb : b.available with
  | false =>
    rw [release_away hb]
    simp
  | true =>
    rw [release_report hb h]
    simp [← ExtTreeSet.contains_iff_mem]

theorem mem_failed (h : topics.Nodup) : (t, reason) ∈ (b.release topics).1.failed ↔
    t ∈ topics ∧
      (b.available = true ∧ t ∈ b.topics ∧ t ∈ b.undeletable ∧
          reason = (notAuthorized t).message ∨
        b.available = false ∧ reason = unreachable.message) := by
  cases hb : b.available with
  | false =>
    rw [release_away hb]
    simp only [List.mem_map, Prod.mk.injEq]
    constructor
    · rintro ⟨_, ht, rfl, rfl⟩
      exact ⟨ht, .inr ⟨trivial, rfl⟩⟩
    · rintro ⟨ht, ⟨h, -⟩ | ⟨-, rfl⟩⟩
      · cases h
      · exact ⟨t, ht, rfl, rfl⟩
  | true =>
    rw [release_report hb h]
    simp only [List.mem_map, Prod.mk.injEq, List.mem_filter, Bool.and_eq_true,
      ExtTreeSet.contains_iff_mem]
    constructor
    · rintro ⟨_, ⟨ht, hc, hu⟩, rfl, rfl⟩
      exact ⟨ht, .inl ⟨trivial, hc, hu, rfl⟩⟩
    · rintro ⟨ht, ⟨-, hc, hu, rfl⟩ | ⟨h, -⟩⟩
      · exact ⟨t, ⟨ht, hc, hu⟩, rfl, rfl⟩
      · cases h

theorem deleted_sublist (h : topics.Nodup) : (b.release topics).1.deleted.Sublist topics := by
  cases hb : b.available with
  | false =>
    rw [release_away hb]
    exact List.nil_sublist _
  | true =>
    rw [release_report hb h]
    exact List.filter_sublist

theorem failed_sublist (h : topics.Nodup) :
    ((b.release topics).1.failed.map Prod.fst).Sublist topics := by
  cases hb : b.available with
  | false =>
    rw [release_away hb]
    simp [Function.comp_def]
  | true =>
    rw [release_report hb h]
    simp [Function.comp_def]

end Broker

/-- What there is after the termination of a cluster, and what is reported of the topics: those that
were there and could be deleted went, and of those that could not, or of all of them with the broker
away, it is told why. The lists go by octets and have nothing twice. -/
structure Dissolved (c : Catalog) (b : Broker) (topics : List String) (report : CleanupReport)
    (effect : Effect) (c' : Catalog) (b' : Broker) : Prop where
  shutdown : effect.shutdown = true
  message : effect.message = Catalog.cleanupMessage c.queries.size report
  sources : c'.sources = ∅
  queries : c'.queries = ∅
  terminated : c'.terminated = true
  left : ∀ t, t ∈ b'.topics ↔ t ∈ b.topics ∧
    (b.available = true → t ∈ c.managed ∨ t ∈ topics → t ∈ b.undeletable)
  managed : ∀ t, t ∈ c'.managed ↔ t ∈ c.managed ∧ ¬ (t ∈ b.topics ∧ t ∉ b'.topics)
  deleted : ∀ t, t ∈ report.deleted ↔ t ∈ b.topics ∧ t ∉ b'.topics
  failed : ∀ t reason, (t, reason) ∈ report.failed ↔ (t ∈ c.managed ∨ t ∈ topics) ∧
    (b.available = true ∧ t ∈ b.topics ∧ t ∈ b.undeletable ∧
        reason = (Broker.notAuthorized t).message ∨
      b.available = false ∧ reason = Broker.unreachable.message)
  deleted_order : report.deleted.Pairwise Utf8.Before
  failed_order : (report.failed.map Prod.fst).Pairwise Utf8.Before

namespace Catalog

variable {c : Catalog} {b : Broker} {topics : List String}

theorem releaseTargets_before (c : Catalog) (topics : List String) :
    (c.releaseTargets topics).toList.Pairwise Utf8.Before :=
  ExtTreeSet.ordered_toList.imp Utf8.before_of_compare

theorem releaseTargets_nodup (c : Catalog) (topics : List String) :
    (c.releaseTargets topics).toList.Nodup := by
  refine (c.releaseTargets_before topics).imp fun {s t} h he => ?_
  subst he
  exact List.lt_irrefl _ h

theorem terminateCluster_left (c : Catalog) (b : Broker) (topics : List String) (t : String) :
    t ∈ (c.terminateCluster b topics).2.2.topics ↔ t ∈ b.topics ∧
      (b.available = true → t ∈ c.managed ∨ t ∈ topics → t ∈ b.undeletable) := by
  cases hb : b.available with
  | false =>
    rw [terminateCluster, Broker.release_away hb]
    simp
  | true => simpa [ExtTreeSet.contains_iff_mem] using contains_terminateCluster hb (t := t)

theorem terminateCluster_dissolves (c : Catalog) (b : Broker) (topics : List String) :
    Dissolved c b topics (b.release (c.releaseTargets topics).toList).1
      (c.terminateCluster b topics).1 (c.terminateCluster b topics).2.1
      (c.terminateCluster b topics).2.2 := by
  have hnodup := c.releaseTargets_nodup topics
  have hleft := c.terminateCluster_left b topics
  have hdeleted (t : String) : t ∈ (b.release (c.releaseTargets topics).toList).1.deleted ↔
      t ∈ b.topics ∧ t ∉ (c.terminateCluster b topics).2.2.topics := by
    rw [Broker.mem_deleted hnodup, mem_releaseTargets, hleft, ExtTreeSet.contains_iff_mem]
    grind
  have hmanaged (t : String) : t ∈ (c.terminateCluster b topics).2.1.managed ↔
      t ∈ c.managed ∧ t ∉ (b.release (c.releaseTargets topics).toList).1.deleted := by
    rw [← ExtTreeSet.contains_iff_mem, ← ExtTreeSet.contains_iff_mem]
    exact contains_foldl_erase c.managed
  exact {
    shutdown := rfl
    message := rfl
    sources := rfl
    queries := rfl
    terminated := rfl
    left := hleft
    managed := fun t => by rw [hmanaged, hdeleted]
    deleted := hdeleted
    failed := fun t reason => by
      rw [Broker.mem_failed hnodup, mem_releaseTargets, ExtTreeSet.contains_iff_mem]
    deleted_order := (c.releaseTargets_before topics).sublist (Broker.deleted_sublist hnodup)
    failed_order := (c.releaseTargets_before topics).sublist (Broker.failed_sublist hnodup) }

end Catalog

namespace Engine

/-- A request to terminate the cluster that has not been applied takes effect whatever the state of
the catalog and of the broker, and whichever topics it names. -/
theorem termination_dissolves (e : Engine) (b : Broker) (command : Command) (mode : Mode)
    (topics : List String) :
    ∃ report effect c' b',
      e.catalog.execute b command mode (.terminateCluster topics) = .ok (effect, c', b') ∧
      Dissolved e.catalog b topics report effect c' b' ∧
      (Statement.read command.payload.statement = .ok (.terminateCluster topics) →
        e.catalog.alreadyApplied command.id command.offset = false →
          e.apply b command mode = (.ok effect, e.publish (c'.recordApplied command), b')) :=
  ⟨_, _, _, _, rfl, e.catalog.terminateCluster_dissolves b topics,
    fun hread hnew => apply_terminateCluster hread hnew b mode⟩

def guarded : Engine × Broker :=
  serveAll (ofCommandTopic "c", (Broker.ofTopics ["c", "A"]).denyDelete "A") seized

def farewell : Command :=
  { termination 2 with
    payload := { statement := "TERMINATE CLUSTER DELETE TOPICS ('A', 'gone', 'B');" } }

theorem termination_dissolves_guarded :
    Statement.read farewell.payload.statement = .ok (.terminateCluster ["A", "gone", "B"]) ∧
      guarded.1.catalog.alreadyApplied farewell.id farewell.offset = false ∧
      ∃ report effect c' b',
        guarded.1.apply guarded.2 farewell .live =
          (.ok effect, guarded.1.publish (c'.recordApplied farewell), b') ∧
        Dissolved guarded.1.catalog guarded.2 ["A", "gone", "B"] report effect c' b' := by
  have hread : Statement.read farewell.payload.statement =
      .ok (.terminateCluster ["A", "gone", "B"]) := by decide +kernel
  have hnew : guarded.1.catalog.alreadyApplied farewell.id farewell.offset = false := by
    decide +kernel
  obtain ⟨report, effect, c', b', -, hdissolved, happly⟩ :=
    termination_dissolves guarded.1 guarded.2 farewell .live ["A", "gone", "B"]
  exact ⟨hread, hnew, report, effect, c', b', happly hread hnew, hdissolved⟩

example : ((guarded.1.apply guarded.2 farewell .live).1.toOption.map Effect.message) =
    some ("Cluster terminated: 1 queries stopped, 2 topics deleted; " ++
      "failed to delete: A (Not authorized to delete topic 'A')") := by
  decide +kernel

end Engine

end StatementLog
