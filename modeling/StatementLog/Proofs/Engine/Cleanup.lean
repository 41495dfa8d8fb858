import StatementLog.Proofs.Engine.Touch

namespace StatementLog

open Std

namespace Broker

variable {b : Broker}

theorem deleteIfPresent_available (hb : b.available = true) (t : String) :
    b.deleteIfPresent t =
      if b.topics.contains t then
        if b.undeletable.contains t then .error (notAuthorized t)
        else .ok (true, { b with topics := b.topics.erase t })
      else .ok (false, b) := by
  rw [deleteIfPresent, topicExists, if_pos hb]
  cases b.topics.contains t with
  | false => rfl
  | true =>
    simp only [if_true, bind, Except.bind, deleteTopic, hb, Bool.not_true, Bool.false_eq_true,
      if_false]
    cases b.undeletable.contains t <;> rfl

theorem release_away (hb : b.available = false) (topics : List String) :
    b.release topics = (⟨[], topics.map fun t => (t, unreachable.message)⟩, b) := by
  induction topics with
  | nil => rfl
  | cons topic topics ih =>
    have hd : b.deleteIfPresent topic = .error unreachable := by
      rw [deleteIfPresent, topicExists, hb]
      rfl
    rw [release, hd]
    simp only [ih]
    rfl

theorem release_cons (hb : b.available = true) (topic : String) (topics : List String) :
    (b.release (topic :: topics)).2 =
      ((if b.undeletable.contains topic then b
        else { b with topics := b.topics.erase topic }).release topics).2 := by
  rw [release, deleteIfPresent_available hb]
  cases hu : b.undeletable.contains topic with
  | true => cases b.topics.contains topic <;> rfl
  | false =>
    cases hc : b.topics.contains topic with
    | true => rfl
    | false =>
      have hsame : b.topics.erase topic = b.topics := by
        refine ExtTreeSet.ext_mem fun t => ?_
        rw [ExtTreeSet.mem_erase]
        refine ⟨And.right, fun ht => ⟨fun he => ?_, ht⟩⟩
        rw [Std.compare_eq_iff_eq] at he
        subst he
        rw [ExtTreeSet.contains_iff_mem.2 ht] at hc
        cases hc
      rw [hsame]
      rfl

theorem contains_release (hb : b.available = true) {topics : List String} {t : String} :
    (b.release topics).2.topics.contains t = true ↔
      b.topics.contains t = true ∧ (t ∈ topics → b.undeletable.contains t = true) := by
  induction topics generalizing b with
  | nil => simp [release]
  | cons topic topics ih =>
    rw [release_cons hb, List.mem_cons]
    split
    · next hu =>
      rw [ih hb]
      refine and_congr_right fun _ => ⟨fun h => ?_, fun h ht => h (.inr ht)⟩
      rintro (rfl | ht)
      · exact hu
      · exact h ht
    · next hu =>
      have ih := ih (b := { b with topics := b.topics.erase topic }) hb
      rw [ih, ExtTreeSet.contains_erase]
      by_cases ht : t = topic
      · subst ht
        simp [hu]
      · simp [ht, Ne.symm ht]

theorem release_undeletable (hb : b.available = true) (topics : List String) :
    (b.release topics).2.undeletable = b.undeletable := by
  induction topics generalizing b with
  | nil => rfl
  | cons topic topics ih =>
    rw [release_cons hb]
    split
    · exact ih hb
    · exact ih hb

theorem contains_of_release {topics : List String} {t : String}
    (h : (b.release topics).2.topics.contains t = true) : b.topics.contains t = true := by
  cases hb : b.available with
  | false => rwa [release_away hb] at h
  | true => exact ((contains_release hb).1 h).1

end Broker

namespace Catalog

variable {c : Catalog} {b : Broker} {topics : List String} {t : String}

theorem contains_foldl_erase (s : Topics) :
    (topics.foldl ExtTreeSet.erase s).contains t = true ↔ s.contains t = true ∧ t ∉ topics := by
  induction topics generalizing s with
  | nil => simp
  | cons topic topics ih =>
    rw [List.foldl_cons, ih, ExtTreeSet.contains_erase, List.mem_cons, not_or]
    by_cases ht : t = topic
    · simp [ht]
    · simp [ht, Ne.symm ht]

theorem contains_foldl_insert (s : Topics) :
    (topics.foldl ExtTreeSet.insert s).contains t = true ↔ s.contains t = true ∨ t ∈ topics := by
  induction topics generalizing s with
  | nil => simp
  | cons topic topics ih =>
    rw [List.foldl_cons, ih, ExtTreeSet.contains_insert, List.mem_cons]
    by_cases ht : t = topic
    · simp [ht]
    · simp [ht, Ne.symm ht]

theorem mem_releaseTargets :
    t ∈ (c.releaseTargets topics).toList ↔ c.managed.contains t = true ∨ t ∈ topics := by
  rw [ExtTreeSet.mem_toList, ← ExtTreeSet.contains_iff_mem, releaseTargets, contains_foldl_insert]

theorem managed_of_terminateCluster
    (h : (c.terminateCluster b topics).2.1.managed.contains t = true) :
    c.managed.contains t = true :=
  ((contains_foldl_erase c.managed).1 h).1

theorem contains_terminateCluster (hb : b.available = true) :
    (c.terminateCluster b topics).2.2.topics.contains t = true ↔
      b.topics.contains t = true ∧
        (c.managed.contains t = true ∨ t ∈ topics → b.undeletable.contains t = true) := by
  rw [← mem_releaseTargets]
  exact Broker.contains_release hb

end Catalog

end StatementLog
