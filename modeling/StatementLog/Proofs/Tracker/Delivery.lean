import StatementLog.Tracker

namespace StatementLog

open Std

namespace Recent

variable {r : Recent} {slot : Slot} {status : Status} {e : Slot × Status}

theorem mem_of_lookup? (h : r.lookup? slot = some status) : (slot, status) ∈ r.entries := by
  obtain ⟨⟨slot', status'⟩, hf, rfl⟩ := Option.map_eq_some_iff.1 h
  have hs : slot' = slot := by simpa using List.find?_some hf
  exact hs ▸ List.mem_of_find?_eq_some hf

theorem mem_put (h : e ∈ (r.put slot status).entries) : e = (slot, status) ∨ e ∈ r.entries := by
  rcases List.mem_cons.1 (List.mem_of_mem_take h) with he | he
  · exact .inl he
  · exact .inr (List.mem_filter.1 he).1

theorem mem_touch (h : e ∈ (r.touch slot).entries) : e ∈ r.entries := by
  unfold touch at h
  split at h
  · next hl =>
    rcases List.mem_cons.1 h with rfl | he
    · exact mem_of_lookup? hl
    · exact (List.mem_filter.1 he).1
  · exact h

end Recent

namespace Tracker

inductive Use : Tracker → Tracker → Prop where
  | none (t : Tracker) : Use t t
  | register (t : Tracker) (slot : Slot) : Use t (t.register slot).2
  | queued (t : Tracker) (slot : Slot) : Use t (t.markQueued slot)
  | evict (t : Tracker) (h : StatusHandle) : Use t (t.evict h)
  | close (t : Tracker) : Use t t.close

/-- The tracker has been told the statuses, the latest first, and callers have used it between. -/
inductive Hears : List (Slot × Status) → Tracker → Tracker → Prop where
  | refl (t : Tracker) : Hears [] t t
  | use {ps : List (Slot × Status)} {t t' t'' : Tracker} : Hears ps t t' → Use t' t'' →
      Hears ps t t''
  | publish {ps : List (Slot × Status)} {t t' : Tracker} (p : Slot × Status) : Hears ps t t' →
      Hears (p :: ps) t (t'.publish p.1 p.2)

theorem Hears.publish_all {ps : List (Slot × Status)} {t t' : Tracker} (h : Hears ps t t')
    (more : List (Slot × Status)) :
    Hears (more ++ ps) t (more.foldr (fun p t => t.publish p.1 p.2) t') := by
  induction more with
  | nil => exact h
  | cons p more ih => exact ih.publish p

structure Honest (t : Tracker) (published : List (Slot × Status)) : Prop where
  completed {slot : Slot} {status : Status} : (slot, status) ∈ t.completed.entries →
    (slot, status) ∈ published ∧ status.isTerminal = true
  waiting {slot : Slot} {w : Nat} : w ∈ t.waitersOf slot → w < t.nextWaiter
  delivered {w : Nat} {status : Status} : (w, status) ∈ t.delivered → w < t.nextWaiter

structure Stands (t : Tracker) (published : List (Slot × Status)) (w : Nat) (slot : Slot) :
    Prop where
  known : w < t.nextWaiter
  waiting {slot' : Slot} : w ∈ t.waitersOf slot' → slot' = slot
  delivered {status : Status} : (w, status) ∈ t.delivered →
    (slot, status) ∈ published ∧ status.isTerminal = true

variable {t t' : Tracker} {published published' : List (Slot × Status)} {w : Nat}
  {slot : Slot}

theorem ofCapacity_honest (capacity : Nat) (published : List (Slot × Status)) :
    (ofCapacity capacity).Honest published where
  completed h := nomatch h
  waiting h := by simp [waitersOf, ofCapacity] at h
  delivered h := nomatch h

theorem Honest.mono (h : t.Honest published) (hp : ∀ p ∈ published, p ∈ published') :
    t.Honest published' where
  completed hc := ⟨hp _ (h.completed hc).1, (h.completed hc).2⟩
  waiting := h.waiting
  delivered := h.delivered

theorem Stands.mono (h : t.Stands published w slot) (hp : ∀ p ∈ published, p ∈ published') :
    t.Stands published' w slot where
  known := h.known
  waiting := h.waiting
  delivered hd := ⟨hp _ (h.delivered hd).1, (h.delivered hd).2⟩

theorem mem_of_lookup {l : List (Nat × Status)} {status : Status} (h : l.lookup w = some status) :
    (w, status) ∈ l := by
  induction l with
  | nil => cases h
  | cons e l ih =>
    rw [List.lookup_cons] at h
    split at h
    · next he =>
      cases h
      rw [eq_of_beq he]
      exact List.mem_cons_self ..
    · exact List.mem_cons_of_mem _ (ih h)

theorem Stands.outcome {handle : StatusHandle} {status : Status}
    (h : t.Stands published handle.waiter slot) (hr : t.outcome handle = .resolved status) :
    (slot, status) ∈ published ∧ status.isTerminal = true := by
  unfold Tracker.outcome at hr
  split at hr
  · next hl =>
    cases hr
    exact h.delivered (mem_of_lookup hl)
  · split at hr <;> cases hr

theorem waitersOf_insert (t : Tracker) (slot slot' : Slot) (ws : List Nat) :
    { t with waiters := t.waiters.insert slot ws }.waitersOf slot' =
      if slot = slot' then ws else t.waitersOf slot' := by
  simp only [waitersOf, ExtTreeMap.getElem?_insert, Std.compare_eq_iff_eq]
  split <;> rfl

theorem waitersOf_erase (t : Tracker) (slot slot' : Slot) :
    { t with waiters := t.waiters.erase slot }.waitersOf slot' =
      if slot = slot' then [] else t.waitersOf slot' := by
  simp only [waitersOf, ExtTreeMap.getElem?_erase, Std.compare_eq_iff_eq]
  split <;> rfl

theorem waitersOf_note (t : Tracker) (slot slot' : Slot) (status : Status) :
    (t.note slot status).waitersOf slot' = t.waitersOf slot' := by
  unfold note
  split <;> rfl

structure Sheds (t t' : Tracker) : Prop where
  completed : t'.completed = t.completed
  nextWaiter : t'.nextWaiter = t.nextWaiter
  delivered : t'.delivered = t.delivered
  waiting {slot : Slot} {w : Nat} : w ∈ t'.waitersOf slot → w ∈ t.waitersOf slot

theorem Sheds.honest (hs : t.Sheds t') (h : t.Honest published) : t'.Honest published where
  completed hc := h.completed (hs.completed ▸ hc)
  waiting hw := hs.nextWaiter ▸ h.waiting (hs.waiting hw)
  delivered hd := hs.nextWaiter ▸ h.delivered (hs.delivered ▸ hd)

theorem Sheds.stands (hs : t.Sheds t') (h : t.Stands published w slot) :
    t'.Stands published w slot where
  known := hs.nextWaiter ▸ h.known
  waiting hw := h.waiting (hs.waiting hw)
  delivered hd := h.delivered (hs.delivered ▸ hd)

theorem note_sheds (t : Tracker) (slot : Slot) (status : Status) :
    t.Sheds (t.note slot status) := by
  refine ⟨?_, ?_, ?_, fun h => by rwa [waitersOf_note] at h⟩ <;> unfold note <;> split <;> rfl

theorem close_sheds (t : Tracker) : t.Sheds t.close :=
  ⟨rfl, rfl, rfl, fun h => by simp [waitersOf, Tracker.close] at h⟩

theorem evict_sheds (t : Tracker) (handle : StatusHandle) : t.Sheds (t.evict handle) := by
  unfold evict
  split
  · exact ⟨rfl, rfl, rfl, id⟩
  · next ws hws =>
    have hof : t.waitersOf handle.slot = ws := by rw [waitersOf, hws, Option.getD_some]
    split
    · refine ⟨rfl, rfl, rfl, fun h => ?_⟩
      rw [waitersOf_erase] at h
      split at h
      · cases h
      · exact h
    · next ws' hne =>
      refine ⟨rfl, rfl, rfl, fun h => ?_⟩
      rw [waitersOf_insert] at h
      split at h
      · next heq =>
        rw [← heq, hof]
        exact (List.mem_filter.1 h).1
      · exact h

theorem Honest.resolve {status : Status} (h : t.Honest published) (hs : status.isTerminal = true) :
    (t.resolve slot status).Honest ((slot, status) :: published) where
  completed hc := by
    rcases Recent.mem_put hc with he | hc
    · cases he
      exact ⟨List.mem_cons_self .., hs⟩
    · exact ⟨List.mem_cons_of_mem _ (h.completed hc).1, (h.completed hc).2⟩
  waiting {slot'} {w} hw := by
    have hw : w ∈ { t with waiters := t.waiters.erase slot }.waitersOf slot' := hw
    rw [waitersOf_erase] at hw
    split at hw
    · cases hw
    · exact h.waiting hw
  delivered {w} status' hd := by
    rcases List.mem_append.1 hd with hd | hd
    · obtain ⟨w', hw, he⟩ := List.mem_map.1 hd
      cases he
      exact h.waiting hw
    · exact h.delivered hd

theorem Stands.resolve {slot' : Slot} {status : Status} (h : t.Stands published w slot)
    (hs : status.isTerminal = true) :
    (t.resolve slot' status).Stands ((slot', status) :: published) w slot where
  known := h.known
  waiting {slot''} hw := by
    have hw : w ∈ { t with waiters := t.waiters.erase slot' }.waitersOf slot'' := hw
    rw [waitersOf_erase] at hw
    split at hw
    · cases hw
    · exact h.waiting hw
  delivered {status'} hd := by
    rcases List.mem_append.1 hd with hd | hd
    · obtain ⟨w', hw, he⟩ := List.mem_map.1 hd
      cases he
      rw [h.waiting hw]
      exact ⟨List.mem_cons_self .., hs⟩
    · exact ⟨List.mem_cons_of_mem _ (h.delivered hd).1, (h.delivered hd).2⟩

theorem Honest.publish (h : t.Honest published) (slot : Slot) (status : Status) :
    (t.publish slot status).Honest ((slot, status) :: published) := by
  have hn := (t.note_sheds slot status).honest h
  unfold Tracker.publish
  split
  · next hs => exact hn.resolve hs
  · exact hn.mono fun _ hp => List.mem_cons_of_mem _ hp

theorem Stands.publish (h : t.Stands published w slot) (slot' : Slot) (status : Status) :
    (t.publish slot' status).Stands ((slot', status) :: published) w slot := by
  have hn := (t.note_sheds slot' status).stands h
  unfold Tracker.publish
  split
  · next hs => exact hn.resolve hs
  · exact hn.mono fun _ hp => List.mem_cons_of_mem _ hp

theorem Honest.publish_all (h : t.Honest published) (ps : List (Slot × Status)) :
    (ps.foldr (fun p t => t.publish p.1 p.2) t).Honest (ps ++ published) := by
  induction ps with
  | nil => exact h
  | cons p ps ih => exact ih.publish p.1 p.2

theorem Stands.publish_all (h : t.Stands published w slot) (ps : List (Slot × Status)) :
    (ps.foldr (fun p t => t.publish p.1 p.2) t).Stands (ps ++ published) w slot := by
  induction ps with
  | nil => exact h
  | cons p ps ih => exact ih.publish p.1 p.2

theorem markQueued_sheds (t : Tracker) (slot : Slot) : t.Sheds (t.markQueued slot) :=
  note_sheds t slot .queued

theorem register_cases (t : Tracker) (slot : Slot) :
    (t.register slot).1 = ⟨slot, t.nextWaiter⟩ ∧
      (t.register slot).2.completed = t.completed.touch slot ∧
      (t.register slot).2.nextWaiter = t.nextWaiter + 1 ∧
      ((∃ status, (slot, status) ∈ t.completed.entries ∧
          (t.register slot).2.delivered = (t.nextWaiter, status) :: t.delivered ∧
          ∀ slot', (t.register slot).2.waitersOf slot' = t.waitersOf slot') ∨
        (t.register slot).2.delivered = t.delivered ∧
          ∀ slot', (t.register slot).2.waitersOf slot' =
            if slot = slot' then t.waitersOf slot ++ [t.nextWaiter] else t.waitersOf slot') := by
  unfold register
  split
  · next hl => exact ⟨rfl, rfl, rfl, .inl ⟨_, Recent.mem_of_lookup? hl, rfl, fun _ => rfl⟩⟩
  · exact ⟨rfl, rfl, rfl, .inr ⟨rfl, fun slot' => waitersOf_insert t slot slot' _⟩⟩

theorem Honest.register (h : t.Honest published) (slot : Slot) :
    (t.register slot).2.Honest published := by
  obtain ⟨-, hc, hn, hr⟩ := t.register_cases slot
  refine ⟨fun hm => h.completed (Recent.mem_touch (hc ▸ hm)), fun {slot'} {w} hw => ?_,
    fun {w} {status} hd => ?_⟩
  · rw [hn]
    rcases hr with ⟨_, -, -, hr⟩ | ⟨-, hr⟩
    · rw [hr] at hw
      exact Nat.lt_succ_of_lt (h.waiting hw)
    · rw [hr] at hw
      split at hw
      · rcases List.mem_append.1 hw with hw | hw
        · exact Nat.lt_succ_of_lt (h.waiting hw)
        · exact Nat.lt_succ_of_le (Nat.le_of_eq (List.mem_singleton.1 hw))
      · exact Nat.lt_succ_of_lt (h.waiting hw)
  · rw [hn]
    rcases hr with ⟨_, -, hr, -⟩ | ⟨hr, -⟩
    · rw [hr] at hd
      rcases List.mem_cons.1 hd with he | hd
      · cases he
        exact Nat.lt_succ_self _
      · exact Nat.lt_succ_of_lt (h.delivered hd)
    · rw [hr] at hd
      exact Nat.lt_succ_of_lt (h.delivered hd)

theorem Stands.register (h : t.Stands published w slot) (slot' : Slot) :
    (t.register slot').2.Stands published w slot := by
  obtain ⟨-, -, hn, hr⟩ := t.register_cases slot'
  have hne : w ≠ t.nextWaiter := Nat.ne_of_lt h.known
  refine ⟨hn ▸ Nat.lt_succ_of_lt h.known, fun {slot''} hw => ?_, fun {status} hd => ?_⟩
  · rcases hr with ⟨_, -, -, hr⟩ | ⟨-, hr⟩
    · exact h.waiting (hr slot'' ▸ hw)
    · rw [hr] at hw
      split at hw
      · next heq =>
        rcases List.mem_append.1 hw with hw | hw
        · exact heq ▸ h.waiting hw
        · exact absurd (List.mem_singleton.1 hw) hne
      · exact h.waiting hw
  · rcases hr with ⟨_, -, hr, -⟩ | ⟨hr, -⟩
    · rw [hr] at hd
      rcases List.mem_cons.1 hd with he | hd
      · cases he
        exact absurd rfl hne
      · exact h.delivered hd
    · exact h.delivered (hr ▸ hd)

theorem Honest.register_stands (h : t.Honest published) (slot : Slot) :
    (t.register slot).1.slot = slot ∧
      (t.register slot).2.Stands published (t.register slot).1.waiter slot := by
  obtain ⟨hh, -, hn, hr⟩ := t.register_cases slot
  rw [hh]
  refine ⟨rfl, hn ▸ Nat.lt_succ_self _, fun {slot'} hw => ?_, fun {status} hd => ?_⟩
  · rcases hr with ⟨_, -, -, hr⟩ | ⟨-, hr⟩
    · rw [hr] at hw
      exact absurd (h.waiting hw) (Nat.lt_irrefl _)
    · rw [hr] at hw
      split at hw
      · next heq => exact heq.symm
      · exact absurd (h.waiting hw) (Nat.lt_irrefl _)
  · rcases hr with ⟨status', hc, hr, -⟩ | ⟨hr, -⟩
    · rw [hr] at hd
      rcases List.mem_cons.1 hd with he | hd
      · cases he
        exact h.completed hc
      · exact absurd (h.delivered hd) (Nat.lt_irrefl _)
    · rw [hr] at hd
      exact absurd (h.delivered hd) (Nat.lt_irrefl _)

theorem Use.honest (hu : Use t t') (h : t.Honest published) : t'.Honest published := by
  cases hu with
  | none => exact h
  | register slot => exact h.register slot
  | queued slot => exact (t.markQueued_sheds slot).honest h
  | evict handle => exact (t.evict_sheds handle).honest h
  | close => exact t.close_sheds.honest h

theorem Use.stands (hu : Use t t') (h : t.Stands published w slot) :
    t'.Stands published w slot := by
  cases hu with
  | none => exact h
  | register slot' => exact h.register slot'
  | queued slot' => exact (t.markQueued_sheds slot').stands h
  | evict handle => exact (t.evict_sheds handle).stands h
  | close => exact t.close_sheds.stands h

end Tracker

end StatementLog
