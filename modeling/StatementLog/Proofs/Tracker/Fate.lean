import StatementLog.Proofs.Tracker.Delivery

namespace StatementLog

open Std

namespace Recent

variable {r : Recent} {slot slot' : Slot} {status status' : Status}

theorem find?_without (h : slot ≠ slot') :
    (r.without slot).find? (fun e => e.1 = slot') = r.entries.find? (fun e => e.1 = slot') := by
  rw [without, List.find?_filter]
  congr 1
  funext e
  by_cases he : e.1 = slot'
  · simp [he, h.symm]
  · simp [he]

theorem lookup?_of_put (h : (r.put slot status).lookup? slot' = some status') :
    slot = slot' ∧ status = status' ∨ slot ≠ slot' ∧ r.lookup? slot' = some status' := by
  obtain ⟨e, he, rfl⟩ := Option.map_eq_some_iff.1 h
  have he := (List.take_prefix _ _).find?_eq_some he
  rw [List.find?_cons] at he
  by_cases hs : slot = slot'
  · simp only [hs, decide_true] at he
    cases he
    exact .inl ⟨hs, rfl⟩
  · simp only [hs, decide_false] at he
    rw [find?_without hs] at he
    exact .inr ⟨hs, by rw [lookup?, he, Option.map_some]⟩

theorem lookup?_touch (r : Recent) (slot slot' : Slot) :
    (r.touch slot).lookup? slot' = r.lookup? slot' := by
  unfold touch
  split
  · next status h =>
    by_cases hs : slot = slot'
    · rw [← hs, h]
      simp [lookup?]
    · simp only [lookup?, List.find?_cons, hs, decide_false, find?_without hs]
  · rfl

end Recent

def Tracker.Waiting.statuses : Waiting → List Status
  | .resolved status => [status]
  | .pending | .dropped => []

namespace Tracker

variable {t t' : Tracker} {h : StatusHandle} {v : Waiting} {slot slot' : Slot} {status : Status}
  {published : List (Slot × Status)}

def handedTo (t : Tracker) (w : Nat) : List Status :=
  t.delivered.filterMap fun d => if d.1 = w then some d.2 else none

/-- The slots of the table are those for which somebody waits, and no final status of theirs is
remembered. -/
structure Tidy (t : Tracker) : Prop where
  idle {slot : Slot} {status : Status} : t.completed.lookup? slot = some status →
    t.waiters[slot]? = none
  occupied {slot : Slot} {ws : List Nat} : t.waiters[slot]? = some ws → ws ≠ []

/-- What has become of a waiter: it is in the table once, under its own slot, as long as it is
pending, and nothing has been handed to it but the status it is resolved with, once. -/
structure Fated (t : Tracker) (h : StatusHandle) (v : Waiting) : Prop where
  known : h.waiter < t.nextWaiter
  listed (slot : Slot) : (t.waitersOf slot).count h.waiter =
    if v = .pending ∧ h.slot = slot then 1 else 0
  handed : t.handedTo h.waiter = v.statuses

theorem lookup_delivered (t : Tracker) (w : Nat) : t.delivered.lookup w = (t.handedTo w).head? := by
  unfold handedTo
  induction t.delivered with
  | nil => rfl
  | cons d ds ih =>
    obtain ⟨w', status⟩ := d
    by_cases hw : w' = w
    · simp [hw]
    · have hb : (w == w') = false := beq_eq_false_iff_ne.2 (Ne.symm hw)
      simp [hw, hb, List.lookup_cons, ih]

theorem Fated.outcome (hf : t.Fated h v) : t.outcome h = v := by
  have hl := hf.listed h.slot
  unfold Tracker.outcome
  rw [lookup_delivered, hf.handed]
  cases v with
  | resolved status => rfl
  | pending =>
    rw [if_pos ⟨rfl, rfl⟩] at hl
    exact if_pos (List.count_pos_iff.1 (by omega))
  | dropped =>
    rw [if_neg (by simp)] at hl
    exact if_neg (List.count_eq_zero.1 hl)

theorem Fated.congr (hf : t.Fated h v) (hn : t'.nextWaiter = t.nextWaiter)
    (hw : ∀ slot, t'.waitersOf slot = t.waitersOf slot) (hd : t'.delivered = t.delivered) :
    t'.Fated h v where
  known := hn ▸ hf.known
  listed slot := by rw [hw, hf.listed]
  handed := by rw [← hf.handed, handedTo, handedTo, hd]

theorem handedTo_resolve (t : Tracker) (slot : Slot) (status : Status) (w : Nat) :
    (t.resolve slot status).handedTo w =
      List.replicate ((t.waitersOf slot).count w) status ++ t.handedTo w := by
  rw [handedTo, resolve, List.filterMap_append]
  congr 1
  induction t.waitersOf slot with
  | nil => rfl
  | cons w' ws ih =>
    by_cases hw : w' = w
    · simp [hw, ih, List.replicate_succ]
    · simp [hw, ih]

theorem Fated.resolve (hf : t.Fated h v) (slot : Slot) (status : Status) :
    (t.resolve slot status).Fated h
      (if v = .pending ∧ h.slot = slot then .resolved status else v) where
  known := hf.known
  listed slot' := by
    have he := t.waitersOf_erase slot slot'
    have hr : (t.resolve slot status).waitersOf slot' =
        { t with waiters := t.waiters.erase slot }.waitersOf slot' := rfl
    rw [hr, he]
    have hl := hf.listed slot'
    split <;> split <;> simp_all
  handed := by
    rw [handedTo_resolve, hf.listed, hf.handed]
    split
    · next hv => simp [hv.1, Waiting.statuses]
    · rfl

theorem Fated.publish (hf : t.Fated h v) (slot : Slot) (status : Status) :
    (t.publish slot status).Fated h
      (if v = .pending ∧ h.slot = slot ∧ status.isTerminal then .resolved status else v) := by
  have hs := t.note_sheds slot status
  have hn := hf.congr hs.nextWaiter (fun slot' => waitersOf_note t slot slot' status) hs.delivered
  unfold Tracker.publish
  split
  · next ht => simpa [ht] using hn.resolve slot status
  · next ht => simpa [ht] using hn

theorem publish_nextWaiter (t : Tracker) (slot : Slot) (status : Status) :
    (t.publish slot status).nextWaiter = t.nextWaiter := by
  have hn := (t.note_sheds slot status).nextWaiter
  unfold Tracker.publish
  split <;> exact hn

theorem Fated.close (hf : t.Fated h v) :
    t.close.Fated h (if v = .pending then .dropped else v) where
  known := hf.known
  listed slot := by
    have hw : t.close.waitersOf slot = [] := by simp [waitersOf, Tracker.close]
    rw [hw]
    cases v <;> rfl
  handed := by
    have hd : t.close.handedTo h.waiter = t.handedTo h.waiter := rfl
    rw [hd, hf.handed]
    cases v <;> rfl

theorem register_cached (hc : t.completed.lookup? slot = some status) :
    t.register slot = (⟨slot, t.nextWaiter⟩,
      { t with
        completed := t.completed.touch slot, nextWaiter := t.nextWaiter + 1
        delivered := (t.nextWaiter, status) :: t.delivered }) := by
  simp only [register, hc]

theorem register_fresh (hc : t.completed.lookup? slot = none) :
    t.register slot = (⟨slot, t.nextWaiter⟩,
      { t with
        completed := t.completed.touch slot, nextWaiter := t.nextWaiter + 1
        waiters := t.waiters.insert slot (t.waitersOf slot ++ [t.nextWaiter]) }) := by
  simp only [register, hc]

theorem handedTo_cons (t : Tracker) (w w' : Nat) (status : Status) :
    { t with delivered := (w', status) :: t.delivered }.handedTo w =
      if w' = w then status :: t.handedTo w else t.handedTo w := by
  by_cases hw : w' = w
  · simp [handedTo, hw]
  · simp [handedTo, hw]

theorem Fated.register (hf : t.Fated h v) (slot : Slot) : (t.register slot).2.Fated h v := by
  have hne : t.nextWaiter ≠ h.waiter := (Nat.ne_of_lt hf.known).symm
  cases hc : t.completed.lookup? slot with
  | some status =>
    rw [register_cached hc]
    refine ⟨Nat.lt_succ_of_lt hf.known, hf.listed, ?_⟩
    exact (handedTo_cons t h.waiter t.nextWaiter status).trans (by rw [if_neg hne, hf.handed])
  | none =>
    rw [register_fresh hc]
    refine ⟨Nat.lt_succ_of_lt hf.known, fun slot' => ?_, hf.handed⟩
    have hi := waitersOf_insert t slot slot' (t.waitersOf slot ++ [t.nextWaiter])
    refine (congrArg (List.count h.waiter) hi).trans ?_
    rw [← hf.listed slot']
    split
    · next he => simp [he, hne]
    · rfl

theorem Honest.register_fated (hh : t.Honest published) (slot : Slot) :
    (t.register slot).1 = ⟨slot, t.nextWaiter⟩ ∧
      (t.register slot).2.Fated ⟨slot, t.nextWaiter⟩
        ((t.completed.lookup? slot).elim .pending .resolved) := by
  have hw (slot' : Slot) : (t.waitersOf slot').count t.nextWaiter = 0 :=
    List.count_eq_zero.2 fun hm => Nat.lt_irrefl _ (hh.waiting hm)
  have hd : t.handedTo t.nextWaiter = [] := by
    rw [handedTo, List.filterMap_eq_nil_iff]
    intro d hd
    exact if_neg (Nat.ne_of_lt (hh.delivered hd))
  cases hc : t.completed.lookup? slot with
  | some status =>
    rw [register_cached hc]
    refine ⟨rfl, Nat.lt_succ_self _, fun slot' => ?_, ?_⟩
    · exact (hw slot').trans (by simp)
    · exact (handedTo_cons t t.nextWaiter t.nextWaiter status).trans (by rw [if_pos rfl, hd]; rfl)
  | none =>
    rw [register_fresh hc]
    refine ⟨rfl, Nat.lt_succ_self _, fun slot' => ?_, hd⟩
    have hi := waitersOf_insert t slot slot' (t.waitersOf slot ++ [t.nextWaiter])
    refine (congrArg (List.count t.nextWaiter) hi).trans ?_
    split
    · next he => simp [he, List.count_append, hw]
    · next he => simp [he, hw]

theorem waitersOf_evict (t : Tracker) (h : StatusHandle) (slot : Slot) :
    (t.evict h).waitersOf slot =
      if h.slot = slot then (t.waitersOf slot).filter (· ≠ h.waiter) else t.waitersOf slot := by
  unfold evict
  split
  · next hn =>
    split
    · next he => rw [waitersOf, ← he, hn]; rfl
    · rfl
  · next ws hws =>
    have hof : t.waitersOf h.slot = ws := by rw [waitersOf, hws, Option.getD_some]
    split
    · next hnil =>
      rw [waitersOf_erase]
      split
      · next he => rw [← he, hof, hnil]
      · rfl
    · rw [waitersOf_insert]
      split
      · next he => rw [← he, hof]
      · rfl

theorem evict_keeps (t : Tracker) (h : StatusHandle) :
    (t.evict h).nextWaiter = t.nextWaiter ∧ (t.evict h).handedTo = t.handedTo := by
  have hs := t.evict_sheds h
  exact ⟨hs.nextWaiter, funext fun w => by rw [handedTo, handedTo, hs.delivered]⟩

theorem Fated.evict (hf : t.Fated h v) (h' : StatusHandle) :
    (t.evict h').Fated h (if v = .pending ∧ h' = h then .dropped else v) where
  known := (t.evict_keeps h').1 ▸ hf.known
  listed slot := by
    have hl := hf.listed slot
    rw [waitersOf_evict]
    by_cases hv : v = .pending ∧ h' = h
    · have hd : ¬ (Waiting.dropped = .pending ∧ h.slot = slot) := fun hd => nomatch hd.1
      rw [if_pos hv, if_neg hd]
      obtain ⟨rfl, rfl⟩ := hv
      split
      · exact List.count_eq_zero.2 (by simp)
      · next hne => rw [hl, if_neg fun hs => hne hs.2]
    · rw [if_neg hv, ← hl]
      split
      · next hs =>
        by_cases hw : h'.waiter = h.waiter
        · have hne : ¬ (v = .pending ∧ h.slot = slot) := fun he => by
            obtain ⟨s, w⟩ := h
            obtain ⟨s', w'⟩ := h'
            cases hw
            cases hs
            cases he.2
            exact hv ⟨he.1, rfl⟩
          rw [hl, if_neg hne]
          exact List.count_eq_zero.2 (by simp [hw])
        · exact List.count_filter (by simpa using Ne.symm hw)
      · rfl
  handed := by
    rw [(t.evict_keeps h').2, hf.handed]
    split
    · next hv => rw [hv.1]; rfl
    · rfl

def Furthers (t t' : Tracker) : Prop :=
  ∀ h v, t.Fated h v → ∃ v', t'.Fated h v' ∧ (v ≠ .pending → v' = v)

theorem Furthers.trans {t'' : Tracker} (hf : t.Furthers t') (hf' : t'.Furthers t'') :
    t.Furthers t'' := by
  intro h v hv
  obtain ⟨v', hv', hkeep⟩ := hf h v hv
  obtain ⟨v'', hv'', hkeep'⟩ := hf' h v' hv'
  refine ⟨v'', hv'', fun hne => ?_⟩
  obtain rfl := hkeep hne
  exact hkeep' hne

theorem publish_furthers (t : Tracker) (slot : Slot) (status : Status) :
    t.Furthers (t.publish slot status) :=
  fun _ _ hf => ⟨_, hf.publish slot status, fun hne => if_neg fun hv => hne hv.1⟩

theorem publish_all_furthers (t : Tracker) (ps : List (Slot × Status)) :
    t.Furthers (ps.foldr (fun p t => t.publish p.1 p.2) t) := by
  induction ps with
  | nil => exact fun _ v hf => ⟨v, hf, fun _ => rfl⟩
  | cons p ps ih => exact ih.trans (publish_furthers _ p.1 p.2)

theorem Use.furthers (hu : Use t t') : t.Furthers t' := by
  intro h v hf
  cases hu with
  | none => exact ⟨v, hf, fun _ => rfl⟩
  | register slot => exact ⟨v, hf.register slot, fun _ => rfl⟩
  | queued slot => exact publish_furthers t slot .queued h v hf
  | evict h' => exact ⟨_, hf.evict h', fun hne => if_neg fun hv => hne hv.1⟩
  | close => exact ⟨_, hf.close, fun hne => if_neg hne⟩

theorem ofCapacity_tidy (capacity : Nat) : (ofCapacity capacity).Tidy where
  idle _ := by simp [ofCapacity]
  occupied ho := by simp [ofCapacity] at ho

theorem Tidy.congr (ht : t.Tidy) (hc : t'.completed = t.completed) (hw : t'.waiters = t.waiters) :
    t'.Tidy :=
  ⟨by rw [hc, hw]; exact ht.idle, by rw [hw]; exact ht.occupied⟩

theorem Tidy.resolve (ht : t.Tidy) (slot : Slot) (status : Status) :
    (t.resolve slot status).Tidy where
  idle {slot'} status' hc := by
    rw [Tracker.resolve, ExtTreeMap.getElem?_erase]
    split
    · rfl
    · next hne =>
      refine ht.idle ((Recent.lookup?_of_put hc).resolve_left fun he => hne ?_).2
      exact Std.compare_eq_iff_eq.2 he.1
  occupied {slot'} ws ho := by
    rw [Tracker.resolve, ExtTreeMap.getElem?_erase] at ho
    split at ho
    · cases ho
    · exact ht.occupied ho

theorem Tidy.publish (ht : t.Tidy) (slot : Slot) (status : Status) :
    (t.publish slot status).Tidy := by
  have hn : (t.note slot status).Tidy := by
    refine ht.congr ?_ ?_ <;> unfold note <;> split <;> rfl
  unfold Tracker.publish
  split
  · exact hn.resolve slot status
  · exact hn

theorem Tidy.register (ht : t.Tidy) (slot : Slot) : (t.register slot).2.Tidy := by
  cases hc : t.completed.lookup? slot with
  | some status =>
    rw [register_cached hc]
    refine ⟨fun hl => ht.idle (Recent.lookup?_touch t.completed slot _ ▸ hl), ht.occupied⟩
  | none =>
    rw [register_fresh hc]
    refine ⟨fun {slot'} _ hl => ?_, fun {slot'} ws ho => ?_⟩
    · rw [Recent.lookup?_touch] at hl
      have hne : slot ≠ slot' := fun he => by rw [he, hl] at hc; cases hc
      rw [ExtTreeMap.getElem?_insert, if_neg (by simpa using hne)]
      exact ht.idle hl
    · rw [ExtTreeMap.getElem?_insert] at ho
      split at ho
      · cases ho
        simp
      · exact ht.occupied ho

theorem Tidy.evict (ht : t.Tidy) (h : StatusHandle) : (t.evict h).Tidy := by
  unfold Tracker.evict
  split
  · exact ht
  · next ws hws =>
    have hc {slot : Slot} {status : Status} (hl : t.completed.lookup? slot = some status) :
        h.slot ≠ slot := fun he => by
      rw [he, ht.idle hl] at hws
      cases hws
    split
    · refine ⟨fun hl => ?_, fun ho => ?_⟩
      · rw [ExtTreeMap.getElem?_erase, if_neg (by simpa using hc hl)]
        exact ht.idle hl
      · rw [ExtTreeMap.getElem?_erase] at ho
        split at ho
        · cases ho
        · exact ht.occupied ho
    · next hne =>
      refine ⟨fun hl => ?_, fun ho => ?_⟩
      · rw [ExtTreeMap.getElem?_insert, if_neg (by simpa using hc hl)]
        exact ht.idle hl
      · rw [ExtTreeMap.getElem?_insert] at ho
        split at ho
        · cases ho
          exact hne
        · exact ht.occupied ho

theorem close_tidy (t : Tracker) : t.close.Tidy where
  idle _ := by simp [Tracker.close]
  occupied ho := by simp [Tracker.close] at ho

theorem Use.tidy (hu : Use t t') (ht : t.Tidy) : t'.Tidy := by
  cases hu with
  | none => exact ht
  | register slot => exact ht.register slot
  | queued slot => exact ht.publish slot .queued
  | evict h => exact ht.evict h
  | close => exact t.close_tidy

theorem Use.lookup? (hu : Use t t') (slot : Slot) :
    t'.completed.lookup? slot = t.completed.lookup? slot := by
  cases hu with
  | none => rfl
  | register slot' => rw [(t.register_cases slot').2.1, Recent.lookup?_touch]
  | queued slot' => rw [(t.markQueued_sheds slot').completed]
  | evict h => rw [(t.evict_sheds h).completed]
  | close => rfl

theorem lookup?_of_publish {status' : Status}
    (hl : (t.publish slot status).completed.lookup? slot' = some status') :
    slot = slot' ∧ status.isTerminal = true ∧ status = status' ∨
      ¬ (slot = slot' ∧ status.isTerminal = true) ∧
        t.completed.lookup? slot' = some status' := by
  have hn := (t.note_sheds slot status).completed
  unfold Tracker.publish at hl
  split at hl
  · next ht =>
    rw [resolve, hn] at hl
    rcases Recent.lookup?_of_put hl with ⟨hs, he⟩ | ⟨hs, hl⟩
    · exact .inl ⟨hs, ht, he⟩
    · exact .inr ⟨fun he => hs he.1, hl⟩
  · next ht => exact .inr ⟨fun he => ht he.2, hn ▸ hl⟩

end Tracker

end StatementLog
