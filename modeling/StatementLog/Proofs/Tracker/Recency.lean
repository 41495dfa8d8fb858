import Mathlib.Data.Finset.Card
import Mathlib.Data.List.DropRight
import StatementLog.Proofs.Tracker.Desk

namespace StatementLog

namespace Recency

section

variable {α : Type} {a : α} {us : List α}

theorem mem_take_append_cons {l : List α} (ha : a ∉ l) (r : List α) (n : Nat) :
    a ∈ (l ++ a :: r).take n ↔ l.length < n := by
  induction l generalizing n with
  | nil => cases n <;> simp
  | cons b l ih =>
    rw [List.mem_cons, not_or] at ha
    cases n with
    | zero => simp
    | succ n => simp [ha.1, ih ha.2]

theorem exists_last_use (h : a ∈ us) : ∃ before since, us = before ++ a :: since ∧ a ∉ since := by
  obtain ⟨since, before, hr, hsince⟩ := List.eq_append_cons_of_mem (List.mem_reverse.2 h)
  refine ⟨before.reverse, since.reverse, ?_, by simpa using hsince⟩
  rw [← List.reverse_reverse us, hr]
  simp

end

variable {α : Type} [DecidableEq α] {a : α} {us : List α}

def othersSince (a : α) (us : List α) : Finset α :=
  (us.rtakeWhile (· ≠ a)).toFinset

def byLastUse (us : List α) : List α :=
  us.dedup.reverse

theorem nodup_byLastUse (us : List α) : (byLastUse us).Nodup :=
  List.nodup_reverse.2 (List.nodup_dedup us)

theorem dedup_concat (us : List α) (a : α) :
    (us ++ [a]).dedup = us.dedup.filter (· ≠ a) ++ [a] := by
  induction us with
  | nil => rfl
  | cons u us ih =>
    rw [List.cons_append]
    by_cases hm : u ∈ us
    · rw [List.dedup_cons_of_mem (List.mem_append_left _ hm), List.dedup_cons_of_mem hm, ih]
    · rw [List.dedup_cons_of_notMem hm]
      by_cases hu : u = a
      · rw [List.dedup_cons_of_mem (by simp [hu]), ih, List.filter_cons_of_neg (by simpa using hu)]
      · rw [List.dedup_cons_of_notMem (by simp [hm, hu]), ih,
          List.filter_cons_of_pos (by simpa using hu), List.cons_append]

theorem byLastUse_concat (us : List α) (a : α) :
    byLastUse (us ++ [a]) = a :: (byLastUse us).filter (· ≠ a) := by
  rw [byLastUse, dedup_concat, List.reverse_concat, byLastUse, List.filter_reverse]

theorem filter_ne_eq_self {l : List α} (ha : a ∉ l) : l.filter (· ≠ a) = l := by
  rw [List.filter_eq_self]
  intro b hb
  simpa using fun h : b = a => ha (h ▸ hb)

theorem take_filter_take {l : List α} (hl : l.Nodup) (a : α) (n : Nat) :
    ((l.take (n + 1)).filter (· ≠ a)).take n = (l.filter (· ≠ a)).take n := by
  induction l generalizing n with
  | nil => rw [List.take_nil]
  | cons b l ih =>
    obtain ⟨hb, hl⟩ := List.nodup_cons.1 hl
    rw [List.take_succ_cons]
    by_cases he : b = a
    · subst he
      rw [List.filter_cons_of_neg (by simp), List.filter_cons_of_neg (by simp),
        filter_ne_eq_self fun h => hb (List.mem_of_mem_take h), filter_ne_eq_self hb,
        List.take_take, Nat.min_self]
    · rw [List.filter_cons_of_pos (by simpa using he), List.filter_cons_of_pos (by simpa using he)]
      cases n with
      | zero => rfl
      | succ n => rw [List.take_succ_cons, List.take_succ_cons, ih hl]

theorem take_cons_filter_take {l : List α} (hl : l.Nodup) (a : α) (n : Nat) :
    (a :: (l.take n).filter (· ≠ a)).take n = (a :: l.filter (· ≠ a)).take n := by
  cases n with
  | zero => rfl
  | succ n => rw [List.take_succ_cons, List.take_succ_cons, take_filter_take hl]

theorem othersSince_append {since : List α} (hsince : a ∉ since) (before : List α) :
    othersSince a (before ++ a :: since) = since.toFinset := by
  have hne : ∀ b ∈ since.reverse, decide (b ≠ a) = true := by
    intro b hb
    simpa using fun h : b = a => hsince (h ▸ List.mem_reverse.1 hb)
  rw [othersSince, List.rtakeWhile, List.reverse_append, List.reverse_cons, List.append_assoc,
    List.takeWhile_append_of_pos hne]
  simp

theorem mem_take_byLastUse (n : Nat) :
    a ∈ (byLastUse us).take n ↔ a ∈ us ∧ (othersSince a us).card < n := by
  by_cases h : a ∈ us
  · obtain ⟨before, since, rfl, hsince⟩ := exists_last_use h
    obtain ⟨older, ho⟩ := List.suffix_union_right before (a :: since).dedup
    have hsplit : byLastUse (before ++ a :: since) = since.dedup.reverse ++ a :: older.reverse := by
      rw [byLastUse, List.dedup_append, ← ho, List.dedup_cons_of_notMem hsince]
      simp
    have hlength : since.dedup.reverse.length = (othersSince a (before ++ a :: since)).card := by
      rw [othersSince_append hsince, List.card_toFinset, List.length_reverse]
    rw [hsplit, mem_take_append_cons (by simpa using hsince), hlength]
    simp
  · refine iff_of_false (fun hm => h ?_) fun hm => h hm.1
    simpa [byLastUse] using List.mem_of_mem_take hm

end Recency

namespace Recent

open Recency

variable {r : Recent} {n : Nat} {slot : Slot} {status : Status} {us : List Slot}

def slots (r : Recent) : List Slot :=
  r.entries.map Prod.fst

structure Ranks (r : Recent) (n : Nat) (us : List Slot) : Prop where
  capacity : r.capacity = n
  slots : r.slots = (byLastUse us).take n

theorem isSome_lookup? : (r.lookup? slot).isSome = true ↔ slot ∈ r.slots := by
  simp [lookup?, slots, List.find?_isSome]

theorem slots_put (r : Recent) (slot : Slot) (status : Status) :
    (r.put slot status).slots = (slot :: r.slots.filter (· ≠ slot)).take r.capacity := by
  rw [slots, put, List.map_take, List.map_cons, without, slots, List.filter_map]
  rfl

theorem Ranks.put (h : r.Ranks n us) (slot : Slot) (status : Status) :
    (r.put slot status).Ranks n (us ++ [slot]) where
  capacity := h.capacity
  slots := by
    rw [slots_put, h.slots, h.capacity, byLastUse_concat]
    exact take_cons_filter_take (nodup_byLastUse us) slot n

theorem Ranks.length_le (h : r.Ranks n us) : r.slots.length ≤ n := by
  rw [h.slots]
  exact List.length_take_le ..

theorem Ranks.nodup (h : r.Ranks n us) : r.slots.Nodup := by
  rw [h.slots]
  exact (List.take_sublist ..).nodup (nodup_byLastUse us)

theorem touch_eq_put (hl : r.lookup? slot = some status) (hr : r.slots.length ≤ r.capacity) :
    r.touch slot = r.put slot status := by
  have hshorter : (r.without slot).length < r.entries.length := by
    refine List.length_filter_lt_length_iff_exists.2 ⟨(slot, status), mem_of_lookup? hl, ?_⟩
    simp
  rw [slots, List.length_map] at hr
  have hroom : ((slot, status) :: r.without slot).length ≤ r.capacity := by
    rw [List.length_cons]
    omega
  rw [touch, hl, put, List.take_of_length_le hroom]

theorem touch_of_none (hl : r.lookup? slot = none) : r.touch slot = r := by
  simp only [touch, hl]

end Recent

namespace Tracker

variable {t : Tracker} {slot : Slot}

def found? (t : Tracker) (slot : Slot) : Option Status :=
  match (t.register slot).2.outcome (t.register slot).1 with
  | .resolved status => some status
  | .pending | .dropped => none

theorem Honest.found? {published : List (Slot × Status)} (h : t.Honest published) (slot : Slot) :
    t.found? slot = t.completed.lookup? slot := by
  obtain ⟨hfst, hf⟩ := h.register_fated slot
  rw [Tracker.found?, hfst, hf.outcome]
  cases t.completed.lookup? slot <;> rfl

theorem completed_publish (t : Tracker) (slot : Slot) (status : Status) :
    (t.publish slot status).completed =
      if status.isTerminal then t.completed.put slot status else t.completed := by
  have hn := (t.note_sheds slot status).completed
  unfold publish
  split
  · rw [resolve, hn]
  · exact hn

end Tracker

namespace Desk

open Tracker Recency

variable {μ κ ε : Type} {x : Desk μ κ ε} {es : List Event} {slot : Slot} {status : Status}
  {n : Nat} {us : List Slot}

def used? (x : Desk μ κ ε) : Event → Option Slot
  | .publish slot status => if status.isTerminal then some slot else none
  | .register slot => if (x.site.tracker.found? slot).isSome then some slot else none
  | .markQueued _ | .await _ _ | .turn _ | .drop _ | .close | .pass _ => none

def uses (x : Desk μ κ ε) : List Event → List Slot
  | [] => []
  | e :: es => (x.used? e).toList ++ (x.act e).uses es

theorem uses_concat (x : Desk μ κ ε) (es : List Event) (e : Event) :
    x.uses (es ++ [e]) = x.uses es ++ ((x.run es).used? e).toList := by
  induction es generalizing x with
  | nil => simp [uses, run]
  | cons e' es ih => simp [uses, ih, run]

theorem mem_uses (x : Desk μ κ ε) (hp : .publish slot status ∈ es)
    (ht : status.isTerminal = true) : slot ∈ x.uses es := by
  induction es generalizing x with
  | nil => cases hp
  | cons e es ih =>
    rw [uses, List.mem_append]
    rcases List.mem_cons.1 hp with rfl | hp
    · exact .inl (by simp [used?, ht])
    · exact .inr (ih (x.act e) hp)

theorem completed_act (x : Desk μ κ ε) (e : Event) :
    (x.act e).site.tracker.completed = match e with
      | .publish slot status =>
        if status.isTerminal then x.site.tracker.completed.put slot status
        else x.site.tracker.completed
      | .register slot => x.site.tracker.completed.touch slot
      | _ => x.site.tracker.completed := by
  cases e with
  | publish slot status => exact completed_publish ..
  | register slot => exact (x.site.tracker.register_cases slot).2.1
  | markQueued slot => exact (x.site.tracker.markQueued_sheds slot).completed
  | close => rfl
  | pass duration => rfl
  | await i timeout =>
    simp only [act]
    split <;> rfl
  | drop i =>
    simp only [act]
    split <;> rfl
  | turn i =>
    rcases x.turn_cases i with ⟨he, -⟩ | ⟨h, h', timeout, -, he⟩ |
      ⟨h, h', deadline, s, r, -, hs, he⟩
    · rw [act, he]
    · rw [act, he]
      rfl
    · rw [act, he]
      rcases waiting_done hs with rfl | rfl
      · rfl
      · exact (x.site.tracker.evict_sheds h').completed

theorem ranks_act {published : List (Slot × Status)} (hh : x.site.tracker.Honest published)
    (h : x.site.tracker.completed.Ranks n us) (e : Event) :
    (x.act e).site.tracker.completed.Ranks n (us ++ (x.used? e).toList) := by
  rw [completed_act]
  cases e with
  | publish slot status =>
    by_cases ht : status.isTerminal = true
    · simpa [used?, ht] using h.put slot status
    · simpa [used?, ht] using h
  | register slot =>
    simp only [used?, hh.found?]
    cases hl : x.site.tracker.completed.lookup? slot with
    | some status =>
      rw [Recent.touch_eq_put hl (h.capacity ▸ h.length_le)]
      exact h.put slot status
    | none => simpa [Recent.touch_of_none hl] using h
  | _ => simpa [used?] using h

theorem opened_ranks (s : Site μ κ ε) (capacity : Nat) (es : List Event) :
    (opened s capacity es).site.tracker.completed.Ranks (max capacity 1)
      ((opened s capacity []).uses es) := by
  induction es using List.reverseRecOn with
  | nil => exact ⟨rfl, by simp [opened, run, Recent.slots, ofCapacity, uses, byLastUse]⟩
  | append_singleton es e ih =>
    obtain ⟨published, hh⟩ := (opened_kept s capacity es).honest
    have hact : opened s capacity (es ++ [e]) = (opened s capacity es).act e := run_append ..
    rw [hact, uses_concat]
    exact ranks_act hh ih e

/-- Whatever is done with a tracker, a wait that is registered late is told a status at once exactly
if it is the last final one published for its slot, and fewer other slots than there is room for
have had a final status or a hit since that status or since the last hit of the slot, whichever was
later. There is never more remembered than there is room for. -/
theorem late_wait_answered_iff (s : Site μ κ ε) (capacity : Nat) (es : List Event) :
    (∀ slot status, (opened s capacity es).site.tracker.found? slot = some status ↔
      es.reverse.findSome? (Event.terminal? slot) = some status ∧
        (othersSince slot ((opened s capacity []).uses es)).card < max capacity 1) ∧
    (opened s capacity es).site.tracker.completed.slots.Nodup ∧
    (opened s capacity es).site.tracker.completed.slots.length ≤ max capacity 1 := by
  have hranks := opened_ranks s capacity es
  have hkept := opened_kept s capacity es
  obtain ⟨published, hh⟩ := hkept.honest
  have hplace (slot : Slot) : slot ∈ (byLastUse ((opened s capacity []).uses es)).take
      (max capacity 1) ↔ slot ∈ (opened s capacity []).uses es ∧
        (othersSince slot ((opened s capacity []).uses es)).card < max capacity 1 :=
    mem_take_byLastUse (max capacity 1)
  refine ⟨fun slot status => ?_, hranks.nodup, hranks.length_le⟩
  rw [hh.found?]
  constructor
  · intro hl
    have hm : slot ∈ (opened s capacity es).site.tracker.completed.slots :=
      Recent.isSome_lookup?.1 (Option.isSome_of_eq_some hl)
    rw [hranks.slots] at hm
    exact ⟨hkept.remembered hl, ((hplace slot).1 hm).2⟩
  · rintro ⟨hlast, hfew⟩
    obtain ⟨e, he, hterminal⟩ := List.exists_of_findSome?_eq_some hlast
    obtain ⟨rfl, ht⟩ := Event.terminal?_eq_some.1 hterminal
    have hm : slot ∈ (opened s capacity es).site.tracker.completed.slots := by
      rw [hranks.slots]
      exact (hplace slot).2 ⟨mem_uses _ (List.mem_reverse.1 he) ht, hfew⟩
    obtain ⟨status', hl⟩ := Option.isSome_iff_exists.1 (Recent.isSome_lookup?.2 hm)
    rw [hl, ← hkept.remembered hl, hlast]

example :
    let slot (offset : Nat) : Slot := ⟨⟨.stream, "A", .create⟩, offset⟩
    let t := ((Tracker.ofCapacity 2).publish (slot 0) (.success "created")).publish (slot 1)
      (.error "exists")
    let t := (t.register (slot 0)).2.publish (slot 2) (.error "exists")
    t.found? (slot 0) = some (.success "created") ∧ t.found? (slot 1) = none ∧
      t.found? (slot 2) = some (.error "exists") := by
  decide +kernel

end Desk

end StatementLog
