import Mathlib.Data.List.Perm.Basic
import Mathlib.Data.Prod.Lex
import StatementLog.Proofs.Tracker.Desk

namespace StatementLog

namespace Status

def Plain (s : Status) : Prop :=
  s = ofKind s.kind s.message

instance (s : Status) : Decidable s.Plain :=
  inferInstanceAs (Decidable (s = ofKind s.kind s.message))

theorem Plain.eq_of_progress {s t : Status} (hs : s.Plain) (ht : t.Plain)
    (hp : s.kind.progress = t.kind.progress) (hn : s.isTerminal = false) : s = t := by
  obtain ⟨k, m⟩ := s
  obtain ⟨k', m'⟩ := t
  rw [hs, ht]
  cases k <;> cases k' <;> simp_all [isTerminal, StatusKind.isTerminal, StatusKind.progress, ofKind]

theorem progress_le (s : Status) : s.kind.progress ≤ 2 := by
  cases s.kind <;> simp [StatusKind.progress]

theorem isTerminal_iff (s : Status) : s.isTerminal = true ↔ s.kind.progress = 2 := by
  cases hk : s.kind <;> simp [isTerminal, StatusKind.isTerminal, StatusKind.progress, hk]

end Status

namespace Tracker

variable {a b e : Nat × Status} {known : Option (Nat × Status)} {ns ns' : List (Nat × Status)}

def rank (e : Nat × Status) : Nat ×ₗ Nat :=
  toLex (e.1, e.2.kind.progress)

theorem rank_le_iff :
    rank a ≤ rank b ↔ a.1 < b.1 ∨ a.1 = b.1 ∧ a.2.kind.progress ≤ b.2.kind.progress :=
  Prod.Lex.toLex_le_toLex

theorem rank_le_of_supersedes (h : supersedes e.1 e.2 (some a) = true) : rank a ≤ rank e := by
  simp only [supersedes, Bool.or_eq_true, Bool.and_eq_true, decide_eq_true_eq, beq_iff_eq] at h
  rw [rank_le_iff]
  rcases h with h | ⟨⟨h, -⟩, hp⟩
  · exact .inl h
  · exact .inr ⟨h, hp⟩

theorem rank_le_of_not_supersedes (h : supersedes e.1 e.2 (some a) = false) :
    rank e ≤ rank a := by
  simp only [supersedes, Bool.or_eq_false_iff, Bool.and_eq_false_iff, decide_eq_false_iff_not,
    beq_eq_false_iff_ne, Bool.not_eq_false'] at h
  obtain ⟨hlt, h⟩ := h
  rw [rank_le_iff]
  rcases Nat.lt_or_ge e.1 a.1 with hl | hge
  · exact .inl hl
  · have he : e.1 = a.1 := by omega
    refine .inr ⟨he, ?_⟩
    rcases h with (hne | hterminal) | hp
    · exact absurd he.symm hne
    · rw [(Status.isTerminal_iff _).1 hterminal]
      exact e.2.progress_le
    · omega

def heed (known : Option (Nat × Status)) (e : Nat × Status) : Option (Nat × Status) :=
  if supersedes e.1 e.2 known then some e else known

theorem heed_cases (known : Option (Nat × Status)) (e : Nat × Status) :
    ∃ a, heed known e = some a ∧ (a = e ∨ known = some a) ∧ rank e ≤ rank a ∧
      ∀ b, known = some b → rank b ≤ rank a := by
  cases known with
  | none => exact ⟨e, rfl, .inl rfl, le_refl _, nofun⟩
  | some a =>
    cases hs : supersedes e.1 e.2 (some a) with
    | true =>
      refine ⟨e, by simp [heed, hs], .inl rfl, le_refl _, ?_⟩
      rintro b ⟨⟩
      exact rank_le_of_supersedes hs
    | false =>
      refine ⟨a, by simp [heed, hs], .inr rfl, rank_le_of_not_supersedes hs, ?_⟩
      rintro b ⟨⟩
      exact le_refl _

def Foremost (ns : List (Nat × Status)) (a : Nat × Status) : Prop :=
  a ∈ ns ∧ ∀ e ∈ ns, rank e ≤ rank a

instance (ns : List (Nat × Status)) (a : Nat × Status) : Decidable (Foremost ns a) :=
  inferInstanceAs (Decidable (a ∈ ns ∧ ∀ e ∈ ns, rank e ≤ rank a))

theorem Foremost.perm (hp : ns.Perm ns') (h : Foremost ns a) : Foremost ns' a :=
  ⟨hp.mem_iff.1 h.1, fun e he => h.2 e (hp.mem_iff.2 he)⟩

theorem foldl_heed (ns : List (Nat × Status)) :
    ns = [] ∨ ∃ a, ns.foldl heed none = some a ∧ Foremost ns a := by
  induction ns using List.reverseRecOn with
  | nil => exact .inl rfl
  | append_singleton ns e ih =>
    right
    rw [List.foldl_concat]
    obtain ⟨a, ha, hfrom, he, hle⟩ := heed_cases (ns.foldl heed none) e
    refine ⟨a, ha, ?_, ?_⟩
    · rcases hfrom with rfl | hknown
      · simp
      · rcases ih with rfl | ⟨b, hb, hmem, -⟩
        · cases hknown
        · cases hb.symm.trans hknown
          exact List.mem_append_left _ hmem
    · intro e' he'
      rcases List.mem_append.1 he' with he' | he'
      · rcases ih with rfl | ⟨b, hb, -, hmost⟩
        · cases he'
        · exact (hmost e' he').trans (hle b hb)
      · rw [List.mem_singleton.1 he']
        exact he

theorem foldl_heed_rank (h : ns.foldl heed none = some a) (more : List (Nat × Status)) :
    ∃ b, (ns ++ more).foldl heed none = some b ∧ rank a ≤ rank b := by
  induction more using List.reverseRecOn with
  | nil => exact ⟨a, by rw [List.append_nil, h], le_refl _⟩
  | append_singleton more e ih =>
    obtain ⟨b, hb, hle⟩ := ih
    obtain ⟨c, hc, -, -, hmost⟩ := heed_cases ((ns ++ more).foldl heed none) e
    refine ⟨c, ?_, hle.trans (hmost b hb)⟩
    rw [← List.append_assoc, List.foldl_concat, hc]

/-- The statuses agree: those that are not final have their own messages, and there is one final
status for an offset at most. -/
structure Consistent (ns : List (Nat × Status)) : Prop where
  plain : ∀ e ∈ ns, e.2.Plain
  single : ∀ a ∈ ns, ∀ b ∈ ns, a.1 = b.1 → a.2.isTerminal = true → b.2.isTerminal = true →
    a.2 = b.2

theorem Consistent.unique (h : Consistent ns) (ha : Foremost ns a) (hb : Foremost ns b) :
    a = b := by
  have hrank : rank a = rank b := le_antisymm (hb.2 a ha.1) (ha.2 b hb.1)
  obtain ⟨hoffset, hprogress⟩ := Prod.mk.inj (toLex.injective hrank)
  refine Prod.ext hoffset ?_
  cases hterminal : a.2.isTerminal with
  | false => exact (h.plain a ha.1).eq_of_progress (h.plain b hb.1) hprogress hterminal
  | true =>
    have hterminal' : b.2.isTerminal = true := by
      rw [Status.isTerminal_iff, ← hprogress, ← Status.isTerminal_iff, hterminal]
    exact h.single a ha.1 b hb.1 hoffset hterminal hterminal'

theorem Consistent.foldl_heed_eq (h : Consistent ns) :
    ns.foldl heed none = some a ↔ Foremost ns a := by
  rcases foldl_heed ns with rfl | ⟨b, hb, hmost⟩
  · simp [Foremost]
  · rw [hb]
    constructor
    · rintro ⟨⟩
      exact hmost
    · intro ha
      rw [h.unique hmost ha]

theorem latest_publish (t : Tracker) (slot : Slot) (status : Status) (id : CommandId) :
    (t.publish slot status).latest[id]? =
      if slot.id = id then heed t.latest[id]? (slot.offset, status) else t.latest[id]? := by
  have hnote : (t.publish slot status).latest = (t.note slot status).latest := by
    unfold publish
    split <;> rfl
  rw [hnote, note]
  by_cases hid : slot.id = id
  · subst hid
    cases hs : supersedes slot.offset status t.latest[slot.id]? <;> simp [heed, hs]
  · cases hs : supersedes slot.offset status t.latest[slot.id]? with
    | false => simp [hid]
    | true => simp [hid, Std.ExtTreeMap.getElem?_insert]

theorem latest_register (t : Tracker) (slot : Slot) : (t.register slot).2.latest = t.latest := by
  unfold register
  split <;> rfl

theorem latest_evict (t : Tracker) (h : StatusHandle) : (t.evict h).latest = t.latest := by
  unfold evict
  split
  · rfl
  · split <;> rfl

end Tracker

namespace Desk

open Tracker

variable {μ κ ε : Type}

def Event.notice? (id : CommandId) : Event → Option (Nat × Status)
  | publish slot status => if slot.id = id then some (slot.offset, status) else none
  | markQueued slot => if slot.id = id then some (slot.offset, .queued) else none
  | register _ | await _ _ | turn _ | drop _ | close | pass _ => none

def notices (id : CommandId) (es : List Event) : List (Nat × Status) :=
  es.filterMap (Event.notice? id)

def known? (x : Desk μ κ ε) (id : CommandId) : Option (Nat × Status) :=
  x.site.tracker.latest[id]?

theorem known?_act (x : Desk μ κ ε) (id : CommandId) (e : Event) :
    (x.act e).known? id = (e.notice? id).toList.foldl heed (x.known? id) := by
  have hpublish (slot : Slot) (status : Status) :
      (x.site.tracker.publish slot status).latest[id]? =
        ((Event.publish slot status).notice? id).toList.foldl heed (x.known? id) := by
    rw [latest_publish, Event.notice?, known?]
    split <;> rfl
  cases e with
  | register slot => exact congrArg (·[id]?) (latest_register x.site.tracker slot)
  | publish slot status => exact hpublish slot status
  | markQueued slot => exact hpublish slot .queued
  | await i timeout =>
    simp only [act]
    split <;> rfl
  | turn i =>
    rcases x.turn_cases i with ⟨he, -⟩ | ⟨h, h', timeout, -, he⟩ |
      ⟨h, h', deadline, s, r, -, hs, he⟩
    · rw [act, he]
      rfl
    · rw [act, he]
      rfl
    · rw [act, he]
      rcases waiting_done hs with rfl | rfl
      · rfl
      · exact congrArg (·[id]?) (latest_evict x.site.tracker h')
  | drop i =>
    simp only [act]
    split <;> rfl
  | close => rfl
  | pass duration => rfl

theorem known?_opened (s : Site μ κ ε) (capacity : Nat) (id : CommandId) (es : List Event) :
    (opened s capacity es).known? id = (notices id es).foldl heed none := by
  induction es using List.reverseRecOn with
  | nil => exact Std.ExtTreeMap.getElem?_empty
  | append_singleton es e ih =>
    have hact : opened s capacity (es ++ [e]) = (opened s capacity es).act e := run_append ..
    rw [hact, known?_act, ih, notices, notices, List.filterMap_append, List.foldl_append]
    cases he : e.notice? id <;> simp [he]

theorem status?_opened {id : CommandId} {es : List Event} (h : Consistent (notices id es))
    (s : Site μ κ ε) (capacity : Nat) {status : Status} :
    (opened s capacity es).site.tracker.status? id = some status ↔
      ∃ offset, Foremost (notices id es) (offset, status) := by
  have hknown : (opened s capacity es).site.tracker.latest[id]? = _ :=
    known?_opened s capacity id es
  rw [status?, hknown]
  simp only [Option.map_eq_some_iff, h.foldl_heed_eq, Prod.exists, exists_eq_right]

/-- Whatever else is done with a tracker, and in whatever order statuses of an id come in that agree
with each other, the last known one is that of the highest offset, and there the one furthest along;
and on the way the offset and the progress that are known never go back. -/
theorem latest_in_any_order {id : CommandId} {es es' : List Event}
    (h : Consistent (notices id es)) (hp : (notices id es').Perm (notices id es))
    (s s' : Site μ κ ε) (capacity capacity' : Nat) :
    (opened s' capacity' es').site.tracker.status? id =
      (opened s capacity es).site.tracker.status? id ∧
    (∀ status, (opened s capacity es).site.tracker.status? id = some status ↔
      ∃ offset, Foremost (notices id es) (offset, status)) ∧
    ∀ pre later a, (opened s' capacity' pre).site.tracker.latest[id]? = some a →
      ∃ b, (opened s' capacity' (pre ++ later)).site.tracker.latest[id]? = some b ∧
        rank a ≤ rank b := by
  have h' : Consistent (notices id es') :=
    ⟨fun e he => h.plain e (hp.mem_iff.1 he),
      fun a ha b hb => h.single a (hp.mem_iff.1 ha) b (hp.mem_iff.1 hb)⟩
  refine ⟨?_, fun status => status?_opened h s capacity, ?_⟩
  · refine Option.ext fun status => ?_
    rw [status?_opened h', status?_opened h]
    exact exists_congr fun offset => ⟨.perm hp, .perm hp.symm⟩
  · intro pre later a ha
    have hknown : (opened s' capacity' pre).known? id = some a := ha
    rw [known?_opened] at hknown
    obtain ⟨b, hb, hle⟩ := foldl_heed_rank hknown (notices id later)
    refine ⟨b, ?_, hle⟩
    rw [← hb, notices, notices, ← List.filterMap_append]
    exact known?_opened s' capacity' id (pre ++ later)

def unattended : Site Unit Unit Unit where
  now := 0
  origin := 0
  log := ()
  broker := {}
  tracker := .ofCapacity 1
  executor := ()
  node := .ofConfig {} () 0 0

def creationOf (name : String) : CommandId :=
  ⟨.stream, name, .create⟩

def orderly : List Event :=
  [.markQueued ⟨creationOf "A", 0⟩, .publish ⟨creationOf "A", 0⟩ .executing,
    .publish ⟨creationOf "A", 0⟩ (.success "Stream created"), .markQueued ⟨creationOf "A", 2⟩,
    .publish ⟨creationOf "A", 2⟩ .executing,
    .publish ⟨creationOf "A", 2⟩ (.error "A already exists.")]

def raced : List Event :=
  [.publish ⟨creationOf "A", 2⟩ .executing, .register ⟨creationOf "A", 0⟩,
    .publish ⟨creationOf "A", 0⟩ .executing,
    .publish ⟨creationOf "A", 2⟩ (.error "A already exists."), .markQueued ⟨creationOf "A", 2⟩,
    .publish ⟨creationOf "B", 7⟩ .executing,
    .publish ⟨creationOf "A", 0⟩ (.success "Stream created"), .markQueued ⟨creationOf "A", 0⟩]

theorem latest_in_any_order_raced :
    Consistent (notices (creationOf "A") orderly) ∧
      (notices (creationOf "A") raced).Perm (notices (creationOf "A") orderly) ∧
      (opened unattended 1 raced).site.tracker.status? (creationOf "A") =
        some (.error "A already exists.") ∧
      (opened unattended 1 orderly).site.tracker.status? (creationOf "A") =
        some (.error "A already exists.") := by
  have hconsistent : Consistent (notices (creationOf "A") orderly) :=
    ⟨by decide +kernel, by decide +kernel⟩
  have hperm : (notices (creationOf "A") raced).Perm (notices (creationOf "A") orderly) := by
    decide +kernel
  have hmost : Foremost (notices (creationOf "A") orderly) (2, .error "A already exists.") := by
    decide +kernel
  obtain ⟨hsame, hlatest, -⟩ :=
    latest_in_any_order hconsistent hperm unattended unattended 1 1
  have hstatus := (hlatest (.error "A already exists.")).2 ⟨2, hmost⟩
  exact ⟨hconsistent, hperm, hsame.trans hstatus, hstatus⟩

end Desk

end StatementLog
