import Mathlib.Data.List.Destutter
import StatementLog.Proofs.Runner.Lifetime

namespace StatementLog

def ExecutorCall.command? : ExecutorCall → Option Command
  | .apply c _ _ => some c
  | .finishReplay _ => none

@[simp]
theorem ExecutorCall.command?_apply (c : Command) (m : Mode) (r : Except Failure Effect) :
    (ExecutorCall.apply c m r).command? = some c :=
  rfl

@[simp]
theorem ExecutorCall.command?_finishReplay (r : Except Failure Unit) :
    (ExecutorCall.finishReplay r).command? = none :=
  rfl

def commandsOf (calls : List ExecutorCall) : List Command :=
  calls.reverse.filterMap (·.command?)

theorem commandsOf_cons (e : ExecutorCall) (calls : List ExecutorCall) :
    commandsOf (e :: calls) = commandsOf calls ++ e.command?.toList := by
  rw [commandsOf, List.reverse_cons, List.filterMap_append]
  cases h : e.command? <;> simp [commandsOf, h]

theorem mem_commandsOf {c : Command} {calls : List ExecutorCall} :
    c ∈ commandsOf calls ↔ ∃ m r, .apply c m r ∈ calls := by
  simp only [commandsOf, List.mem_filterMap, List.mem_reverse]
  constructor
  · rintro ⟨e, he, hc⟩
    cases e with
    | apply d m r =>
      cases hc
      exact ⟨m, r, he⟩
    | finishReplay r => cases hc
  · rintro ⟨m, r, he⟩
    exact ⟨_, he, rfl⟩

def Mode.at (limit n : Nat) : Mode :=
  if n < limit then .replay else .live

theorem Mode.at_eq_replay {limit n : Nat} : Mode.at limit n = .replay ↔ n < limit := by
  simp [Mode.at]

theorem Mode.at_eq_live {limit n : Nat} : Mode.at limit n = .live ↔ limit ≤ n := by
  simp [Mode.at]

theorem destutter_concat {α : Type} [DecidableEq α] (l : List α) (a : α) :
    (l ++ [a]).destutter (· ≠ ·) =
      if l.getLast? = some a then l.destutter (· ≠ ·) else l.destutter (· ≠ ·) ++ [a] := by
  cases l with
  | nil => rfl
  | cons b l =>
    induction l generalizing b with
    | nil => by_cases h : b = a <;> simp [h]
    | cons d l ih =>
      simp only [List.cons_append, List.destutter_cons_cons, List.getLast?_cons_cons]
      have ihd := ih d
      have ihb := ih b
      simp only [List.cons_append, List.destutter_cons'] at ihd ihb
      by_cases h : b = d
      · subst h
        simp only [ne_eq, not_true_eq_false, if_false]
        exact ihb
      · simp only [ne_eq, h, not_false_eq_true, if_true]
        rw [ihd]
        split <;> rfl

variable {view view' : Nat → Option Command} {limit : Nat}

inductive Handed (view : Nat → Option Command) (limit : Nat) : List ExecutorCall → Nat → Prop where
  | nil : Handed view limit [] 0
  | first {calls n c r} : Handed view limit calls n → view n = some c →
      Handed view limit (.apply c (Mode.at limit n) r :: calls) (n + 1)
  | again {calls n c m f r} : Handed view limit (.apply c m (.error f) :: calls) n →
      f.kind ≠ .fatal → Handed view limit (.apply c m r :: .apply c m (.error f) :: calls) n
  | finish {calls n r} : Handed view limit calls n →
      Handed view limit (.finishReplay r :: calls) n

namespace Handed

theorem mono (h : ∀ n c, view n = some c → view' n = some c) {calls : List ExecutorCall} {n : Nat}
    (hh : Handed view limit calls n) : Handed view' limit calls n := by
  induction hh with
  | nil => exact .nil
  | first _ hc ih => exact .first ih (h _ _ hc)
  | again _ hf ih => exact .again ih hf
  | finish _ ih => exact .finish ih

theorem of_mem (ho : ∀ n c, view n = some c → c.offset = n) {calls : List ExecutorCall} {n : Nat}
    (h : Handed view limit calls n) {c : Command} {m : Mode} {r : Except Failure Effect}
    (hm : .apply c m r ∈ calls) :
    c.offset < n ∧ view c.offset = some c ∧ m = Mode.at limit c.offset := by
  induction h generalizing c m r with
  | nil => cases hm
  | @first calls n d r' _ hd ih =>
    rcases List.mem_cons.1 hm with he | hm
    · cases he
      rw [ho n d hd]
      exact ⟨Nat.lt_succ_self n, hd, rfl⟩
    · obtain ⟨hlt, hv⟩ := ih hm
      exact ⟨Nat.lt_succ_of_lt hlt, hv⟩
  | again _ _ ih =>
    rcases List.mem_cons.1 hm with he | hm
    · cases he
      exact ih (List.mem_cons_self ..)
    · exact ih hm
  | finish _ ih =>
    rcases List.mem_cons.1 hm with he | hm
    · cases he
    · exact ih hm

theorem head_offset (ho : ∀ n c, view n = some c → c.offset = n) {calls : List ExecutorCall}
    {n : Nat} {c : Command} {m : Mode} {r : Except Failure Effect}
    (h : Handed view limit (.apply c m r :: calls) n) : n = c.offset + 1 := by
  generalize hl : ExecutorCall.apply c m r :: calls = l at h
  induction h generalizing m r calls with
  | nil => cases hl
  | @first _ n d _ _ hd _ =>
    cases hl
    rw [ho n c hd]
  | again _ _ ih =>
    cases hl
    exact ih rfl
  | finish _ _ => cases hl

theorem suffix {post calls : List ExecutorCall} {n : Nat}
    (h : Handed view limit (post ++ calls) n) : ∃ n', Handed view limit calls n' := by
  induction post generalizing n with
  | nil => exact ⟨n, h⟩
  | cons e post ih =>
    generalize hl : e :: post ++ calls = l at h
    cases h with
    | nil => cases hl
    | first h _ =>
      cases hl
      exact ih h
    | again h _ =>
      rw [List.cons_append] at hl
      exact ih ((List.cons.inj hl).2 ▸ h)
    | finish h =>
      cases hl
      exact ih h

theorem again_only (ho : ∀ n c, view n = some c → c.offset = n) {post pre : List ExecutorCall}
    {n : Nat} {c : Command} {m : Mode} {r : Except Failure Effect}
    (h : Handed view limit (post ++ .apply c m r :: pre) n) (hc : c ∈ commandsOf pre) :
    ∃ f rest, pre = .apply c m (.error f) :: rest ∧ f.kind ≠ .fatal := by
  obtain ⟨n', h⟩ := h.suffix
  cases h with
  | @first _ k _ _ h hk =>
    obtain ⟨m', r', he⟩ := mem_commandsOf.1 hc
    have hlt := (h.of_mem ho he).1
    rw [ho k c hk] at hlt
    exact absurd hlt (Nat.lt_irrefl k)
  | again _ hf => exact ⟨_, _, rfl, hf⟩

theorem getLast? {calls : List ExecutorCall} {n : Nat} (h : Handed view limit calls n) :
    (n = 0 → commandsOf calls = []) ∧
      ∀ k, n = k + 1 → (commandsOf calls).getLast? = view k := by
  induction h with
  | nil => exact ⟨fun _ => rfl, by simp⟩
  | first _ hc _ => simp [commandsOf_cons, hc]
  | again _ _ ih => simpa [commandsOf_cons] using ih
  | finish _ ih => simpa [commandsOf_cons] using ih

theorem collapse (ho : ∀ n c, view n = some c → c.offset = n) {calls : List ExecutorCall} {n : Nat}
    (h : Handed view limit calls n) :
    ((commandsOf calls).destutter (· ≠ ·)).map some = (List.range n).map view := by
  induction h with
  | nil => rfl
  | @first calls n c r h hc ih =>
    have hne : (commandsOf calls).getLast? ≠ some c := by
      intro hl
      cases n with
      | zero => simp [h.getLast?.1 rfl] at hl
      | succ k =>
        rw [h.getLast?.2 k rfl] at hl
        exact absurd ((ho k c hl).symm.trans (ho _ c hc)) (by omega)
    rw [commandsOf_cons, ExecutorCall.command?_apply, Option.toList_some, destutter_concat,
      if_neg hne, List.map_append, ih, List.range_succ, List.map_append]
    simp [hc]
  | @again calls n c m f r h hf ih =>
    have hl : (commandsOf (.apply c m (.error f) :: calls)).getLast? = some c := by
      simp [commandsOf_cons]
    rw [commandsOf_cons, ExecutorCall.command?_apply, Option.toList_some, destutter_concat,
      if_pos hl]
    exact ih
  | finish _ ih => simpa [commandsOf_cons] using ih

end Handed

inductive Ledger {α : Type} (view : Nat → Option Command) (good : α → Prop) :
    List (Command × α) → Nat → Prop where
  | nil : Ledger view good [] 0
  | next {l n c a} : Ledger view good l n → view n = some c → good a →
      Ledger view good ((c, a) :: l) (n + 1)

namespace Ledger

variable {α : Type} {good : α → Prop} {l : List (Command × α)} {n : Nat}

theorem mono (h : ∀ n c, view n = some c → view' n = some c) (hl : Ledger view good l n) :
    Ledger view' good l n := by
  induction hl with
  | nil => exact .nil
  | next _ hc ha ih => exact .next ih (h _ _ hc) ha

theorem length_eq (h : Ledger view good l n) : l.length = n := by
  induction h with
  | nil => rfl
  | next _ _ _ ih => rw [List.length_cons, ih]

theorem getElem? (h : Ledger view good l n) {k : Nat} (hk : k < n) :
    ∃ c a, l.reverse[k]? = some (c, a) ∧ view k = some c ∧ good a := by
  induction h with
  | nil => exact absurd hk (Nat.not_lt_zero k)
  | @next l n c a h hc ha ih =>
    rcases Nat.lt_or_ge k n with hlt | hge
    · obtain ⟨d, a', hl, hd⟩ := ih hlt
      refine ⟨d, a', ?_, hd⟩
      rw [List.reverse_cons, List.getElem?_append_left (List.getElem?_eq_some_iff.1 hl).1]
      exact hl
    · obtain rfl : k = n := by omega
      refine ⟨c, a, ?_, hc, ha⟩
      rw [List.reverse_cons, List.getElem?_append_right (by simp [h.length_eq])]
      simp [h.length_eq]

theorem offset_eq (ho : ∀ n c, view n = some c → c.offset = n) (h : Ledger view good l n)
    {k : Nat} {c : Command} {a : α} (hk : l.reverse[k]? = some (c, a)) : c.offset = k := by
  have hlt : k < n := by
    have hlt := (List.getElem?_eq_some_iff.1 hk).1
    rwa [List.length_reverse, h.length_eq] at hlt
  obtain ⟨d, a', hl, hd, -⟩ := h.getElem? hlt
  cases hl.symm.trans hk
  exact ho k c hd

end Ledger

inductive Reported (ledger : List (Command × Status)) : List (Slot × Status) → Nat → Prop where
  | nil : Reported ledger [] 0
  | passing {ps n p} : Reported ledger ps n → p.2.isTerminal = false →
      Reported ledger (p :: ps) n
  | final {ps n c status} : Reported ledger ps n → ledger.reverse[n]? = some (c, status) →
      status.isTerminal = true → Reported ledger ((⟨c.id, c.offset⟩, status) :: ps) (n + 1)

/-- The terminal statuses published for a slot, the latest first. -/
def terminals (ps : List (Slot × Status)) (slot : Slot) : List Status :=
  (ps.filter fun p => p.1 = slot && p.2.isTerminal).map Prod.snd

namespace Reported

variable {ledger : List (Command × Status)} {ps : List (Slot × Status)} {n : Nat}

theorem mono (entries : List (Command × Status)) (h : Reported ledger ps n) :
    Reported (entries ++ ledger) ps n := by
  induction h with
  | nil => exact .nil
  | passing _ hp ih => exact .passing ih hp
  | final _ hl hs ih =>
    refine .final ih ?_ hs
    rw [List.reverse_append, List.getElem?_append_left (List.getElem?_eq_some_iff.1 hl).1]
    exact hl

section

variable (ho : ∀ n (c : Command) status, ledger.reverse[n]? = some (c, status) → c.offset = n)
include ho

theorem terminals_eq_nil (h : Reported ledger ps n) {slot : Slot} (hn : n ≤ slot.offset) :
    terminals ps slot = [] := by
  induction h with
  | nil => rfl
  | passing _ hp ih => simpa [terminals, hp] using ih hn
  | @final ps n c status _ hc _ ih =>
    have hne : (⟨c.id, c.offset⟩ : Slot) ≠ slot := by
      rintro rfl
      have := ho n c status hc
      simp only at hn
      omega
    simpa [terminals, hne] using ih (Nat.le_of_succ_le hn)

theorem terminals_eq_single (h : Reported ledger ps n) {k : Nat} (hk : k < n) :
    ∃ c status, ledger.reverse[k]? = some (c, status) ∧ terminals ps ⟨c.id, k⟩ = [status] := by
  induction h with
  | nil => exact absurd hk (Nat.not_lt_zero k)
  | passing _ hp ih =>
    obtain ⟨c, status, hc, ht⟩ := ih hk
    exact ⟨c, status, hc, by simpa [terminals, hp] using ht⟩
  | @final ps n c status hr hc hs ih =>
    have hoc := ho n c status hc
    rcases Nat.lt_or_ge k n with hlt | hge
    · obtain ⟨d, status', hd, ht⟩ := ih hlt
      refine ⟨d, status', hd, ?_⟩
      have hne : c.offset ≠ k := by omega
      simpa [terminals, hne] using ht
    · obtain rfl : k = n := by omega
      have hnil : terminals ps ⟨c.id, k⟩ = [] := hr.terminals_eq_nil ho (Nat.le_refl k)
      simp only [terminals, List.map_eq_nil_iff] at hnil
      exact ⟨c, status, hc, by simp [terminals, hoc, hs, hnil]⟩

end

end Reported

end StatementLog
