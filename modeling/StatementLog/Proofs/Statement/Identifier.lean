import StatementLog.Proofs.Statement.Quoting

namespace StatementLog.Statement

open StatementLog.Text

variable {q c : Char} {cs r inner : List Char} {i : Identifier}

inductive Opens : List Char → Identifier → List Char → Prop
  | quoted {q : Char} {inner : List Char} (r : List Char) : IsMark q → q ∉ inner → inner ≠ [] →
      Opens (q :: (inner ++ q :: r)) ⟨true, inner⟩ r
  | plain {c : Char} {part r : List Char} : isIdentifierStart c = true →
      (∀ x ∈ part, isIdentifierPart x = true) → (∀ x ∈ r.head?, isIdentifierPart x = false) →
        Opens (c :: (part ++ r)) ⟨false, c :: part⟩ r

theorem isIdentifierPart_of_start (h : isIdentifierStart c = true) : isIdentifierPart c = true := by
  simp [isIdentifierPart, h]

theorem not_isMark_of_start (h : isIdentifierStart c = true) : ¬ IsMark c := by
  intro hq
  have hpart := isIdentifierPart_of_start h
  rw [isIdentifierPart_mark hq] at hpart
  cases hpart

theorem isBlank_mark (h : IsMark q) : isBlank q = false := by
  rcases h with rfl | rfl <;> decide

theorem toNat_of_isAlpha (h : c.isAlpha = true) :
    (0x41 ≤ c.toNat ∧ c.toNat ≤ 0x5A) ∨ (0x61 ≤ c.toNat ∧ c.toNat ≤ 0x7A) := by
  rcases Bool.or_eq_true_iff.1 h with h | h
  · have hupper : 'A'.val ≤ c.val ∧ c.val ≤ 'Z'.val := of_decide_eq_true h
    exact .inl ⟨UInt32.le_iff_toNat_le.1 hupper.1, UInt32.le_iff_toNat_le.1 hupper.2⟩
  · obtain ⟨hlow, hhigh⟩ := Bool.and_eq_true_iff.1 h
    exact .inr ⟨UInt32.le_iff_toNat_le.1 (of_decide_eq_true hlow),
      UInt32.le_iff_toNat_le.1 (of_decide_eq_true hhigh)⟩

theorem toNat_of_isDigit (h : c.isDigit = true) : 0x30 ≤ c.toNat ∧ c.toNat ≤ 0x39 := by
  obtain ⟨hlow, hhigh⟩ := Bool.and_eq_true_iff.1 h
  exact ⟨UInt32.le_iff_toNat_le.1 (of_decide_eq_true hlow),
    UInt32.le_iff_toNat_le.1 (of_decide_eq_true hhigh)⟩

theorem isBlank_identifierPart (h : isIdentifierPart c = true) : isBlank c = false := by
  have hn : 0x30 ≤ c.toNat ∧ c.toNat ≤ 0x7A ∨ c = longS ∨ c = kelvin := by
    simp only [isIdentifierPart, isIdentifierStart, Bool.or_eq_true, beq_iff_eq] at h
    rcases h with (((h | rfl) | h) | h) | h
    · have hletter := toNat_of_isAlpha h
      omega
    · exact .inl (by decide)
    · exact .inr (.inl h)
    · exact .inr (.inr h)
    · have hdigit := toNat_of_isDigit h
      omega
  rcases hn with ⟨h, h'⟩ | rfl | rfl
  · simp only [isBlank, Bool.or_eq_false_iff, Bool.and_eq_false_iff, decide_eq_false_iff_not,
      beq_eq_false_iff_ne]
    omega
  · decide
  · decide

theorem upTo?_eq_some (h : upTo? q cs = some (inner, r)) : cs = inner ++ q :: r := by
  have hcs := List.takeWhile_append_dropWhile (p := (· != q)) (l := cs)
  unfold upTo? at h
  split at h
  · cases h
  · next x r' hd =>
    have hx := List.head?_dropWhile_not (· != q) cs
    rw [hd] at hx hcs
    simp only [List.head?_cons, bne_eq_false_iff_eq] at hx
    subst hx
    split at h <;> cases h
    exact hcs.symm

theorem opens_of_identifier? (h : identifier? cs = some (i, r)) : Opens cs i r := by
  cases cs with
  | nil => cases h
  | cons c cs =>
    rw [identifier?] at h
    split at h
    · next hq =>
      obtain ⟨⟨inner, r'⟩, hi, he⟩ := Option.map_eq_some_iff.1 h
      cases he
      rw [upTo?_eq_some hi]
      exact .quoted r (by simpa [IsMark] using hq) (upTo?_not_mem hi) (upTo?_ne_nil hi)
    · split at h
      · next hc =>
        cases h
        have hcs := List.takeWhile_append_dropWhile (p := isIdentifierPart) (l := cs)
        have hpart : ∀ x ∈ cs.takeWhile isIdentifierPart, isIdentifierPart x = true :=
          fun x hx => List.all_eq_true.1 List.all_takeWhile x hx
        have hrest : ∀ x ∈ (cs.dropWhile isIdentifierPart).head?, isIdentifierPart x = false := by
          intro x hx
          have hnot := List.head?_dropWhile_not isIdentifierPart cs
          rw [Option.mem_def.1 hx] at hnot
          simpa using hnot
        have hopens := Opens.plain hc hpart hrest
        rwa [hcs] at hopens
      · cases h

theorem Opens.identifier? (h : Opens cs i r) : identifier? cs = some (i, r) := by
  cases h with
  | quoted r hq hm hne =>
    rw [Statement.identifier?, if_pos (by simpa [IsMark] using hq), upTo?_append hm hne]
    rfl
  | @plain c part r hc hpart hr =>
    have hmark : ¬ (c == backquote || c == doubleQuote) = true := by
      simpa [IsMark] using not_isMark_of_start hc
    have hdrop : r.dropWhile isIdentifierPart = r ∧ r.takeWhile isIdentifierPart = [] := by
      cases r with
      | nil => exact ⟨rfl, rfl⟩
      | cons d r =>
        have hd : isIdentifierPart d = false := hr d rfl
        simp [hd]
    rw [Statement.identifier?, if_neg hmark, if_pos hc, List.dropWhile_append_of_pos hpart,
      List.takeWhile_append_of_pos hpart, hdrop.1, hdrop.2, List.append_nil]

def IsIdentifier (cs : List Char) : Prop :=
  ∃ i, Opens cs i []

theorem isIdentifier_iff (cs : List Char) :
    IsIdentifier cs ↔ (identifier? cs).any (fun x => x.2.isEmpty) = true := by
  constructor
  · rintro ⟨i, h⟩
    simp [h.identifier?]
  · intro h
    cases hi : identifier? cs with
    | none => simp [hi] at h
    | some x =>
      obtain ⟨i, r⟩ := x
      obtain rfl : r = [] := by simpa [hi] using h
      exact ⟨i, opens_of_identifier? hi⟩

instance (cs : List Char) : Decidable (IsIdentifier cs) :=
  decidable_of_iff' _ (isIdentifier_iff cs)

example : ¬ IsIdentifier "processing-log".toList ∧ ¬ IsIdentifier "2024_log".toList := by
  decide +kernel

def Enclosed (q : Char) (cs : List Char) : Prop :=
  2 ≤ cs.length ∧ cs.head? = some q ∧ cs.getLast? = some q

instance (q : Char) (cs : List Char) : Decidable (Enclosed q cs) :=
  inferInstanceAs (Decidable (2 ≤ cs.length ∧ cs.head? = some q ∧ cs.getLast? = some q))

/-- The name that a text stands for, taken as it is: what is between its marks, or else the text in
upper case. -/
def folded (cs : List Char) : String :=
  String.ofList
    (if Enclosed backquote cs ∨ Enclosed doubleQuote cs then cs.tail.dropLast else upper cs)

theorem folded_cases (cs : List Char) :
    folded cs = String.ofList (upper cs) ∧ (∀ q, IsMark q → ¬ Enclosed q cs) ∨
      ∃ q inner, IsMark q ∧ cs = q :: (inner ++ [q]) ∧ folded cs = String.ofList inner := by
  rw [folded]
  split
  · next h =>
    right
    have hq : ∃ q, IsMark q ∧ Enclosed q cs := by
      rcases h with h | h
      · exact ⟨backquote, .inl rfl, h⟩
      · exact ⟨doubleQuote, .inr rfl, h⟩
    obtain ⟨q, hq, hlength, hhead, hlast⟩ := hq
    obtain ⟨front, rfl⟩ := List.getLast?_eq_some_iff.1 hlast
    cases front with
    | nil => simp at hlength
    | cons d inner =>
      cases hhead
      exact ⟨q, inner, hq, rfl, by simp⟩
  · next h =>
    refine .inl ⟨rfl, ?_⟩
    rintro q (rfl | rfl) he
    · exact h (.inl he)
    · exact h (.inr he)

theorem Opens.cases (h : Opens cs i r) :
    (∃ q inner, IsMark q ∧ q ∉ inner ∧ inner ≠ [] ∧ cs = q :: (inner ++ q :: r) ∧
        i = ⟨true, inner⟩) ∨
      ∃ c part, isIdentifierStart c = true ∧ (∀ x ∈ part, isIdentifierPart x = true) ∧
        cs = c :: (part ++ r) ∧ i = ⟨false, c :: part⟩ := by
  cases h with
  | quoted _ hq hm hne => exact .inl ⟨_, _, hq, hm, hne, rfl, rfl⟩
  | plain hc hpart => exact .inr ⟨_, _, hc, hpart, rfl, rfl⟩

theorem Opens.name (h : Opens cs i []) : i.name = folded cs := by
  rcases h.cases with ⟨q, inner, hq, -, -, rfl, rfl⟩ | ⟨c, part, hc, -, rfl, rfl⟩
  · rcases folded_cases (q :: (inner ++ [q])) with ⟨-, hn⟩ | ⟨q', inner', -, he, hf⟩
    · exact absurd ⟨by simp, rfl, by simp [List.getLast?_cons]⟩ (hn q hq)
    · obtain ⟨rfl, he⟩ := List.cons_eq_cons.1 he
      rw [hf, ← List.append_cancel_right he, Identifier.name, if_pos rfl]
  · rcases folded_cases (c :: (part ++ [])) with ⟨hf, -⟩ | ⟨q, inner, hq, he, -⟩
    · rw [hf, List.append_nil]
      rfl
    · obtain ⟨rfl, -⟩ := List.cons_eq_cons.1 he
      exact absurd hq (not_isMark_of_start hc)

theorem Opens.append (h : Opens cs i []) (hr : ∀ x ∈ r.head?, isIdentifierPart x = false) :
    Opens (cs ++ r) i r := by
  cases h with
  | quoted _ hq hm hne => simpa using Opens.quoted r hq hm hne
  | plain hc hpart => simpa using Opens.plain hc hpart hr

theorem mem_upper_mark (hq : IsMark q) (h : q ∈ cs) : q ∈ upper cs := by
  have hsame : q.toUpper = q := by
    rcases hq with rfl | rfl <;> decide
  exact hsame ▸ List.mem_map_of_mem h

theorem dropWhile_isBlank_mark (hq : IsMark q) (cs : List Char) :
    (q :: cs).dropWhile isBlank = q :: cs :=
  List.dropWhile_cons_of_neg (by simp [isBlank_mark hq])

theorem Opens.dropWhile_isBlank (h : Opens cs i []) (r : List Char) :
    (cs ++ r).dropWhile isBlank = cs ++ r := by
  rcases h.cases with ⟨q, inner, hq, -, -, rfl, -⟩ | ⟨c, part, hc, -, rfl, -⟩
  · rw [List.cons_append, dropWhile_isBlank_mark hq]
  · have hblank := isBlank_identifierPart (isIdentifierPart_of_start hc)
    rw [List.cons_append, List.dropWhile_cons_of_neg (by simp [hblank])]

theorem isIdentifier_of_opens {rest : List Char}
    (h : Opens (cs.dropWhile isBlank ++ ' ' :: r) i rest) (hname : i.name = folded cs)
    (hcs : cs.dropWhile isBlank ≠ []) : IsIdentifier cs := by
  obtain ⟨d, ds, hd⟩ := List.exists_cons_of_ne_nil hcs
  have hsub : (cs.dropWhile isBlank).Sublist cs := List.dropWhile_sublist isBlank
  rcases h.cases with ⟨q, inner, hq, hm, hne, he, rfl⟩ | ⟨c, part, hc, hpart, he, rfl⟩
  · rw [hd, List.cons_append] at he
    obtain ⟨rfl, -⟩ := List.cons_eq_cons.1 he
    rcases folded_cases cs with ⟨hf, -⟩ | ⟨q, inner', hq', rfl, hf⟩
    · -- upper case keeps the mark that the name has lost
      rw [hf, Identifier.name, if_pos rfl, String.ofList_inj] at hname
      have hmark : d ∈ upper cs := mem_upper_mark hq (hsub.subset (by simp [hd]))
      rw [← hname] at hmark
      exact absurd hmark hm
    · rw [dropWhile_isBlank_mark hq'] at hd
      obtain ⟨rfl, -⟩ := List.cons_eq_cons.1 hd
      rw [hf, Identifier.name, if_pos rfl, String.ofList_inj] at hname
      obtain rfl : inner = inner' := hname
      exact ⟨_, .quoted [] hq hm hne⟩
  · have hupper : folded cs = String.ofList (upper cs) := by
      rcases folded_cases cs with ⟨hf, -⟩ | ⟨q, inner, hq, rfl, -⟩
      · exact hf
      · rw [dropWhile_isBlank_mark hq] at he
        obtain ⟨rfl, -⟩ := List.cons_eq_cons.1 he
        exact absurd hq (not_isMark_of_start hc)
    have hlength : (c :: part).length = cs.length := by
      rw [hupper, Identifier.name, if_neg (by simp), String.ofList_inj] at hname
      simpa [upper] using congrArg List.length hname
    have hle := hsub.length_le
    have hwhole (hskip : cs.dropWhile isBlank = c :: part) : IsIdentifier cs := by
      obtain rfl : c :: part = cs := (hskip ▸ hsub).eq_of_length hlength
      have hopens := Opens.plain hc hpart (r := []) (by simp)
      rw [List.append_nil] at hopens
      exact ⟨_, hopens⟩
    rw [← List.cons_append, List.append_eq_append_iff] at he
    rcases he with ⟨more, hmore, hrest⟩ | ⟨more, hmore, -⟩
    · cases more with
      | nil => exact hwhole (by simpa using hmore.symm)
      | cons x more =>
        -- a plain identifier has no blank in it
        obtain ⟨rfl, -⟩ := List.cons_eq_cons.1 hrest
        have hmem : ' ' ∈ c :: part := by simp [hmore]
        have hpartBlank : isIdentifierPart ' ' = true := by
          rcases List.mem_cons.1 hmem with rfl | hmem
          · exact isIdentifierPart_of_start hc
          · exact hpart ' ' hmem
        exact absurd hpartBlank (by decide)
    · have hlonger := congrArg List.length hmore
      rw [List.length_append] at hlonger
      obtain rfl : more = [] := List.length_eq_zero_iff.1 (by omega)
      exact hwhole (by simpa using hmore)

end StatementLog.Statement
