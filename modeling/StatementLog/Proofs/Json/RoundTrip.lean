import Mathlib.Data.List.Basic
import StatementLog.Json.Writer

namespace StatementLog.Json

theorem toNat_valid (c : Char) : c.toNat < 0xD800 ∨ 0xDFFF < c.toNat ∧ c.toNat < 0x110000 :=
  c.valid

theorem join?_toNat (cs : List Char) : join? (cs.map Char.toNat) = some cs := by
  have hnone (c : Char) : isHigh c.toNat = false ∧ isLow c.toNat = false := by
    have := toNat_valid c
    simp only [isHigh, isLow, Bool.and_eq_false_iff, decide_eq_false_iff_not]
    omega
  induction cs with
  | nil => rfl
  | cons c cs ih =>
    obtain ⟨hh, hl⟩ := hnone c
    cases cs with
    | nil => simp [join?, hh, hl]
    | cons d cs =>
      rw [List.map_cons] at ih
      simp [join?, hh, hl, ih]

theorem hex4?_control {n : Nat} (h : n < 32) :
    hex4? '0' '0' (hexChar (n / 16)) (hexChar (n % 16)) = some n := by
  have hall : ∀ n < 32, hex4? '0' '0' (hexChar (n / 16)) (hexChar (n % 16)) = some n := by decide
  exact hall n h

theorem codes?_plain {c : Char} (hq : c ≠ quote) (he : c ≠ escape) (hc : ¬ c.toNat < 32)
    (r : List Char) :
    codes? (c :: r) = (codes? r).map fun (ns, rest) => (c.toNat :: ns, rest) := by
  rw [codes?.eq_def]
  simp only [beq_iff_eq, hq, he, hc, if_false]
  cases codes? r <;> rfl

theorem codes?_short {e : Char} {n : Nat} (h : shortEscape? e = some n) (hu : e ≠ 'u')
    (r : List Char) :
    codes? (escape :: e :: r) = (codes? r).map fun (ns, rest) => (n :: ns, rest) := by
  have hq : escape ≠ quote := by decide
  rw [codes?.eq_def]
  simp only [beq_iff_eq, hq, if_false, if_true]
  split
  · next he =>
    cases he
    exact absurd rfl hu
  · next he =>
    cases he
    rw [h]
    cases codes? r <;> rfl
  · next he => cases he

theorem codes?_long {a b c d : Char} {n : Nat} (h : hex4? a b c d = some n) (r : List Char) :
    codes? (escape :: 'u' :: a :: b :: c :: d :: r) =
      (codes? r).map fun (ns, rest) => (n :: ns, rest) := by
  have hq : escape ≠ quote := by decide
  rw [codes?.eq_def]
  simp only [beq_iff_eq, hq, if_false, if_true, h]
  cases codes? r <;> rfl

theorem codes?_escapeChar (c : Char) (r : List Char) :
    codes? (escapeChar c ++ r) = (codes? r).map fun (ns, rest) => (c.toNat :: ns, rest) := by
  unfold escapeChar
  simp only [beq_iff_eq]
  split
  · next h =>
    subst h
    exact codes?_short rfl (by decide) r
  split
  · next h =>
    subst h
    exact codes?_short rfl (by decide) r
  split
  · next h => exact h ▸ codes?_short rfl (by decide) r
  split
  · next h => exact h ▸ codes?_short rfl (by decide) r
  split
  · next h => exact h ▸ codes?_short rfl (by decide) r
  split
  · next h => exact h ▸ codes?_short rfl (by decide) r
  split
  · next h => exact h ▸ codes?_short rfl (by decide) r
  split
  · next h => exact codes?_long (hex4?_control h) r
  · next hq he _ _ _ _ _ hc => exact codes?_plain hq he hc r

theorem codes?_write (cs rest : List Char) :
    codes? (cs.flatMap escapeChar ++ quote :: rest) = some (cs.map Char.toNat, rest) := by
  induction cs with
  | nil =>
    rw [List.flatMap_nil, List.nil_append, codes?.eq_def]
    simp
  | cons c cs ih =>
    rw [List.flatMap_cons, List.append_assoc, codes?_escapeChar, ih]
    rfl

theorem string?_write (cs rest : List Char) :
    string? (cs.flatMap escapeChar ++ quote :: rest) = some (some (String.ofList cs), rest) := by
  simp only [string?, codes?_write, Option.map_some, join?_toNat]

def Ends : List Char → Prop
  | [] => True
  | c :: _ => c = ',' ∨ c = '}' ∨ c = ']'

theorem isDigit_of_mem_toDigits {n : Nat} {c : Char} (h : c ∈ Nat.toDigits 10 n) :
    isDigit c = true := by
  have hd := Nat.isDigit_of_mem_toDigits (by decide) (by decide) h
  simpa [Char.isDigit, isDigit, Char.le_def] using hd

theorem digitsValue_toDigits (n : Nat) : digitsValue (Nat.toDigits 10 n) = n := by
  have h := Nat.ofDigitChars_toDigits (n := n) (show 1 < 10 by decide) (by decide)
  rw [Nat.ofDigitChars] at h
  simp only [digitsValue, Nat.mul_comm _ 10]
  exact h

theorem head?_toDigits {n : Nat} (hn : 0 < n) : (Nat.toDigits 10 n).head? ≠ some '0' := by
  induction n using Nat.strongRecOn with
  | _ n ih =>
    rcases Nat.lt_or_ge n 10 with hlt | hge
    · have hall : ∀ n < 10, 0 < n → ([n.digitChar] : List Char).head? ≠ some '0' := by decide
      rw [Nat.toDigits_of_lt_base hlt]
      exact hall n hlt hn
    · rw [Nat.toDigits_of_base_le (by decide) hge,
        List.head?_append_of_ne_nil _ Nat.toDigits_ne_nil]
      exact ih (n / 10) (by omega) (by omega)

theorem digits?_write {ds rest : List Char} (hd : ∀ c ∈ ds, isDigit c = true) (hn : ds ≠ [])
    (hr : Ends rest) : digits? (ds ++ rest) = some (ds, rest) := by
  have hrest : rest.takeWhile isDigit = [] ∧ rest.dropWhile isDigit = rest := by
    cases rest with
    | nil => exact ⟨rfl, rfl⟩
    | cons c rest =>
      have hc : isDigit c = false := by
        rcases hr with rfl | rfl | rfl <;> decide
      simp [hc]
  have ht : (ds ++ rest).takeWhile isDigit = ds := by
    rw [List.takeWhile_append_of_pos hd, hrest.1, List.append_nil]
  have hw : (ds ++ rest).dropWhile isDigit = rest := by
    rw [List.dropWhile_append_of_pos hd, hrest.2]
  rw [digits?, ht, hw]
  cases ds with
  | nil => exact absurd rfl hn
  | cons d ds => rfl

theorem whole?_write (n : Nat) {rest : List Char} (hr : Ends rest) :
    whole? (Nat.toDigits 10 n ++ rest) = some (n, rest) := by
  have hz : ((Nat.toDigits 10 n).head? == some '0' && (Nat.toDigits 10 n).length != 1) = false := by
    rcases Nat.eq_zero_or_pos n with rfl | hn
    · rfl
    · simp [head?_toDigits hn]
  rw [whole?, digits?_write (fun _ => isDigit_of_mem_toDigits) Nat.toDigits_ne_nil hr]
  simp only [Option.bind_eq_bind, Option.bind_some, hz, digitsValue_toDigits]
  rfl

theorem numeral?_write {n : Numeral} (hn : n.integral = true) {rest : List Char}
    (hr : Ends rest) : numeral? (writeNumeral n ++ rest) = some (n, rest) := by
  have hf : fraction? rest = some (false, rest) := by
    cases rest with
    | nil => rfl
    | cons c rest => rcases hr with rfl | rfl | rfl <;> rfl
  have he : exponent? rest = some (false, rest) := by
    cases rest with
    | nil => rfl
    | cons c rest => rcases hr with rfl | rfl | rfl <;> rfl
  obtain ⟨negative, whole, integral⟩ := n
  cases hn
  cases negative with
  | true =>
    simp only [numeral?, writeNumeral, if_true, List.cons_append, List.nil_append,
      Option.bind_eq_bind, whole?_write whole hr, Option.bind_some, hf, he]
    rfl
  | false =>
    have hw := whole?_write whole hr
    obtain ⟨d, ds, hds⟩ := List.exists_cons_of_ne_nil (Nat.toDigits_ne_nil (n := whole) (b := 10))
    have hd : d ≠ '-' := by
      rintro rfl
      have hd := isDigit_of_mem_toDigits (hds ▸ List.mem_cons_self ..)
      exact absurd hd (by decide)
    rw [hds, List.cons_append] at hw
    simp only [numeral?, writeNumeral, Bool.false_eq_true, if_false, List.nil_append, hds,
      List.cons_append]
    split
    · next r h =>
      cases h
      exact absurd rfl hd
    · simp only [Option.bind_eq_bind, hw, Option.bind_some, hf, he]
      rfl

mutual

def Plain : Json → Prop
  | .null => True
  | .bool _ => True
  | .number n => n.integral = true
  | .text s => s.isSome
  | .array items => PlainItems items
  | .object members => PlainMembers members

def PlainItems : List Json → Prop
  | [] => True
  | j :: js => Plain j ∧ PlainItems js

def PlainMembers : List (Option String × Json) → Prop
  | [] => True
  | (key, j) :: ms => key.isSome ∧ Plain j ∧ PlainMembers ms

end

theorem skipBlanks_of_not {c : Char} (h : isBlank c = false) (r : List Char) :
    skipBlanks (c :: r) = c :: r := by
  rw [skipBlanks, List.dropWhile_cons_of_neg (by simp [h])]

theorem writeText_append (cs rest : List Char) :
    writeText cs ++ rest = quote :: (cs.flatMap escapeChar ++ quote :: rest) := by
  simp [writeText]

theorem value?_text (fuel : Nat) (cs rest : List Char) :
    value? (fuel + 1) (writeText cs ++ rest) = some (.text (some (String.ofList cs)), rest) := by
  rw [value?, writeText_append, skipBlanks_of_not (by decide)]
  show (string? (cs.flatMap escapeChar ++ quote :: rest)).map _ = _
  rw [string?_write]
  rfl

theorem writeNumeral_head (n : Numeral) :
    ∃ c cs, writeNumeral n = c :: cs ∧ (c = '-' ∨ isDigit c = true) := by
  obtain ⟨d, ds, hds⟩ := List.exists_cons_of_ne_nil (Nat.toDigits_ne_nil (n := n.whole) (b := 10))
  cases hn : n.negative with
  | true => exact ⟨'-', d :: ds, by simp [writeNumeral, hn, hds], .inl rfl⟩
  | false =>
    exact ⟨d, ds, by simp [writeNumeral, hn, hds],
      .inr (isDigit_of_mem_toDigits (hds ▸ List.mem_cons_self ..))⟩

theorem value?_number (fuel : Nat) {c : Char} (h : c = '-' ∨ isDigit c = true) (cs : List Char) :
    value? (fuel + 1) (c :: cs) = (numeral? (c :: cs)).map fun (n, rest) => (.number n, rest) := by
  have hne (m : Char) (hm : (m == '-' || isDigit m) = false) : c ≠ m := by
    rintro rfl
    rcases h with rfl | h
    · cases hm
    · simp [h] at hm
  have hb : isBlank c = false := by
    simp [isBlank, hne ' ' rfl, hne '\t' rfl, hne '\n' rfl, hne '\r' rfl]
  rw [value?, skipBlanks_of_not hb]
  split
  · next he => exact absurd (List.cons.inj he).1 (hne '{' rfl)
  · next he => exact absurd (List.cons.inj he).1 (hne '[' rfl)
  · next he => exact absurd (List.cons.inj he).1 (hne '"' rfl)
  · next he => exact absurd (List.cons.inj he).1 (hne 't' rfl)
  · next he => exact absurd (List.cons.inj he).1 (hne 'f' rfl)
  · next he => exact absurd (List.cons.inj he).1 (hne 'n' rfl)
  · rfl

theorem value?_numeral (fuel : Nat) {n : Numeral} (hn : n.integral = true) {rest : List Char}
    (hr : Ends rest) : value? (fuel + 1) (writeNumeral n ++ rest) = some (.number n, rest) := by
  have hw := numeral?_write hn hr
  obtain ⟨c, cs, hcs, hc⟩ := writeNumeral_head n
  rw [hcs, List.cons_append] at hw ⊢
  rw [value?_number fuel hc, hw]
  rfl

theorem write_head (j : Json) : ∃ c cs, write j = c :: cs ∧ isBlank c = false ∧ c ≠ ']' := by
  cases j with
  | null => exact ⟨'n', _, rfl, rfl, by decide⟩
  | bool value => cases value <;> exact ⟨_, _, rfl, rfl, by decide⟩
  | number n =>
    obtain ⟨c, cs, hcs, hc⟩ := writeNumeral_head n
    refine ⟨c, cs, hcs, ?_⟩
    rcases hc with rfl | hc
    · decide
    · refine ⟨?_, ?_⟩
      · cases hb : isBlank c with
        | false => rfl
        | true =>
          simp only [isBlank, Bool.or_eq_true, beq_iff_eq] at hb
          rcases hb with ((rfl | rfl) | rfl) | rfl <;> cases hc
      · rintro rfl
        cases hc
  | text value => exact ⟨quote, _, rfl, by decide, by decide⟩
  | array items => exact ⟨'[', _, rfl, rfl, by decide⟩
  | object members => exact ⟨'{', _, rfl, rfl, by decide⟩

theorem writeItems_head (j : Json) (js : List Json) :
    ∃ c cs, writeItems (j :: js) = c :: cs ∧ isBlank c = false ∧ c ≠ ']' := by
  obtain ⟨c, cs, hcs, hc⟩ := write_head j
  cases js with
  | nil => exact ⟨c, cs, by rw [writeItems, hcs], hc⟩
  | cons j' js =>
    exact ⟨c, cs ++ ',' :: writeItems (j' :: js), by simp [writeItems, hcs], hc⟩

theorem writeMembers_cons (key : String) (j : Json) (ms : List (Option String × Json)) :
    writeMembers ((some key, j) :: ms) = writeText key.toList ++ ':' :: (write j ++
      if ms.isEmpty then [] else ',' :: writeMembers ms) := by
  cases ms with
  | nil => simp [writeMembers]
  | cons m ms => simp [writeMembers]

theorem write_length (j : Json) : 0 < (write j).length := by
  obtain ⟨c, cs, hcs, -⟩ := write_head j
  rw [hcs]
  exact Nat.succ_pos _

mutual

theorem value?_write : (j : Json) → Plain j → ∀ (fuel : Nat) (rest : List Char),
    (write j).length ≤ fuel → Ends rest → value? fuel (write j ++ rest) = some (j, rest)
  | .null, _, fuel + 1, rest, _, _ => rfl
  | .bool true, _, fuel + 1, rest, _, _ => rfl
  | .bool false, _, fuel + 1, rest, _, _ => rfl
  | .number n, h, fuel + 1, rest, _, hr => by
    rw [write]
    exact value?_numeral fuel h hr
  | .text (some s), h, fuel + 1, rest, _, _ => by
    rw [write]
    have hv := value?_text fuel s.toList rest
    rw [String.ofList_toList] at hv
    exact hv
  | .array [], _, fuel + 1, rest, _, _ => rfl
  | .array (j :: js), h, fuel + 1, rest, hf, hr => by
    have hw : write (.array (j :: js)) ++ rest = '[' :: (writeItems (j :: js) ++ ']' :: rest) := by
      simp [write]
    have hlen : (writeItems (j :: js)).length < fuel := by
      simp only [write, List.length_append, List.length_cons, List.length_nil] at hf
      omega
    have hi := items?_write (j :: js) h fuel rest (by simp) hlen
    obtain ⟨c, cs, hcs, hb, hc⟩ := writeItems_head j js
    rw [hcs, List.cons_append] at hi
    rw [value?, hw, skipBlanks_of_not (by decide), hcs, List.cons_append]
    simp only [skipBlanks_of_not hb]
    split
    · next he =>
      cases he
      exact absurd rfl hc
    · rw [hi]
      rfl
  | .object [], _, fuel + 1, rest, _, _ => rfl
  | .object (m :: ms), h, fuel + 1, rest, hf, hr => by
    have hw : write (.object (m :: ms)) ++ rest =
        '{' :: (writeMembers (m :: ms) ++ '}' :: rest) := by
      simp [write]
    have hlen : (writeMembers (m :: ms)).length < fuel := by
      simp only [write, List.length_append, List.length_cons, List.length_nil] at hf
      omega
    have hi := members?_write (m :: ms) h fuel rest (by simp) hlen
    obtain ⟨key, j⟩ := m
    obtain ⟨key, rfl⟩ := Option.isSome_iff_exists.1 h.1
    rw [writeMembers_cons, List.append_assoc, writeText_append] at hi
    rw [value?, hw, skipBlanks_of_not (by decide), writeMembers_cons, List.append_assoc,
      writeText_append]
    simp only [skipBlanks_of_not (c := quote) (by decide)]
    split
    · next he => cases he
    · rw [hi]
      rfl
  | j, _, 0, rest, hf, _ => absurd hf (Nat.not_le.2 (write_length j))

theorem items?_write : (js : List Json) → PlainItems js → ∀ (fuel : Nat) (rest : List Char),
    js ≠ [] → (writeItems js).length < fuel →
      items? fuel (writeItems js ++ ']' :: rest) = some (js, rest)
  | [], _, _, _, hn, _ => absurd rfl hn
  | [j], h, fuel + 1, rest, _, hf => by
    have hv := value?_write j h.1 fuel (']' :: rest) (Nat.le_of_lt_succ hf) (.inr (.inr rfl))
    rw [items?, writeItems, hv]
    rfl
  | j :: j' :: js, h, fuel + 1, rest, _, hf => by
    have hw : writeItems (j :: j' :: js) ++ ']' :: rest =
        write j ++ ',' :: (writeItems (j' :: js) ++ ']' :: rest) := by
      simp [writeItems]
    simp only [writeItems, List.length_append, List.length_cons] at hf
    have hv := value?_write j h.1 fuel (',' :: (writeItems (j' :: js) ++ ']' :: rest)) (by omega)
      (.inl rfl)
    have hi := items?_write (j' :: js) h.2 fuel rest (by simp) (by omega)
    have hcomma (r : List Char) : skipBlanks (',' :: r) = ',' :: r :=
      skipBlanks_of_not (by decide) r
    rw [items?, hw, hv]
    simp only [Option.bind_eq_bind, Option.bind_some, hcomma, hi]
    rfl

theorem members?_write : (ms : List (Option String × Json)) → PlainMembers ms →
    ∀ (fuel : Nat) (rest : List Char), ms ≠ [] → (writeMembers ms).length < fuel →
      members? fuel (writeMembers ms ++ '}' :: rest) = some (ms, rest)
  | [], _, _, _, hn, _ => absurd rfl hn
  | [(some key, j)], h, fuel + 1, rest, _, hf => by
    have hw : writeMembers [(some key, j)] ++ '}' :: rest =
        quote :: (key.toList.flatMap escapeChar ++ quote :: ':' :: (write j ++ '}' :: rest)) := by
      simp [writeMembers, writeText]
    simp only [writeMembers, Option.getD_some, List.length_append, List.length_cons] at hf
    have hv := value?_write j h.2.1 fuel ('}' :: rest) (by omega) (.inr (.inl rfl))
    have hcolon (r : List Char) : skipBlanks (':' :: r) = ':' :: r :=
      skipBlanks_of_not (by decide) r
    have hclose (r : List Char) : skipBlanks ('}' :: r) = '}' :: r :=
      skipBlanks_of_not (by decide) r
    rw [members?, hw, skipBlanks_of_not (by decide)]
    show ((string? (key.toList.flatMap escapeChar ++ quote :: ':' :: _)).bind _) = _
    rw [string?_write]
    simp only [Option.bind_eq_bind, Option.bind_some, hcolon, hv, hclose, String.ofList_toList]
    rfl
  | (some key, j) :: m :: ms, h, fuel + 1, rest, _, hf => by
    have hw : writeMembers ((some key, j) :: m :: ms) ++ '}' :: rest =
        quote :: (key.toList.flatMap escapeChar ++ quote :: ':' :: (write j ++
          ',' :: (writeMembers (m :: ms) ++ '}' :: rest))) := by
      simp [writeMembers, writeText]
    simp only [writeMembers, Option.getD_some, List.length_append, List.length_cons] at hf
    have hv := value?_write j h.2.1 fuel (',' :: (writeMembers (m :: ms) ++ '}' :: rest)) (by omega)
      (.inl rfl)
    have hm := members?_write (m :: ms) h.2.2 fuel rest (by simp) (by omega)
    have hcolon (r : List Char) : skipBlanks (':' :: r) = ':' :: r :=
      skipBlanks_of_not (by decide) r
    have hcomma (r : List Char) : skipBlanks (',' :: r) = ',' :: r :=
      skipBlanks_of_not (by decide) r
    rw [members?, hw, skipBlanks_of_not (by decide)]
    show ((string? (key.toList.flatMap escapeChar ++ quote :: ':' :: _)).bind _) = _
    rw [string?_write]
    simp only [Option.bind_eq_bind, Option.bind_some, hcolon, hv, hcomma, hm, String.ofList_toList]
    rfl

end

theorem readChars_write {j : Json} (h : Plain j) : readChars (write j) = some j := by
  have hv := value?_write j h ((write j).length + 1) [] (Nat.le_succ _) trivial
  rw [List.append_nil] at hv
  rw [readChars, hv]
  rfl

end StatementLog.Json
