import StatementLog.Proofs.Text.Utf8

namespace StatementLog.Text.Utf8

variable {c d : Char} {cs ds : List Char} {x y n m k base : Nat} {r r' : List UInt8}

def cut : Nat → Nat → Nat
  | 0, n => n
  | k + 1, n => cut k n / 64

theorem cut_le (h : n ≤ m) (k : Nat) : cut k n ≤ cut k m := by
  induction k with
  | zero => exact h
  | succ k ih => exact Nat.div_le_div_right ih

def digits : Nat → Nat → List UInt8
  | 0, _ => []
  | k + 1, n => (0x80 + cut k n % 64).toUInt8 :: digits k n

theorem cons_lt_cons (hx : x < 256) (hy : y < 256) (h : x < y ∨ x = y ∧ r < r') :
    x.toUInt8 :: r < y.toUInt8 :: r' := by
  rw [List.cons_lt_cons_iff, UInt8.lt_iff_toNat_lt, toNat_toUInt8 hx, toNat_toUInt8 hy]
  rcases h with h | ⟨rfl, h⟩
  · exact .inl h
  · exact .inr ⟨rfl, h⟩

theorem digits_lt (h : n < m) (hk : cut k n = cut k m) (r r' : List UInt8) :
    digits k n ++ r < digits k m ++ r' := by
  induction k with
  | zero => exact absurd hk (Nat.ne_of_lt h)
  | succ k ih =>
    have hle := cut_le (Nat.le_of_lt h) k
    rw [cut, cut] at hk
    rw [digits, digits, List.cons_append, List.cons_append]
    refine cons_lt_cons (by omega) (by omega) ?_
    rcases Nat.eq_or_lt_of_le hle with he | hlt
    · exact .inr ⟨by rw [he], ih he⟩
    · exact .inl (by omega)

theorem lead_lt (h : n < m) (hm : base + cut k m < 256) (r r' : List UInt8) :
    (base + cut k n).toUInt8 :: (digits k n ++ r) <
      (base + cut k m).toUInt8 :: (digits k m ++ r') := by
  have hle := cut_le (Nat.le_of_lt h) k
  refine cons_lt_cons (by omega) hm ?_
  rcases Nat.eq_or_lt_of_le hle with he | hlt
  · exact .inr ⟨by rw [he], digits_lt h he r r'⟩
  · exact .inl (by omega)

def tails (n : Nat) : Nat :=
  if n < 0x80 then 0 else if n < 0x800 then 1 else if n < 0x10000 then 2 else 3

def lead : Nat → Nat
  | 0 => 0
  | 1 => 0xC0
  | 2 => 0xE0
  | _ => 0xF0

def first (n : Nat) : Nat :=
  lead (tails n) + cut (tails n) n

theorem first_cases (n : Nat) :
    tails n = 0 ∧ n < 0x80 ∧ first n = n ∨
      tails n = 1 ∧ 0x80 ≤ n ∧ n < 0x800 ∧ first n = 0xC0 + n / 64 ∨
      tails n = 2 ∧ 0x800 ≤ n ∧ n < 0x10000 ∧ first n = 0xE0 + n / 4096 ∨
      tails n = 3 ∧ 0x10000 ≤ n ∧ first n = 0xF0 + n / 262144 := by
  unfold first tails
  split
  · simp [lead, cut]
    omega
  · split
    · simp [lead, cut]
      omega
    · split
      · simp [lead, cut]
        omega
      · simp [lead, cut]
        omega

theorem encodeChar_eq (c : Char) :
    encodeChar c = (first c.toNat).toUInt8 :: digits (tails c.toNat) c.toNat := by
  unfold encodeChar first tails
  simp only
  split
  · simp [lead, digits, cut]
  · split
    · simp [lead, digits, cut]
    · split
      · simp [lead, digits, cut, Nat.div_div_eq_div_mul]
      · simp [lead, digits, cut, Nat.div_div_eq_div_mul]

theorem first_lt (h : n < 0x110000) : first n < 256 := by
  have hn := first_cases n
  omega

theorem tails_le (h : n < m) : tails n ≤ tails m := by
  have hn := first_cases n
  have hm := first_cases m
  omega

theorem first_lt_of_tails (h : tails n < tails m) : first n < first m := by
  have hn := first_cases n
  have hm := first_cases m
  omega

theorem encodeChar_append_lt (h : c.toNat < d.toNat) (r r' : List UInt8) :
    encodeChar c ++ r < encodeChar d ++ r' := by
  have hd : d.toNat < 0x110000 := by
    have hv : d.toNat < 0xD800 ∨ 0xDFFF < d.toNat ∧ d.toNat < 0x110000 := d.valid
    omega
  rw [encodeChar_eq, encodeChar_eq, List.cons_append, List.cons_append]
  rcases Nat.eq_or_lt_of_le (tails_le h) with hk | hk
  · have hlt := lead_lt h (first_lt hd) r r'
    rwa [first, hk]
  · exact cons_lt_cons (first_lt (Nat.lt_trans h hd)) (first_lt hd) (.inl (first_lt_of_tails hk))

theorem encode_lt (h : cs < ds) : encode cs < encode ds := by
  induction cs generalizing ds with
  | nil =>
    cases ds with
    | nil => cases h
    | cons d ds =>
      rw [encode, encode, List.flatMap_cons, encodeChar_eq]
      exact List.nil_lt_cons _ _
  | cons c cs ih =>
    cases ds with
    | nil => cases h
    | cons d ds =>
      rw [encode, encode, List.flatMap_cons, List.flatMap_cons]
      rcases List.cons_lt_cons_iff.1 h with hlt | ⟨rfl, hlt⟩
      · exact encodeChar_append_lt hlt _ _
      · exact List.append_left_lt (ih hlt)

def Before (s t : String) : Prop :=
  encode s.toList < encode t.toList

instance (s t : String) : Decidable (Before s t) :=
  inferInstanceAs (Decidable (encode s.toList < encode t.toList))

theorem before_of_compare {s t : String} (h : compare s t = .lt) : Before s t := by
  have hlt : s < t := compareOfLessAndEq_eq_lt.1 h
  exact encode_lt hlt

example : Before "\uFFFD" (String.singleton (Char.ofNat 0x10000)) := by
  decide +kernel

end StatementLog.Text.Utf8
