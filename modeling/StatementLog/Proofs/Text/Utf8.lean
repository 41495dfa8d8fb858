import StatementLog.Text.Utf8

namespace StatementLog.Text.Utf8

section

variable {a b c d : UInt8} {i : Nat} {r : List UInt8}

theorem decodeFrom_one (ha : width? a = some 1) :
    decodeFrom i (a :: r) = (decodeFrom (i + 1) r).map (Char.ofNat a.toNat :: ·) := by
  rw [decodeFrom.eq_def]
  simp [ha]

theorem decodeFrom_two (ha : width? a = some 2) (hb : maySecond a b = true) :
    decodeFrom i (a :: b :: r) = (decodeFrom (i + 2) r).map (char2 a b :: ·) := by
  rw [decodeFrom.eq_def]
  simp [ha, hb]

theorem decodeFrom_three (ha : width? a = some 3) (hb : maySecond a b = true)
    (hc : isTail c = true) :
    decodeFrom i (a :: b :: c :: r) = (decodeFrom (i + 3) r).map (char3 a b c :: ·) := by
  rw [decodeFrom.eq_def]
  simp [ha, hb, hc]

theorem decodeFrom_four (ha : width? a = some 4) (hb : maySecond a b = true)
    (hc : isTail c = true) (hd : isTail d = true) :
    decodeFrom i (a :: b :: c :: d :: r) = (decodeFrom (i + 4) r).map (char4 a b c d :: ·) := by
  rw [decodeFrom.eq_def]
  simp [ha, hb, hc, hd]

end

theorem toNat_toUInt8 {n : Nat} (h : n < 256) : n.toUInt8.toNat = n := by
  simp [Nat.mod_eq_of_lt h]

theorem width?_eq (a : UInt8) : width? a =
    if a.toNat ≤ 0x7F then some 1
    else if 0xC2 ≤ a.toNat ∧ a.toNat ≤ 0xDF then some 2
    else if 0xE0 ≤ a.toNat ∧ a.toNat ≤ 0xEF then some 3
    else if 0xF0 ≤ a.toNat ∧ a.toNat ≤ 0xF4 then some 4
    else none := by
  simp [width?, UInt8.le_iff_toNat_le]

theorem isTail_iff {b : UInt8} : isTail b = true ↔ 0x80 ≤ b.toNat ∧ b.toNat ≤ 0xBF := by
  simp [isTail, UInt8.le_iff_toNat_le]

theorem maySecond_iff {a b : UInt8} : maySecond a b = true ↔
    0x80 ≤ b.toNat ∧ b.toNat ≤ 0xBF ∧ (a.toNat = 0xE0 → 0xA0 ≤ b.toNat) ∧
      (a.toNat = 0xED → b.toNat ≤ 0x9F) ∧ (a.toNat = 0xF0 → 0x90 ≤ b.toNat) ∧
        (a.toNat = 0xF4 → b.toNat ≤ 0x8F) := by
  simp only [maySecond, isTail, beq_iff_eq, ← UInt8.toNat_inj, UInt8.le_iff_toNat_le,
    UInt8.reduceToNat]
  split
  · simp
    omega
  · split
    · simp
      omega
    · split
      · simp
        omega
      · split
        · simp
          omega
        · simp
          omega

theorem decodeFrom_encodeChar (c : Char) (i : Nat) (r : List UInt8) :
    decodeFrom i (encodeChar c ++ r) =
      (decodeFrom (i + (encodeChar c).length) r).map (c :: ·) := by
  have hv : c.toNat < 0xD800 ∨ 0xDFFF < c.toNat ∧ c.toNat < 0x110000 := c.valid
  have hc : Char.ofNat c.toNat = c := Char.ofNat_toNat c
  unfold encodeChar
  simp only
  generalize c.toNat = n at hv hc
  split
  · next h =>
    have ha := toNat_toUInt8 (n := n) (by omega)
    rw [List.singleton_append, decodeFrom_one, ha, hc]
    · rfl
    · rw [width?_eq, ha, if_pos (by omega)]
  · split
    · have ha := toNat_toUInt8 (n := 0xC0 + n / 64) (by omega)
      have hb := toNat_toUInt8 (n := 0x80 + n % 64) (by omega)
      rw [List.cons_append, List.singleton_append, decodeFrom_two, char2, low, ha, hb]
      · have he : (0xC0 + n / 64) % 32 * 64 + (0x80 + n % 64) % 64 = n := by omega
        rw [he, hc]
        rfl
      · rw [width?_eq, ha, if_neg (by omega), if_pos (by omega)]
      · rw [maySecond_iff, ha, hb]
        omega
    · split
      · have ha := toNat_toUInt8 (n := 0xE0 + n / 4096) (by omega)
        have hb := toNat_toUInt8 (n := 0x80 + n / 64 % 64) (by omega)
        have hc' := toNat_toUInt8 (n := 0x80 + n % 64) (by omega)
        simp only [List.cons_append, List.nil_append]
        rw [decodeFrom_three, char3, low, low, ha, hb, hc']
        · have he : (0xE0 + n / 4096) % 16 * 4096 + (0x80 + n / 64 % 64) % 64 * 64 +
              (0x80 + n % 64) % 64 = n := by omega
          rw [he, hc]
          rfl
        · rw [width?_eq, ha, if_neg (by omega), if_neg (by omega), if_pos (by omega)]
        · rw [maySecond_iff, ha, hb]
          omega
        · rw [isTail_iff, hc']
          omega
      · have ha := toNat_toUInt8 (n := 0xF0 + n / 262144) (by omega)
        have hb := toNat_toUInt8 (n := 0x80 + n / 4096 % 64) (by omega)
        have hc' := toNat_toUInt8 (n := 0x80 + n / 64 % 64) (by omega)
        have hd := toNat_toUInt8 (n := 0x80 + n % 64) (by omega)
        simp only [List.cons_append, List.nil_append]
        rw [decodeFrom_four, char4, low, low, low, ha, hb, hc', hd]
        · have he : (0xF0 + n / 262144) % 8 * 262144 + (0x80 + n / 4096 % 64) % 64 * 4096 +
              (0x80 + n / 64 % 64) % 64 * 64 + (0x80 + n % 64) % 64 = n := by omega
          rw [he, hc]
          rfl
        · rw [width?_eq, ha, if_neg (by omega), if_neg (by omega), if_neg (by omega),
            if_pos (by omega)]
        · rw [maySecond_iff, ha, hb]
          omega
        · rw [isTail_iff, hc']
          omega
        · rw [isTail_iff, hd]
          omega

theorem decodeFrom_encode (cs : List Char) (i : Nat) : decodeFrom i (encode cs) = .ok cs := by
  induction cs generalizing i with
  | nil =>
    rw [encode, List.flatMap_nil, decodeFrom]
  | cons c cs ih =>
    rw [encode, List.flatMap_cons, decodeFrom_encodeChar]
    exact congrArg (Except.map (c :: ·)) (ih _)

theorem decode_encode (cs : List Char) : decode (encode cs) = .ok cs :=
  decodeFrom_encode cs 0

theorem mem_encodeChar {c : Char} {b : UInt8} (hb : b ∈ encodeChar c) (hl : b.toNat < 0x80) :
    c.toNat = b.toNat := by
  have hv : c.toNat < 0xD800 ∨ 0xDFFF < c.toNat ∧ c.toNat < 0x110000 := c.valid
  unfold encodeChar at hb
  simp only at hb
  generalize c.toNat = n at hv hb
  split at hb
  · rw [List.mem_singleton.1 hb, toNat_toUInt8 (by omega)]
  · exfalso
    split at hb
    · simp only [List.mem_cons, List.not_mem_nil, or_false] at hb
      rcases hb with rfl | rfl <;> rw [toNat_toUInt8 (by omega)] at hl <;> omega
    · split at hb
      · simp only [List.mem_cons, List.not_mem_nil, or_false] at hb
        rcases hb with rfl | rfl | rfl <;> rw [toNat_toUInt8 (by omega)] at hl <;> omega
      · simp only [List.mem_cons, List.not_mem_nil, or_false] at hb
        rcases hb with rfl | rfl | rfl | rfl <;> rw [toNat_toUInt8 (by omega)] at hl <;> omega

theorem mem_encode {cs : List Char} {b : UInt8} (hb : b ∈ encode cs) (hl : b.toNat < 0x80) :
    ∃ c ∈ cs, c.toNat = b.toNat := by
  obtain ⟨c, hc, hb⟩ := List.mem_flatMap.1 hb
  exact ⟨c, hc, mem_encodeChar hb hl⟩

end StatementLog.Text.Utf8
