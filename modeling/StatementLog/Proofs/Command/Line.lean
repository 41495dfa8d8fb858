import StatementLog.Log.Lines
import StatementLog.Proofs.Command.RoundTrip
import StatementLog.Proofs.Text.Utf8

namespace StatementLog

namespace Json

def Printable (cs : List Char) : Prop :=
  ∀ c ∈ cs, 32 ≤ c.toNat

instance (cs : List Char) : Decidable (Printable cs) :=
  List.decidableBAll (fun c : Char => 32 ≤ c.toNat) cs

namespace Printable

theorem nil : Printable [] :=
  fun _ h => nomatch h

theorem cons {c : Char} {cs : List Char} (hc : 32 ≤ c.toNat) (h : Printable cs) :
    Printable (c :: cs) := by
  intro d hd
  rcases List.mem_cons.1 hd with rfl | hd
  · exact hc
  · exact h d hd

theorem append {cs ds : List Char} (h : Printable cs) (h' : Printable ds) :
    Printable (cs ++ ds) := by
  intro c hc
  rcases List.mem_append.1 hc with hc | hc
  · exact h c hc
  · exact h' c hc

end Printable

theorem escapeChar_printable (c : Char) : Printable (escapeChar c) := by
  have hhex : ∀ n < 16, 32 ≤ (hexChar n).toNat := by decide
  unfold escapeChar
  split
  · decide
  split
  · decide
  split
  · decide
  split
  · decide
  split
  · decide
  split
  · decide
  split
  · decide
  split
  · next h =>
    refine .cons (by decide) (.cons (by decide) (.cons (by decide) (.cons (by decide) ?_)))
    exact .cons (hhex _ (by omega)) (.cons (hhex _ (by omega)) .nil)
  · next h => exact .cons (Nat.not_lt.1 h) .nil

theorem writeText_printable (cs : List Char) : Printable (writeText cs) := by
  refine .append (.cons (by decide) fun c hc => ?_) (.cons (by decide) .nil)
  obtain ⟨d, -, hc⟩ := List.mem_flatMap.1 hc
  exact escapeChar_printable d c hc

theorem writeNumeral_printable (n : Numeral) : Printable (writeNumeral n) := by
  refine .append ?_ fun c hc => ?_
  · split <;> decide
  · have hd : '0' ≤ c ∧ c ≤ '9' := by simpa [isDigit] using isDigit_of_mem_toDigits hc
    have hd : 48 ≤ c.toNat := hd.1
    omega

mutual

theorem write_printable : (j : Json) → Printable (write j)
  | .null => by rw [write]; decide
  | .bool true => by rw [write]; decide
  | .bool false => by rw [write]; decide
  | .number n => by rw [write]; exact writeNumeral_printable n
  | .text s => by rw [write]; exact writeText_printable _
  | .array items => by
    rw [write]
    exact .append (.cons (by decide) (writeItems_printable items)) (.cons (by decide) .nil)
  | .object members => by
    rw [write]
    exact .append (.cons (by decide) (writeMembers_printable members)) (.cons (by decide) .nil)

theorem writeItems_printable : (js : List Json) → Printable (writeItems js)
  | [] => by rw [writeItems]; exact .nil
  | [j] => by rw [writeItems]; exact write_printable j
  | j :: j' :: js => by
    rw [writeItems]
    · exact .append (write_printable j) (.cons (by decide) (writeItems_printable (j' :: js)))
    · simp

theorem writeMembers_printable : (ms : List (Option String × Json)) → Printable (writeMembers ms)
  | [] => by rw [writeMembers]; exact .nil
  | [(key, j)] => by
    rw [writeMembers]
    exact .append (writeText_printable _) (.cons (by decide) (write_printable j))
  | (key, j) :: m :: ms => by
    rw [writeMembers]
    · exact .append (.append (writeText_printable _) (.cons (by decide) (write_printable j)))
        (.cons (by decide) (writeMembers_printable (m :: ms)))
    · simp

end

end Json

namespace Record

def octets (r : Record) : List UInt8 :=
  Text.Utf8.encode r.line

theorem line_cons (r : Record) : ∃ cs, r.line = '{' :: cs := by
  rw [line, toJson, Json.write]
  exact ⟨_, rfl⟩

theorem octets_cons (r : Record) : ∃ bs, r.octets = 123 :: bs := by
  obtain ⟨cs, h⟩ := r.line_cons
  rw [octets, h]
  exact ⟨Text.Utf8.encode cs, rfl⟩

theorem lineFeed_not_mem_octets (r : Record) : Lines.lineFeed ∉ r.octets := by
  intro h
  obtain ⟨c, hc, hn⟩ := Text.Utf8.mem_encode h (by decide)
  have hp := Json.write_printable r.toJson c hc
  have hl : Lines.lineFeed.toNat = 10 := rfl
  omega

theorem octets_isRecord (r : Record) : Lines.isRecord r.octets = true := by
  obtain ⟨bs, h⟩ := r.octets_cons
  rw [h, Lines.isRecord, List.any_cons]
  rfl

theorem line_not_blank (r : Record) : Text.isBlankText r.line = false := by
  obtain ⟨cs, h⟩ := r.line_cons
  rw [h, Text.isBlankText, List.all_cons]
  rfl

theorem decode_octets (r : Record) : Text.Utf8.decode r.octets = .ok r.line :=
  Text.Utf8.decode_encode r.line

end Record

end StatementLog
