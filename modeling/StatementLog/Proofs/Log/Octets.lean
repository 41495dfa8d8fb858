import StatementLog.Log.Tape
import StatementLog.Proofs.Command.Line

namespace StatementLog

def Record.commandsFrom (n : Nat) (rs : List Record) : List Command :=
  (rs.zipIdx n).map fun (r, i) => r.command i

theorem Record.length_commandsFrom (n : Nat) (rs : List Record) :
    (Record.commandsFrom n rs).length = rs.length := by
  rw [Record.commandsFrom, List.length_map, List.length_zipIdx]

namespace Lines

def written (rs : List Record) : List UInt8 :=
  rs.flatMap fun r => r.octets ++ [lineFeed]

theorem written_append (rs rs' : List Record) :
    written (rs ++ rs') = written rs ++ written rs' := by
  rw [written, List.flatMap_append, written, written]

theorem written_cons (r : Record) (rs : List Record) :
    written (r :: rs) = r.octets ++ lineFeed :: written rs := by
  rw [written, List.flatMap_cons, List.append_assoc]
  rfl

theorem drop_written (rs : List Record) (n : Nat) (t : List UInt8) :
    (written rs ++ t).drop (written (rs.take n)).length = written (rs.drop n) ++ t := by
  have h : written rs ++ t = written (rs.take n) ++ (written (rs.drop n) ++ t) := by
    rw [← List.append_assoc, ← written_append, List.take_append_drop]
  rw [h, List.drop_left]

theorem length_written_take (rs : List Record) (n : Nat) :
    (written (rs.take n)).length + (written (rs.drop n)).length = (written rs).length := by
  rw [← List.length_append, ← written_append, List.take_append_drop]

theorem split_tail {t : List UInt8} (h : lineFeed ∉ t) : split t = ([], t) := by
  induction t with
  | nil => rfl
  | cons b t ih =>
    have hb : b ≠ lineFeed := fun hb => h (hb ▸ List.mem_cons_self ..)
    rw [split, ih fun ht => h (List.mem_cons_of_mem _ ht)]
    simp only [hb, if_false]

theorem split_line {l : List UInt8} (h : lineFeed ∉ l) (r : List UInt8) :
    split (l ++ lineFeed :: r) = (l :: (split r).1, (split r).2) := by
  induction l with
  | nil => simp [split]
  | cons b l ih =>
    have hb : b ≠ lineFeed := fun hb => h (hb ▸ List.mem_cons_self ..)
    rw [List.cons_append, split, ih fun hl => h (List.mem_cons_of_mem _ hl)]
    simp only [hb, if_false]

theorem split_written (rs : List Record) {t : List UInt8} (h : lineFeed ∉ t) :
    split (written rs ++ t) = (rs.map Record.octets, t) := by
  induction rs with
  | nil => exact split_tail h
  | cons r rs ih =>
    rw [written_cons, List.append_assoc, List.cons_append, split_line r.lineFeed_not_mem_octets, ih]
    rfl

theorem complete_written (rs : List Record) {t : List UInt8} (h : lineFeed ∉ t) :
    complete (written rs ++ t) = rs.map Record.octets := by
  rw [complete, split_written rs h]

theorem completeLength_written (rs : List Record) {t : List UInt8} (h : lineFeed ∉ t) :
    completeLength (written rs ++ t) = (written rs).length := by
  rw [completeLength, tail, split_written rs h, List.length_append, Nat.add_sub_cancel]

theorem countRecords_octets (rs : List Record) :
    countRecords (rs.map Record.octets) = rs.length := by
  rw [countRecords, List.countP_eq_length.2, List.length_map]
  intro l hl
  obtain ⟨r, -, rfl⟩ := List.mem_map.1 hl
  exact r.octets_isRecord

theorem readFrom_octets {rs : List Record} (h : ∀ r ∈ rs, r.Readable) (n : Nat) :
    readFrom n (rs.map Record.octets) = (.ok (Record.commandsFrom n rs), n + rs.length) := by
  induction rs generalizing n with
  | nil => rfl
  | cons r rs ih =>
    have hr := Record.decode_readable (h r (List.mem_cons_self ..)) n
    have ih := ih (fun r' hr' => h r' (List.mem_cons_of_mem _ hr')) (n + 1)
    rw [List.map_cons, readFrom, r.decode_octets]
    simp only [r.line_not_blank, hr, ih, List.length_cons, Nat.add_assoc, Nat.add_comm 1]
    rfl

end Lines

namespace Tape

theorem decodeFrom_lines {rs : List Record} (h : ∀ r ∈ rs, r.Readable) (n : Nat) :
    decodeFrom n (rs.map Record.line) = .ok (Record.commandsFrom n rs) := by
  induction rs generalizing n with
  | nil => rfl
  | cons r rs ih =>
    have hr := Record.decode_readable (h r (List.mem_cons_self ..)) n
    have ih := ih (fun r' hr' => h r' (List.mem_cons_of_mem _ hr')) (n + 1)
    rw [List.map_cons, decodeFrom, hr, ih]
    rfl

theorem read_lines {t : Tape} {rs : List Record} (hl : t.lines = rs.map Record.line)
    (h : ∀ r ∈ rs, r.Readable) (k : TapeClient) :
    t.read k = (.ok (Record.commandsFrom k.cursor (rs.drop k.cursor)),
      { k with cursor := k.cursor + (Record.commandsFrom k.cursor (rs.drop k.cursor)).length }) := by
  have hrest : ∀ r ∈ rs.drop k.cursor, r.Readable := fun r hm => h r (List.mem_of_mem_drop hm)
  rw [read, hl, ← List.map_drop, decodeFrom_lines hrest]

end Tape

namespace Extent

def ofFirst (n : Nat) (rs : List Record) : Extent :=
  ⟨(Lines.written (rs.take n)).length, n⟩

theorem scan_written {n : Nat} {rs : List Record} (hn : n ≤ rs.length) {t : List UInt8}
    (h : Lines.lineFeed ∉ t) :
    (ofFirst n rs).scan (Lines.written rs ++ t) = (ofFirst rs.length rs, t.length) := by
  have hlen := Lines.length_written_take rs n
  have hs : (ofFirst n rs).start (Lines.written rs ++ t) = ofFirst n rs := by
    rw [start, if_neg]
    simp only [ofFirst, List.length_append]
    omega
  rw [scan, hs]
  simp only [ofFirst, Lines.drop_written, Lines.completeLength_written _ h,
    Lines.complete_written _ h, Lines.countRecords_octets, Lines.tail, Lines.split_written _ h,
    List.length_drop, List.take_length, hlen, Nat.add_sub_cancel' hn]

theorem scan_all (rs : List Record) {t : List UInt8} (h : Lines.lineFeed ∉ t) :
    scan {} (Lines.written rs ++ t) = (ofFirst rs.length rs, t.length) :=
  scan_written (Nat.zero_le rs.length) h

theorem take_scan_all (rs : List Record) {t : List UInt8} (h : Lines.lineFeed ∉ t) :
    (Lines.written rs ++ t).take (scan {} (Lines.written rs ++ t)).1.octets = Lines.written rs := by
  rw [scan_all rs h, ofFirst, List.take_length, List.take_left]

theorem ofFirst_append {n : Nat} {rs : List Record} (hn : n ≤ rs.length) (rs' : List Record) :
    ofFirst n (rs ++ rs') = ofFirst n rs := by
  rw [ofFirst, List.take_append_of_le_length hn, ofFirst]

end Extent

end StatementLog
