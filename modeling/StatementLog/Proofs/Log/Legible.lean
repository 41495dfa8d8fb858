import Mathlib.Data.List.TakeWhile
import StatementLog.Log.Disk
import StatementLog.Proofs.Log.Octets

namespace StatementLog

namespace Command

def later (k : Nat) (c : Command) : Command :=
  { c with offset := c.offset + k }

theorem map_later {k : Nat} {cs : List Command} :
    cs.map (later k) = cs ↔ k = 0 ∨ cs = [] := by
  constructor
  · intro h
    cases cs with
    | nil => exact .inr rfl
    | cons c cs =>
      have hc : c.offset + k = c.offset := congrArg Command.offset (List.cons.inj h).1
      exact .inl (Nat.add_eq_left.1 hc)
  · rintro (rfl | rfl)
    · exact List.map_id cs
    · rfl

end Command

namespace RecordFault

def offset : RecordFault → Nat
  | malformed offset | notUtf8 offset _ => offset

def later (k : Nat) : RecordFault → RecordFault
  | malformed offset => malformed (offset + k)
  | notUtf8 offset fault => notUtf8 (offset + k) fault

theorem offset_later (k : Nat) (f : RecordFault) : (f.later k).offset = f.offset + k := by
  cases f <;> rfl

end RecordFault

def Error.later (k : Nat) : Error → Error
  | .serialization fault => .serialization (fault.later k)
  | e => e

namespace Record

theorem commandsFrom_append (n : Nat) (rs rs' : List Record) :
    commandsFrom n (rs ++ rs') = commandsFrom n rs ++ commandsFrom (n + rs.length) rs' := by
  rw [commandsFrom, List.zipIdx_append, List.map_append]
  rfl

end Record

inductive LineKind where
  | blank
  | record (r : Record)
  | garbled
  deriving DecidableEq

def LineKind.record? : LineKind → Option Record
  | record r => some r
  | blank | garbled => none

namespace Lines

theorem line_induction {P : List UInt8 → Prop} (tail : ∀ t, lineFeed ∉ t → P t)
    (line : ∀ l r, lineFeed ∉ l → P r → P (l ++ lineFeed :: r)) (octets : List UInt8) :
    P octets := by
  induction hn : octets.length using Nat.strongRecOn generalizing octets with
  | ind n ih =>
    by_cases hm : lineFeed ∈ octets
    · obtain ⟨l, r, rfl, hl⟩ := List.eq_append_cons_of_mem hm
      refine line l r hl (ih r.length ?_ r rfl)
      rw [← hn, List.length_append, List.length_cons]
      omega
    · exact tail octets hm

theorem complete_line {l : List UInt8} (h : lineFeed ∉ l) (r : List UInt8) :
    complete (l ++ lineFeed :: r) = l :: complete r := by
  rw [complete, split_line h, complete]

theorem tail_line {l : List UInt8} (h : lineFeed ∉ l) (r : List UInt8) :
    tail (l ++ lineFeed :: r) = tail r := by
  rw [tail, split_line h, tail]

theorem split_append {octets : List UInt8} (h : tail octets = []) (rest : List UInt8) :
    complete (octets ++ rest) = complete octets ++ complete rest ∧
      tail (octets ++ rest) = tail rest := by
  induction octets using line_induction with
  | tail t ht =>
    rw [tail, split_tail ht] at h
    cases h
    exact ⟨rfl, rfl⟩
  | line l r hl ih =>
    rw [tail_line hl] at h
    obtain ⟨hc, ht⟩ := ih h
    rw [List.append_assoc, List.cons_append, complete_line hl, tail_line hl, complete_line hl, hc]
    exact ⟨rfl, ht⟩

theorem exists_front (octets : List UInt8) :
    ∃ front, octets = front ++ tail octets ∧ tail front = [] ∧
      complete front = complete octets := by
  induction octets using line_induction with
  | tail t ht =>
    rw [tail, complete, split_tail ht]
    exact ⟨[], rfl, rfl, rfl⟩
  | line l r hl ih =>
    obtain ⟨front, hf, ht, hc⟩ := ih
    refine ⟨l ++ lineFeed :: front, ?_, ?_, ?_⟩
    · rw [tail_line hl, List.append_assoc, List.cons_append, ← hf]
    · rw [tail_line hl, ht]
    · rw [complete_line hl, complete_line hl, hc]

def front (octets : List UInt8) : List UInt8 :=
  octets.take (completeLength octets)

theorem front_spec (octets : List UInt8) :
    octets = front octets ++ tail octets ∧ (front octets).length = completeLength octets ∧
      tail (front octets) = [] ∧ complete (front octets) = complete octets := by
  obtain ⟨f, hf, ht, hc⟩ := exists_front octets
  have hlength : completeLength octets = f.length := by
    have hl := congrArg List.length hf
    rw [List.length_append] at hl
    rw [completeLength, hl, Nat.add_sub_cancel]
  have hfront : front octets = f := by
    rw [front, hlength, hf, List.take_left]
  rw [hfront]
  exact ⟨hf, hlength.symm, ht, hc⟩

def kind (line : List UInt8) : LineKind :=
  match Text.Utf8.decode line with
  | .error _ => .garbled
  | .ok cs =>
    if Text.isBlankText cs then .blank
    else match Record.ofLine? cs with
      | some r => .record r
      | none => .garbled

def Legible (lines : List (List UInt8)) : Prop :=
  ∀ line ∈ lines, kind line ≠ .garbled

instance (lines : List (List UInt8)) : Decidable (Legible lines) :=
  inferInstanceAs (Decidable (∀ line ∈ lines, kind line ≠ .garbled))

def records (lines : List (List UInt8)) : List Record :=
  lines.filterMap fun line => (kind line).record?

def fault (offset : Nat) (line : List UInt8) : RecordFault :=
  match Text.Utf8.decode line with
  | .error fault => .notUtf8 offset fault
  | .ok _ => .malformed offset

@[simp]
theorem offset_fault (n : Nat) (line : List UInt8) : (fault n line).offset = n := by
  unfold fault
  split <;> rfl

theorem fault_add (n k : Nat) (line : List UInt8) :
    fault (n + k) line = (fault n line).later k := by
  unfold fault
  split <;> rfl

theorem readFrom_cons (n : Nat) (line : List UInt8) (lines : List (List UInt8)) :
    readFrom n (line :: lines) = match kind line with
      | .blank => readFrom n lines
      | .record r =>
        ((readFrom (n + 1) lines).1.map (r.command n :: ·), (readFrom (n + 1) lines).2)
      | .garbled => (.error (.serialization (fault n line)), n) := by
  rw [readFrom, kind, fault]
  cases Text.Utf8.decode line with
  | error f => rfl
  | ok cs =>
    cases hb : Text.isBlankText cs with
    | true => simp only [hb, if_true]
    | false =>
      simp only [hb, Bool.false_eq_true, if_false, Record.decode]
      cases Record.ofLine? cs <;> rfl

def later (k : Nat) : Except Error (List Command) → Except Error (List Command)
  | .ok cs => .ok (cs.map (Command.later k))
  | .error e => .error (e.later k)

theorem readFrom_add (n k : Nat) (lines : List (List UInt8)) :
    readFrom (n + k) lines = (later k (readFrom n lines).1, (readFrom n lines).2 + k) := by
  induction lines generalizing n with
  | nil => rfl
  | cons line lines ih =>
    rw [readFrom_cons, readFrom_cons]
    cases kind line with
    | blank => exact ih n
    | garbled => rw [fault_add]; rfl
    | record r =>
      simp only [Nat.add_right_comm n k 1, ih]
      cases (readFrom (n + 1) lines).1 <;> rfl

theorem records_cons (line : List UInt8) (lines : List (List UInt8)) :
    records (line :: lines) = match kind line with
      | .record r => r :: records lines
      | .blank | .garbled => records lines := by
  rw [records, List.filterMap_cons]
  cases kind line <;> rfl

theorem records_append (lines lines' : List (List UInt8)) :
    records (lines ++ lines') = records lines ++ records lines' :=
  List.filterMap_append

variable {lines : List (List UInt8)}

theorem Legible.tail {line : List UInt8} (h : Legible (line :: lines)) : Legible lines :=
  fun l hl => h l (List.mem_cons_of_mem _ hl)

theorem readFrom_append (h : Legible lines) (lines' : List (List UInt8)) (n : Nat) :
    readFrom n (lines ++ lines') =
      let (rest, reached) := readFrom (n + (records lines).length) lines'
      (rest.map (Record.commandsFrom n (records lines) ++ ·), reached) := by
  induction lines generalizing n with
  | nil => cases hr : readFrom n lines' with
    | mk rest reached => cases rest <;> simp [records, Record.commandsFrom, hr, Except.map]
  | cons line lines ih =>
    rw [List.cons_append, readFrom_cons, records_cons]
    cases hk : kind line with
    | garbled => exact absurd hk (h line List.mem_cons_self)
    | blank => exact ih h.tail n
    | record r =>
      -- the rest starts one further, whether that is counted in front of it or in its records
      simp only [ih h.tail, List.length_cons, Nat.add_assoc, Nat.add_comm 1]
      cases (readFrom (n + ((records lines).length + 1)) lines').1 <;> rfl

theorem readFrom_legible (h : Legible lines) (n : Nat) :
    readFrom n lines =
      (.ok (Record.commandsFrom n (records lines)), n + (records lines).length) := by
  have happend := readFrom_append h [] n
  rw [List.append_nil, readFrom] at happend
  rw [happend]
  simp [Except.map]

def legible (lines : List (List UInt8)) : List (List UInt8) :=
  lines.takeWhile fun line => kind line ≠ .garbled

theorem legible_append (h : Legible lines) (lines' : List (List UInt8)) :
    legible (lines ++ lines') = lines ++ legible lines' :=
  List.takeWhile_append_of_pos fun line hl => decide_eq_true (h line hl)

theorem legible_legible (lines : List (List UInt8)) : Legible (legible lines) :=
  fun _ hl => of_decide_eq_true
    (List.mem_takeWhile_imp (p := fun line => decide (kind line ≠ .garbled)) hl)

theorem legible_or (lines : List (List UInt8)) :
    Legible lines ∨ ∃ line rest, lines = legible lines ++ line :: rest ∧ kind line = .garbled := by
  induction lines with
  | nil => exact .inl fun _ h => absurd h List.not_mem_nil
  | cons line lines ih =>
    by_cases hk : kind line = .garbled
    · refine .inr ⟨line, lines, ?_, hk⟩
      simp [legible, hk]
    · have hline : Legible [line] := fun l hl => List.mem_singleton.1 hl ▸ hk
      have hl : legible (line :: lines) = line :: legible lines := legible_append hline lines
      rcases ih with h | ⟨bad, rest, h, hbad⟩
      · exact .inl fun l hm => (List.mem_cons.1 hm).elim (· ▸ hk) (h l)
      · refine .inr ⟨bad, rest, ?_, hbad⟩
        rw [hl, List.cons_append, ← h]

theorem readFrom_cases (n : Nat) (lines : List (List UInt8)) :
    Legible lines ∧ readFrom n lines =
        (.ok (Record.commandsFrom n (records lines)), n + (records lines).length) ∨
      ∃ line rest, lines = legible lines ++ line :: rest ∧ kind line = .garbled ∧
        readFrom n lines = (.error (.serialization
          (fault (n + (records (legible lines)).length) line)),
            n + (records (legible lines)).length) := by
  rcases legible_or lines with h | ⟨line, rest, h, hk⟩
  · exact .inl ⟨h, readFrom_legible h n⟩
  · refine .inr ⟨line, rest, h, hk, ?_⟩
    have happend := readFrom_append (legible_legible lines) (line :: rest) n
    rw [← h, readFrom_cons, hk] at happend
    exact happend

def stored (content : List UInt8) : List Record :=
  records (complete content)

theorem stored_append {octets : List UInt8} (h : tail octets = []) (rest : List UInt8) :
    stored (octets ++ rest) = stored octets ++ stored rest := by
  rw [stored, (split_append h rest).1, records_append, stored, stored]

theorem stored_front (octets : List UInt8) : stored (front octets) = stored octets := by
  rw [stored, (front_spec octets).2.2.2, stored]

end Lines

/-- The client stands behind a line of the file, and has counted the records up to there. -/
structure FileClient.Stands (c : FileClient) (content : List UInt8) : Prop where
  tail : Lines.tail (content.take c.octets) = []
  offset : c.offset = (Lines.stored (content.take c.octets)).length

def FileClient.through (c : FileClient) (content : List UInt8) : FileClient :=
  { c with
    octets := c.octets + Lines.completeLength (content.drop c.octets)
    offset := (Lines.stored content).length
    position := (Lines.stored content).length }

namespace FileClient.Stands

variable {c : FileClient} {content : List UInt8}

theorem stored_eq (h : c.Stands content) :
    Lines.stored content =
      Lines.stored (content.take c.octets) ++ Lines.stored (content.drop c.octets) := by
  rw [← Lines.stored_append h.tail, List.take_append_drop]

theorem drop_commandsFrom (h : c.Stands content) :
    (Record.commandsFrom 0 (Lines.stored content)).drop c.offset =
      Record.commandsFrom c.offset (Lines.stored (content.drop c.octets)) := by
  rw [h.stored_eq, Record.commandsFrom_append, Nat.zero_add, ← h.offset]
  exact List.drop_left' (h.offset ▸ Record.length_commandsFrom 0 _)

theorem through (h : c.Stands content) : (c.through content).Stands content := by
  obtain ⟨-, hlength, ht, -⟩ := Lines.front_spec (content.drop c.octets)
  have htake : content.take (c.through content).octets =
      content.take c.octets ++ Lines.front (content.drop c.octets) :=
    List.take_add
  refine ⟨?_, ?_⟩
  · rw [htake, (Lines.split_append h.tail _).2, ht]
  · rw [htake, Lines.stored_append h.tail, Lines.stored_front, ← h.stored_eq]
    rfl

theorem read {d : Disk} (h : c.Stands content)
    (hc : d.entries.content? (d.handleOf c).place = .ok (some content))
    (hl : Lines.Legible (Lines.complete (content.drop c.octets))) :
    d.read c =
      (.ok ((Record.commandsFrom 0 (Lines.stored content)).drop c.offset), c.through content) := by
  have hlength : c.offset + (Lines.records (Lines.complete (content.drop c.octets))).length =
      (Lines.stored content).length := by
    rw [h.stored_eq, List.length_append, ← h.offset, Lines.stored]
  rw [h.drop_commandsFrom, Disk.read, hc]
  simp only [Option.getD_some, Lines.readFrom_legible hl, hlength]
  rfl

end FileClient.Stands

end StatementLog
