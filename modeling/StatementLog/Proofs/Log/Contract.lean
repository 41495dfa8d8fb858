import StatementLog.Log.Tape

/-!
What a log promises to its clients. Its commands stand at the offsets from zero on; a read gives
those from the cursor on without a gap, and the log only grows.
-/

namespace StatementLog

def Segment (view : Nat → Option Command) : Nat → List Command → Prop
  | _, [] => True
  | n, c :: cs => view n = some c ∧ Segment view (n + 1) cs

namespace Segment

variable {view view' : Nat → Option Command}

theorem append {n : Nat} {cs ds : List Command} :
    Segment view n (cs ++ ds) ↔ Segment view n cs ∧ Segment view (n + cs.length) ds := by
  induction cs generalizing n with
  | nil => simp [Segment]
  | cons c cs ih =>
    have he : n + 1 + cs.length = n + (cs.length + 1) := by omega
    simp only [List.cons_append, Segment, ih, List.length_cons, he, and_assoc]

theorem mono (h : ∀ n c, view n = some c → view' n = some c) {n : Nat} {cs : List Command}
    (hs : Segment view n cs) : Segment view' n cs := by
  induction cs generalizing n with
  | nil => trivial
  | cons c cs ih => exact ⟨h n c hs.1, ih hs.2⟩

theorem le_offset (ho : ∀ n c, view n = some c → c.offset = n) {n : Nat} {cs : List Command}
    (hs : Segment view n cs) : ∀ c ∈ cs, n ≤ c.offset := by
  induction cs generalizing n with
  | nil => simp
  | cons d cs ih =>
    intro c hc
    rcases List.mem_cons.1 hc with rfl | hc
    · exact Nat.le_of_eq (ho n c hs.1).symm
    · exact Nat.le_of_succ_le (ih hs.2 c hc)

theorem mem (ho : ∀ n c, view n = some c → c.offset = n) {n : Nat} {cs : List Command}
    (hs : Segment view n cs) : ∀ c ∈ cs, view c.offset = some c := by
  induction cs generalizing n with
  | nil => simp
  | cons d cs ih =>
    intro c hc
    rcases List.mem_cons.1 hc with rfl | hc
    · rw [ho n c hs.1]; exact hs.1
    · exact ih hs.2 c hc

theorem getElem? {n : Nat} {cs : List Command} (hs : Segment view n cs) {i : Nat}
    (hi : i < cs.length) : view (n + i) = cs[i]? := by
  induction cs generalizing n i with
  | nil => exact absurd hi (Nat.not_lt_zero i)
  | cons c cs ih =>
    cases i with
    | zero => exact hs.1
    | succ i =>
      rw [List.getElem?_cons_succ, ← ih hs.2 (Nat.lt_of_succ_lt_succ hi), Nat.add_right_comm]
      rfl

end Segment

class LawfulLog (μ : Type) {κ : outParam Type} [CommandLog μ κ] where
  size : μ → Nat
  command? : μ → Nat → Option Command
  lt_size {m : μ} {n : Nat} {c : Command} : command? m n = some c → n < size m
  offset_eq {m : μ} {n : Nat} {c : Command} : command? m n = some c → c.offset = n
  read_ok {m : μ} {k k' : κ} {cs : List Command} :
    CommandLog.read m k = (.ok cs, k') →
      CommandLog.position μ k' = CommandLog.position μ k + cs.length ∧
        Segment (command? m) (CommandLog.position μ k) cs
  position_rewind (k : κ) : CommandLog.position μ (CommandLog.rewind μ k) = 0
  endPosition_ok {m m' : μ} {k : κ} {n : Nat} :
    CommandLog.endPosition m k = (.ok n, m') → n = size m
  size_endPosition (m : μ) (k : κ) : size (CommandLog.endPosition m k).2 = size m
  command?_endPosition (m : μ) (k : κ) (n : Nat) :
    command? (CommandLog.endPosition m k).2 n = command? m n
  endPosition_of_check {m : μ} {k : κ} :
    CommandLog.check m k = .ok () → (CommandLog.endPosition m k).1 = .ok (size m)
  read_of_check {m : μ} {k : κ} :
    CommandLog.check m k = .ok () →
      (∀ n, CommandLog.position μ k ≤ n → n < size m → (command? m n).isSome) →
        CommandLog.position μ k < size m →
          ∃ c cs k', CommandLog.read m k = (.ok (c :: cs), k')
  check_endPosition (m : μ) (k k' : κ) :
    CommandLog.check (CommandLog.endPosition m k).2 k' = CommandLog.check m k'
  check_rewind (m : μ) (k : κ) :
    CommandLog.check m (CommandLog.rewind μ k) = CommandLog.check m k
  check_read (m : μ) (k : κ) :
    CommandLog.check m (CommandLog.read m k).2 = CommandLog.check m k

export LawfulLog (command?)

section

variable {μ κ : Type} [CommandLog μ κ] [LawfulLog μ]

/-- The later state of a log: nothing written before is lost, and offsets stay in a word. -/
structure Grows (m m' : μ) : Prop where
  size_le : LawfulLog.size m ≤ LawfulLog.size m'
  kept {n : Nat} : n < LawfulLog.size m → command? m' n = command? m n
  bounded : LawfulLog.size m' ≤ Word.max

theorem Grows.command? {m m' : μ} (h : Grows m m') {n : Nat} {c : Command}
    (hc : command? m n = some c) : StatementLog.command? m' n = some c := by
  rw [h.kept (LawfulLog.lt_size hc), hc]

end

namespace Tape

def command? (t : Tape) (n : Nat) : Option Command :=
  t.lines[n]?.bind fun l => (Record.decode l n).toOption

theorem decodeFrom_ok {t : Tape} {n : Nat} {ls : List (List Char)} {cs : List Command}
    (hl : t.lines.drop n = ls) (h : decodeFrom n ls = .ok cs) :
    cs.length = ls.length ∧ Segment t.command? n cs := by
  induction ls generalizing n cs with
  | nil =>
    cases h
    exact ⟨rfl, trivial⟩
  | cons l ls ih =>
    have hn : t.lines[n]? = some l := by
      rw [← List.head?_drop, hl]
      rfl
    have hd : t.lines.drop (n + 1) = ls := by rw [← List.tail_drop, hl]; rfl
    simp only [decodeFrom] at h
    cases hc : Record.decode l n with
    | error e => simp [hc, bind, Except.bind] at h
    | ok c =>
      cases hr : decodeFrom (n + 1) ls with
      | error e => simp [hc, hr, bind, Except.bind] at h
      | ok rest =>
        simp only [hc, hr, bind, Except.bind, pure, Except.pure, Except.ok.injEq] at h
        subst h
        obtain ⟨hlen, hseg⟩ := ih hd hr
        exact ⟨by simp [hlen], by simp [command?, hn, hc, Except.toOption], hseg⟩

theorem decodeFrom_readable {t : Tape} {n : Nat} {ls : List (List Char)}
    (hl : t.lines.drop n = ls)
    (h : ∀ i, n ≤ i → i < t.lines.length → (t.command? i).isSome) :
    ∃ cs, decodeFrom n ls = .ok cs := by
  induction ls generalizing n with
  | nil => exact ⟨[], rfl⟩
  | cons l ls ih =>
    have hn : t.lines[n]? = some l := by
      rw [← List.head?_drop, hl]
      rfl
    have hd : t.lines.drop (n + 1) = ls := by rw [← List.tail_drop, hl]; rfl
    obtain ⟨cs, hcs⟩ := ih hd fun i hi => h i (Nat.le_of_succ_le hi)
    have hs := h n (Nat.le_refl n) (List.getElem?_eq_some_iff.1 hn).1
    simp only [command?, hn, Option.bind_some] at hs
    cases hc : Record.decode l n with
    | error e => simp [hc, Except.toOption] at hs
    | ok c => exact ⟨c :: cs, by simp [decodeFrom, hc, hcs, bind, Except.bind, pure, Except.pure]⟩

theorem endPosition_ok {t : Tape} {k : TapeClient} {n : Nat} (h : t.endPosition k = .ok n) :
    n = t.lines.length := by
  unfold endPosition at h
  split at h
  · cases h
  · cases h
    rfl

theorem read_ok {t : Tape} {k k' : TapeClient} {cs : List Command}
    (h : t.read k = (.ok cs, k')) :
    k'.cursor = k.cursor + cs.length ∧ Segment t.command? k.cursor cs := by
  unfold read at h
  split at h
  · cases h
  · next hd =>
    cases h
    exact ⟨rfl, (decodeFrom_ok rfl hd).2⟩

theorem command?_eq_none {t : Tape} {n : Nat} (h : t.lines.length ≤ n) : t.command? n = none := by
  rw [command?, List.getElem?_eq_none h, Option.bind_none]

theorem exists_commands {t : Tape} (h : ∀ n < t.lines.length, (t.command? n).isSome) :
    ∃ cs : List Command, cs.length = t.lines.length ∧ (∀ n, cs[n]? = t.command? n) ∧
      ∀ k : TapeClient, (t.read k).1 = .ok (cs.drop k.cursor) := by
  obtain ⟨cs, hcs⟩ := decodeFrom_readable (t := t) (n := 0) rfl fun n _ hn => h n hn
  obtain ⟨hlen, hseg⟩ := decodeFrom_ok rfl hcs
  have hlen : cs.length = t.lines.length := hlen
  have hget (n : Nat) : cs[n]? = t.command? n := by
    by_cases hn : n < cs.length
    · rw [← hseg.getElem? hn, Nat.zero_add]
    · rw [List.getElem?_eq_none (Nat.le_of_not_lt hn),
        command?_eq_none (hlen ▸ Nat.le_of_not_lt hn)]
  refine ⟨cs, hlen, hget, fun k => ?_⟩
  obtain ⟨batch, hb⟩ := decodeFrom_readable (t := t) (n := k.cursor) rfl fun n _ hn => h n hn
  obtain ⟨hblen, hbseg⟩ := decodeFrom_ok rfl hb
  have hbatch : batch = cs.drop k.cursor := by
    refine List.ext_getElem? fun i => ?_
    rw [List.getElem?_drop, hget]
    by_cases hi : i < batch.length
    · exact (hbseg.getElem? hi).symm
    · rw [List.length_drop] at hblen
      rw [List.getElem?_eq_none (Nat.le_of_not_lt hi), command?_eq_none (by omega)]
  rw [read, hb, hbatch]

theorem closed_read (t : Tape) (k : TapeClient) : (t.read k).2.closed = k.closed := by
  unfold read
  split <;> rfl

theorem command?_decode {t : Tape} {n : Nat} {c : Command} (h : t.command? n = some c) :
    ∃ l, t.lines[n]? = some l ∧ Record.decode l n = .ok c := by
  obtain ⟨l, hl, hc⟩ := Option.bind_eq_some_iff.1 h
  refine ⟨l, hl, ?_⟩
  cases hd : Record.decode l n with
  | error e => simp [hd, Except.toOption] at hc
  | ok d => simpa [hd, Except.toOption] using hc

theorem offset_decode {l : List Char} {n : Nat} {c : Command} (h : Record.decode l n = .ok c) :
    c.offset = n := by
  unfold Record.decode at h
  split at h
  · cases h
    rfl
  · cases h

instance : LawfulLog Tape where
  size t := t.lines.length
  command? := command?
  lt_size h := by
    obtain ⟨l, hl, -⟩ := command?_decode h
    exact (List.getElem?_eq_some_iff.1 hl).1
  offset_eq h := by
    obtain ⟨l, -, hd⟩ := command?_decode h
    exact offset_decode hd
  read_ok := read_ok
  position_rewind _ := rfl
  endPosition_ok h := endPosition_ok (Prod.mk.inj h).1
  size_endPosition _ _ := rfl
  command?_endPosition _ _ _ := rfl
  endPosition_of_check {t k} h := by
    have h : t.check k = .ok () := h
    simp [CommandLog.endPosition, endPosition, h]
  read_of_check {t k} _ hr hp := by
    obtain ⟨cs, hcs⟩ := decodeFrom_readable rfl hr
    have hlen := (decodeFrom_ok rfl hcs).1
    have hp : k.cursor < t.lines.length := hp
    cases cs with
    | nil =>
      simp only [List.length_nil, List.length_drop] at hlen
      exact absurd hp (by omega)
    | cons c cs =>
      have hcs : decodeFrom k.cursor (t.lines.drop k.cursor) = .ok (c :: cs) := hcs
      exact ⟨c, cs, (t.read k).2, by simp [CommandLog.read, read, hcs]⟩
  check_endPosition _ _ _ := rfl
  check_rewind _ _ := rfl
  check_read t k := by
    simp only [CommandLog.check, CommandLog.read, check, closed_read]

theorem grows_append {t : Tape} {ls : List (List Char)}
    (h : (t.lines ++ ls).length ≤ Word.max) : Grows t { t with lines := t.lines ++ ls } where
  size_le := by
    show t.lines.length ≤ (t.lines ++ ls).length
    rw [List.length_append]
    exact Nat.le_add_right ..
  kept {n} hn := by
    have hl : (t.lines ++ ls)[n]? = t.lines[n]? := List.getElem?_append_left hn
    show (t.lines ++ ls)[n]?.bind _ = _
    rw [hl]
    rfl
  bounded := h

end Tape

end StatementLog
