import StatementLog.Proofs.Log.Refinement

namespace StatementLog

/-- As long as a log serves its clients with the records, they come by every one of them. Without a
look of their own they depend on the epoch, which tells of each announcement. -/
structure Service {μ κ : Type} [CommandLog μ κ] (serves : List Record → μ → κ → Prop)
    (look : Option Nat) : Prop where
  patience (m : μ) (k : κ) : CommandLog.patience m k = look
  check {rs : List Record} {m : μ} {k : κ} : serves rs m k → CommandLog.check m k = .ok ()
  position_le {rs : List Record} {m : μ} {k : κ} :
    serves rs m k → CommandLog.position μ k ≤ rs.length
  append {rs : List Record} {m : μ} {k : κ} {r : Record} : serves rs m k → r.Readable →
    ∃ m', CommandLog.append m k r = (.ok rs.length, m') ∧
      (∀ k', serves rs m k' → serves (rs ++ [r]) m' k') ∧
      (look = none → ∀ k', CommandLog.epoch m' k' = CommandLog.epoch m k')
  announce {rs : List Record} {m : μ} {k : κ} : serves rs m k →
    (∀ k', serves rs m k' → serves rs (CommandLog.announce m k) k') ∧
      (look = none →
        ∀ k', CommandLog.epoch (CommandLog.announce m k) k' = CommandLog.epoch m k' + 1)
  read {rs : List Record} {m : μ} {k : κ} : serves rs m k →
    ∃ k', CommandLog.read m k = (.ok (Record.commandsFrom (CommandLog.position μ k)
        (rs.drop (CommandLog.position μ k))), k') ∧
      serves rs m k' ∧ CommandLog.position μ k' = rs.length ∧
      ∀ m' : μ, CommandLog.epoch m' k' = CommandLog.epoch m' k
  endPosition {rs : List Record} {m : μ} {k : κ} : serves rs m k →
    ∃ m', CommandLog.endPosition m k = (.ok rs.length, m') ∧
      (∀ k', serves rs m k' → serves rs m' k') ∧
      (look = none → ∀ k', CommandLog.epoch m' k' = CommandLog.epoch m k')
  rewind {rs : List Record} {m : μ} {k : κ} : serves rs m k →
    serves rs m (CommandLog.rewind μ k)

namespace Tape

structure Serves (rs : List Record) (t : Tape) (k : TapeClient) : Prop where
  lines : t.lines = rs.map Record.line
  readable : ∀ r ∈ rs, r.Readable
  available : t.available = true
  opened : k.closed = false
  cursor : k.cursor ≤ rs.length

theorem Serves.check {rs : List Record} {t : Tape} {k : TapeClient} (h : Serves rs t k) :
    t.check k = .ok () := by
  rw [Tape.check, h.opened, h.available]
  rfl

theorem service : Service Serves none where
  patience _ _ := rfl
  check h := h.check
  position_le h := h.cursor
  append {rs t k r} h hr := by
    refine ⟨{ t with lines := t.lines ++ [r.line] }, ?_, fun k' h' => ?_, fun _ _ => rfl⟩
    · simp only [CommandLog.append, append, h.check, h.lines, List.length_map]
    · refine ⟨?_, ?_, h'.available, h'.opened, ?_⟩
      · rw [h.lines, List.map_append]
        rfl
      · intro r' hr'
        rcases List.mem_append.1 hr' with hr' | hr'
        · exact h.readable r' hr'
        · exact List.mem_singleton.1 hr' ▸ hr
      · rw [List.length_append]
        exact Nat.le_add_right_of_le h'.cursor
  announce _ := ⟨fun _ h' => ⟨h'.lines, h'.readable, h'.available, h'.opened, h'.cursor⟩,
    fun _ _ => rfl⟩
  read {rs t k} h := by
    have hlen : k.cursor + (Record.commandsFrom k.cursor (rs.drop k.cursor)).length =
        rs.length := by
      rw [Record.length_commandsFrom, List.length_drop, Nat.add_sub_cancel' h.cursor]
    refine ⟨{ k with cursor := rs.length }, ?_,
      ⟨h.lines, h.readable, h.available, h.opened, Nat.le_refl _⟩, rfl, fun _ => rfl⟩
    rw [← hlen]
    exact read_lines h.lines h.readable k
  endPosition {rs t k} h := by
    refine ⟨t, ?_, fun _ => id, fun _ _ => rfl⟩
    simp only [CommandLog.endPosition, endPosition, h.check, h.lines, List.length_map]
  rewind h := ⟨h.lines, h.readable, h.available, h.opened, Nat.zero_le _⟩

end Tape

namespace Disk

variable {path : String} {place lock : Place} {rs : List Record} {d : Disk} {c : FileClient}

structure Serves (path : String) (place lock : Place) (rs : List Record) (d : Disk)
    (c : FileClient) : Prop where
  stores : d.Stores path place lock rs
  readable : ∀ r ∈ rs, r.Readable
  opened : d.Opened path place lock c rs
  paired : Paired rs c ⟨c.position, false⟩

theorem Serves.append (h : Serves path place lock rs d c) {r : Record} (hr : r.Readable)
    {d' : Disk} (hs : d'.Stores path place lock (rs ++ [r]))
    (ho : d'.Opened path place lock c (rs ++ [r])) :
    Serves path place lock (rs ++ [r]) d' c := by
  refine ⟨hs, fun r' hr' => ?_, ho, h.paired.append [r]⟩
  rcases List.mem_append.1 hr' with hr' | hr'
  · exact h.readable r' hr'
  · exact List.mem_singleton.1 hr' ▸ hr

theorem service (path : String) (place lock : Place) :
    Service (Serves path place lock) (some lookInterval) where
  patience _ _ := rfl
  check h := check_open _ h.paired.closed
  position_le h := h.paired.cursor
  append {rs d c r} h hr := by
    obtain ⟨d', happ, hs, ho⟩ := append_open h.stores h.opened h.paired.closed r
    exact ⟨d', happ, fun c' h' => h'.append hr hs (ho c' h'.opened), fun hn => by cases hn⟩
  announce {rs d c} h := by
    obtain ⟨hs, ho⟩ := announce_open h.stores h.opened
    exact ⟨fun c' h' => ⟨hs, h'.readable, ho c' h'.opened, h'.paired⟩, fun hn => by cases hn⟩
  read {rs d c} h := by
    have hread := read_open h.stores h.opened h.readable h.paired.cursor h.paired.offset
      h.paired.octets
    refine ⟨_, hread, ⟨h.stores, h.readable, h.opened, h.paired.closed, Nat.le_refl _, ?_, rfl,
      rfl⟩, rfl, fun _ => rfl⟩
    rw [List.take_length]
  endPosition {rs d c} h := by
    obtain ⟨d', hend, hs, ho⟩ := endPosition_open h.stores h.opened h.paired.closed
    exact ⟨d', hend, fun c' h' => ⟨hs, h'.readable, ho c' h'.opened, h'.paired⟩,
      fun hn => by cases hn⟩
  rewind {rs d c} h :=
    ⟨h.stores, h.readable, h.opened, h.paired.closed, Nat.zero_le _, rfl, rfl, rfl⟩

end Disk

end StatementLog
