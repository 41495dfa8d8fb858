import StatementLog.Proofs.Log.Octets

namespace StatementLog

namespace CommandId

theorem entity_of_read {s : String} {id : CommandId} (h : read s = .ok id) : id.entity ≠ "" := by
  rw [read, readChars] at h
  split at h
  · cases h
  split at h
  · cases h
  next entity action _ =>
  split at h
  · cases h
  next hentity =>
  cases hkind : EntityKind.read _ with
  | error e =>
    rw [hkind] at h
    cases h
  | ok kind =>
    cases haction : Action.read action with
    | error e =>
      rw [hkind, haction] at h
      cases h
    | ok action =>
      rw [hkind, haction] at h
      cases h
      simpa [String.ofList_eq_empty_iff] using hentity

end CommandId

namespace Numeral

theorem int64?_range {n : Numeral} {i : Int} (h : n.int64? = some i) :
    -0x8000000000000000 ≤ i ∧ i < 0x8000000000000000 := by
  unfold int64? at h
  split at h
  · cases h
  split at h
  · split at h
    · next hw =>
      cases h
      simp only [Bool.and_eq_true, decide_eq_true_eq] at hw
      omega
    · cases h
  · split at h
    · cases h
      omega
    · cases h

end Numeral

namespace Record

theorem octets_printable (r : Record) : ∀ b ∈ r.octets, 0x20 ≤ b.toNat := by
  intro b hb
  rcases Nat.lt_or_ge b.toNat 0x80 with hl | hl
  · obtain ⟨c, hc, hn⟩ := Text.Utf8.mem_encode hb hl
    exact hn ▸ Json.write_printable r.toJson c hc
  · omega

theorem readable_of_ofJson? {j : Json} {r : Record} (h : ofJson? j = some r) : r.Readable := by
  unfold ofJson? at h
  obtain ⟨fields, -, h⟩ := Option.bind_eq_some_iff.1 h
  split at h
  · next id payload stamp =>
    obtain ⟨id', hid, h⟩ := Option.bind_eq_some_iff.1 h
    obtain ⟨payload', -, h⟩ := Option.bind_eq_some_iff.1 h
    obtain ⟨stamp', hstamp, h⟩ := Option.bind_eq_some_iff.1 h
    cases h
    refine ⟨?_, ?_⟩
    · cases id with
      | none => cases hid
      | some j =>
        obtain ⟨text, -, hid⟩ := Option.bind_eq_some_iff.1 hid
        cases hread : CommandId.read text with
        | error e =>
          rw [hread] at hid
          cases hid
        | ok id =>
          rw [hread] at hid
          cases hid
          exact CommandId.entity_of_read hread
    · cases stamp with
      | none => cases hstamp
      | some j =>
        cases j with
        | number n => exact Numeral.int64?_range hstamp
        | _ => cases hstamp
  · cases h

theorem readable_of_ofLine? {cs : List Char} {r : Record} (h : ofLine? cs = some r) :
    r.Readable := by
  obtain ⟨j, -, h⟩ := Option.bind_eq_some_iff.1 h
  exact readable_of_ofJson? h

theorem readable_of_int64 {id : CommandId} (h : id.entity ≠ "") (payload : Payload)
    (stamp : Int64) : Readable ⟨id, payload, stamp.toInt⟩ :=
  ⟨h, stamp.le_toInt, stamp.toInt_lt⟩

theorem entity_of_decode {cs : List Char} {n : Nat} {c : Command} (h : decode cs n = .ok c) :
    c.id.entity ≠ "" ∧ c.offset = n := by
  unfold decode at h
  split at h
  next r hr =>
    cases h
    exact ⟨(readable_of_ofLine? hr).1, rfl⟩
  · cases h

/-- The octets of the record are one line, without control characters, that is neither passed over
as blank nor read as anything else. -/
structure Travels (r : Record) : Prop where
  printable : ∀ b ∈ r.octets, 0x20 ≤ b.toNat
  single : Lines.complete (r.octets ++ [Lines.lineFeed]) = [r.octets]
  counted : Lines.isRecord r.octets = true
  text : Text.Utf8.decode r.octets = .ok r.line
  not_blank : Text.isBlankText r.line = false
  decoded (n : Nat) : decode r.line n = .ok (r.command n)

theorem Readable.travels {r : Record} (h : r.Readable) : r.Travels where
  printable := r.octets_printable
  single := by
    rw [Lines.complete, Lines.split_line r.lineFeed_not_mem_octets]
    rfl
  counted := r.octets_isRecord
  text := r.decode_octets
  not_blank := r.line_not_blank
  decoded := decode_readable h

/-- Every command that has an entity travels as one line, whatever characters are in its texts, and
a command that has been read from any line can be written again and read as the same. -/
theorem written_and_rewritten :
    (∀ (id : CommandId) (payload : Payload) (stamp : Int64), id.entity ≠ "" →
      Travels ⟨id, payload, stamp.toInt⟩) ∧
    ∀ (cs : List Char) (n : Nat) (c : Command), decode cs n = .ok c → ∀ stamp : Int64,
      Travels ⟨c.id, c.payload, stamp.toInt⟩ ∧
        decode (line ⟨c.id, c.payload, stamp.toInt⟩) n = .ok c := by
  refine ⟨fun id payload stamp h => (readable_of_int64 h payload stamp).travels, ?_⟩
  intro cs n c hc stamp
  obtain ⟨hentity, rfl⟩ := entity_of_decode hc
  have h := (readable_of_int64 hentity c.payload stamp).travels
  exact ⟨h, h.decoded c.offset⟩

def oddLine : List Char :=
  ("[\"Topic/a/b/CREATE\", [\"\\u0041\", \x7b\"k\":\"1\",\"k\":\"2\"\x7d], 7]").toList

def oddCommand : Command :=
  ⟨⟨.topic, "a/b", .create⟩, { statement := "A", overrides := .ofList [("k", "2")] }, 3⟩

theorem written_and_rewritten_odd :
    Travels ⟨⟨.stream, "a/\"\n", .drop⟩, { statement := "\\é", overrides := .ofList [("\t", "")] },
      -1⟩ ∧
    decode oddLine 3 = .ok oddCommand ∧
      decode (line ⟨oddCommand.id, oddCommand.payload, 0⟩) 3 = .ok oddCommand := by
  have hc : decode oddLine 3 = .ok oddCommand := by decide +kernel
  exact ⟨written_and_rewritten.1 _ _ (-1) (by decide), hc,
    (written_and_rewritten.2 _ _ _ hc 0).2⟩

end Record

end StatementLog
