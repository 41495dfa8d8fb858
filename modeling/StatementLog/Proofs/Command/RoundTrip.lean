import StatementLog.Command.Record
import StatementLog.Proofs.Json.RoundTrip

namespace StatementLog

namespace CommandId

theorem cutFirst_append {a : List Char} (h : '/' ∉ a) (b : List Char) :
    cutFirst (a ++ '/' :: b) = some (a, b) := by
  induction a with
  | nil => rfl
  | cons c a ih =>
    have hc : c ≠ '/' := fun hc => h (hc ▸ List.mem_cons_self ..)
    have ih := ih fun ha => h (List.mem_cons_of_mem _ ha)
    rw [List.cons_append, cutFirst]
    · rw [ih]
      rfl
    · exact hc

theorem cutLast_append {b : List Char} (h : '/' ∉ b) (a : List Char) :
    cutLast (a ++ '/' :: b) = some (a, b) := by
  have hr : (a ++ '/' :: b).reverse = b.reverse ++ '/' :: a.reverse := by simp
  rw [cutLast, hr, cutFirst_append (by simpa using h)]
  simp

theorem kind_read (k : EntityKind) :
    '/' ∉ k.name.toList ∧ EntityKind.read k.name.toList = .ok k := by
  cases k <;> exact ⟨by decide, by decide⟩

theorem action_read (a : Action) : '/' ∉ a.name.toList ∧ Action.read a.name.toList = .ok a := by
  cases a <;> exact ⟨by decide, by decide⟩

theorem read_text (id : CommandId) :
    read id.text = if id.entity = "" then .error (.emptyEntity id.text) else .ok id := by
  obtain ⟨hk, hkind⟩ := kind_read id.kind
  obtain ⟨ha, haction⟩ := action_read id.action
  have ht : id.text.toList =
      id.kind.name.toList ++ '/' :: (id.entity.toList ++ '/' :: id.action.name.toList) := by
    simp [text]
  have hs : String.ofList id.text.toList = id.text := String.ofList_toList
  rw [read, readChars]
  simp only [hs]
  rw [ht, cutFirst_append hk]
  simp only [cutLast_append ha, hkind, haction, String.ofList_toList]
  by_cases he : id.entity = ""
  · simp [he]
  · simp [he, bind, Except.bind, pure, Except.pure]

end CommandId

theorem Properties.ofList_toList (p : Properties) : Properties.ofList p.toList = p := by
  refine Std.ExtTreeMap.ext_getElem? fun k => ?_
  cases h : p[k]? with
  | some v =>
    exact Std.ExtTreeMap.getElem?_ofList_of_mem (Std.ReflCmp.compare_self)
      Std.ExtTreeMap.distinct_keys_toList (Std.ExtTreeMap.mem_toList_iff_getElem?_eq_some.2 h)
  | none =>
    refine Std.ExtTreeMap.getElem?_ofList_of_contains_eq_false ?_
    rw [List.contains_eq_mem, decide_eq_false_iff_not]
    intro hk
    obtain ⟨⟨_, v⟩, hv, rfl⟩ := List.mem_map.1 hk
    rw [Std.ExtTreeMap.mem_toList_iff_getElem?_eq_some.1 hv] at h
    cases h

namespace Json

theorem plain_members {ms : List (Option String × Json)}
    (h : ∀ m ∈ ms, m.1.isSome ∧ m.2.Plain) : PlainMembers ms := by
  induction ms with
  | nil => trivial
  | cons m ms ih =>
    have hm := h m (List.mem_cons_self ..)
    exact ⟨hm.1, hm.2, ih fun m' hm' => h m' (List.mem_cons_of_mem _ hm')⟩

theorem ofProperties_plain (p : Properties) : (ofProperties p).Plain := by
  refine plain_members fun m hm => ?_
  obtain ⟨⟨k, v⟩, -, rfl⟩ := List.mem_map.1 hm
  exact ⟨rfl, rfl⟩

theorem mapM_entry? (l : List (String × String)) :
    (l.map fun (k, v) => (some k, Json.text (some v))).mapM entry? = some l := by
  induction l with
  | nil => rfl
  | cons e l ih =>
    rw [List.map_cons, List.mapM_cons, ih]
    rfl

theorem asProperties?_ofProperties (p : Properties) : asProperties? (ofProperties p) = some p := by
  rw [ofProperties, asProperties?, mapM_entry?, Option.map_some, Properties.ofList_toList]

end Json

namespace Payload

theorem toJson_plain (p : Payload) : p.toJson.Plain :=
  ⟨rfl, rfl, rfl, Json.ofProperties_plain _, rfl, Json.ofProperties_plain _, trivial⟩

theorem ofJson?_toJson (p : Payload) : ofJson? p.toJson = some p := by
  have hf : Json.fields? ["statementText", "configOverrides", "originalProperties"] p.toJson =
      some [some (.text (some p.statement)), some (Json.ofProperties p.overrides),
        some (Json.ofProperties p.properties)] := by
    rfl
  rw [ofJson?, hf]
  simp only [Option.bind_eq_bind, Option.bind_some, Json.required, Json.orDefault, Json.asText?,
    Json.asProperties?_ofProperties]
  rfl

end Payload

namespace Numeral

theorem int64?_ofInt (i : Int) : (ofInt i).int64? =
    if -0x8000000000000000 ≤ i ∧ i < 0x8000000000000000 then some i else none := by
  rw [int64?, ofInt]
  by_cases hi : i < 0
  · by_cases hl : -0x8000000000000000 ≤ i
    · have hw : 0 < i.natAbs ∧ i.natAbs ≤ 0x8000000000000000 := by omega
      have he : -(i.natAbs : Int) = i := by omega
      have hr : i < 0x8000000000000000 := by omega
      simp only [he]
      simp [hi, hl, hw, hr]
    · have hw : ¬ i.natAbs ≤ 0x8000000000000000 := by omega
      simp [hi, hl, hw]
  · have hl : -0x8000000000000000 ≤ i := by omega
    by_cases hr : i < 0x8000000000000000
    · have hw : i.natAbs < 0x8000000000000000 := by omega
      have he : (i.natAbs : Int) = i := by omega
      simp [hi, hl, hw, he, hr]
    · have hw : ¬ i.natAbs < 0x8000000000000000 := by omega
      simp [hi, hr, hw]

end Numeral

namespace Record

def Readable (r : Record) : Prop :=
  r.id.entity ≠ "" ∧ -0x8000000000000000 ≤ r.stamp ∧ r.stamp < 0x8000000000000000

instance (r : Record) : Decidable r.Readable :=
  inferInstanceAs (Decidable (_ ∧ _ ∧ _))

theorem toJson_plain (r : Record) : r.toJson.Plain :=
  ⟨rfl, rfl, rfl, r.payload.toJson_plain, rfl, rfl, trivial⟩

theorem ofLine?_line (r : Record) : ofLine? r.line = if r.Readable then some r else none := by
  have hf : Json.fields? ["key", "value", "ts_unix_ms"] r.toJson =
      some [some (.text (some r.id.text)), some r.payload.toJson,
        some (.number (.ofInt r.stamp))] := by
    rfl
  have hid : idOfJson? (.text (some r.id.text)) = if r.id.entity = "" then none else some r.id := by
    rw [idOfJson?]
    simp only [Json.asText?, Option.bind_eq_bind, Option.bind_some, CommandId.read_text]
    split <;> rfl
  rw [ofLine?, line, Json.readChars_write r.toJson_plain, Option.bind_some, ofJson?, hf]
  simp only [Option.bind_eq_bind, Option.bind_some, Json.required, hid, Payload.ofJson?_toJson,
    Json.asInt64?, Numeral.int64?_ofInt, Readable]
  by_cases he : r.id.entity = ""
  · simp [he]
  · by_cases hs : -0x8000000000000000 ≤ r.stamp ∧ r.stamp < 0x8000000000000000
    · simp [he, hs]
    · simp [he, hs]

theorem decode_line {r : Record} {n : Nat} {c : Command} (h : decode r.line n = .ok c) :
    c = r.command n := by
  rw [decode, ofLine?_line] at h
  split at h
  · next r' hr =>
    split at hr
    · cases hr
      cases h
      rfl
    · cases hr
  · cases h

theorem decode_readable {r : Record} (h : r.Readable) (n : Nat) :
    decode r.line n = .ok (r.command n) := by
  rw [decode, ofLine?_line, if_pos h]

end Record

end StatementLog
