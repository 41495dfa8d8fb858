import StatementLog.Proofs.Engine.Change

namespace StatementLog

open Std

namespace Query

structure Records (q : Query) (command : Command) (id sink : String) (sources : List String) :
    Prop where
  id : q.id = id
  sink : q.sink = sink
  sources : q.sources = sources
  statement : q.statement = command.payload.statement
  overrides : q.overrides = command.payload.overrides

theorem Records.iff_start {p q : Query} {command : Command} {id sink : String}
    {sources : List String} (h : p.Records command id sink sources) :
    q.Records command id sink sources ↔ p.start = q.start := by
  obtain ⟨pid, psink, psources, pstatement, poverrides, pstate⟩ := p
  obtain ⟨rfl, rfl, rfl, rfl, rfl⟩ := h
  constructor
  · rintro ⟨hid, hsink, hsources, hstatement, hoverrides⟩
    simp_all [start]
  · intro h
    simp only [start, mk.injEq] at h
    obtain ⟨hid, hsink, hsources, hstatement, hoverrides, -⟩ := h
    exact ⟨hid.symm, hsink.symm, hsources.symm, hstatement.symm, hoverrides.symm⟩

def Numbered (id : String) (offset : Nat) : Prop :=
  ∃ stem : String, id = stem ++ "_" ++ toString offset

theorem underscore_not_mem (n : Nat) : '_' ∉ Nat.toDigits 10 n := fun h =>
  absurd (Nat.isDigit_of_mem_toDigits (by decide) (by decide) h) (by decide)

theorem Numbered.cut {id : String} {n : Nat} (h : Numbered id n) :
    ∃ stem, id.toList = stem ++ '_' :: Nat.toDigits 10 n := by
  obtain ⟨stem, rfl⟩ := h
  exact ⟨stem.toList, by simp [Nat.toString_eq_repr, Nat.toList_repr]⟩

theorem Numbered.unique {id : String} {m n : Nat} (hm : Numbered id m) (hn : Numbered id n) :
    m = n := by
  obtain ⟨x, hx⟩ := hm.cut
  obtain ⟨y, hy⟩ := hn.cut
  rw [hx, List.append_eq_append_iff] at hy
  -- if one cut comes before the other, the digits behind it hold an underscore
  have hdigits : Nat.toDigits 10 m = Nat.toDigits 10 n := by
    rcases hy with ⟨z, -, hz⟩ | ⟨z, -, hz⟩
    · cases z with
      | nil => exact List.tail_eq_of_cons_eq hz
      | cons a z =>
        have hmem : '_' ∈ Nat.toDigits 10 m := by
          rw [List.tail_eq_of_cons_eq hz]
          simp
        exact absurd hmem (underscore_not_mem m)
    · cases z with
      | nil => exact (List.tail_eq_of_cons_eq hz).symm
      | cons a z =>
        have hmem : '_' ∈ Nat.toDigits 10 n := by
          rw [List.tail_eq_of_cons_eq hz]
          simp
        exact absurd hmem (underscore_not_mem n)
  calc
    m = Nat.ofDigitChars 10 (Nat.toDigits 10 m) 0 := Nat.ofDigitChars_ten_toDigits.symm
    _ = Nat.ofDigitChars 10 (Nat.toDigits 10 n) 0 := by rw [hdigits]
    _ = n := Nat.ofDigitChars_ten_toDigits

end Query

namespace Catalog

theorem numbered_selectQueryId (kind : SourceKind) (name : String) (offset : Nat) :
    Query.Numbered (selectQueryId kind name offset) offset := by
  cases kind with
  | stream => exact ⟨"CSAS_" ++ name.map Char.toUpper, rfl⟩
  | table => exact ⟨"CTAS_" ++ name.map Char.toUpper, rfl⟩

theorem numbered_insertQueryId (offset : Nat) : Query.Numbered (insertQueryId offset) offset :=
  ⟨"INSERTQUERY", rfl⟩

end Catalog

namespace Statement

/-- The query is the one that the statement of the command asks for. -/
inductive Asks (command : Command) : Statement → Query → Prop where
  | createAsSelect {kind : SourceKind} {sink : String} {sources : List String}
      {ifNotExists : Bool} {q : Query} :
      q.Records command (Catalog.selectQueryId kind sink command.offset) sink sources →
        Asks command (.createAsSelect kind sink sources ifNotExists) q
  | insertInto {sink : String} {sources : List String} {q : Query} :
      q.Records command (Catalog.insertQueryId command.offset) sink sources →
        Asks command (.insertInto sink sources) q

/-- The statement asks for nothing where its sink is there, as it is. -/
def Skips (c : Catalog) : Statement → Prop
  | .createAsSelect _ sink _ ifNotExists => ifNotExists = true ∧ (c.source? sink).isSome
  | _ => False

variable {statement : Statement} {command : Command} {p q : Query}

theorem Asks.iff_start (h : statement.Asks command p) :
    statement.Asks command q ↔ p.start = q.start := by
  cases h with
  | createAsSelect h =>
    rw [← h.iff_start]
    exact ⟨fun | .createAsSelect h => h, .createAsSelect⟩
  | insertInto h =>
    rw [← h.iff_start]
    exact ⟨fun | .insertInto h => h, .insertInto⟩

theorem Asks.numbered (h : statement.Asks command q) : Query.Numbered q.id command.offset := by
  cases h with
  | createAsSelect h =>
    rw [h.id]
    exact Catalog.numbered_selectQueryId _ _ _
  | insertInto h =>
    rw [h.id]
    exact Catalog.numbered_insertQueryId _

def Ends (statement : Statement) (id : String) : Prop :=
  statement = .terminateQuery id ∨ statement.isTerminateCluster = true

theorem Asks.not_ends (h : statement.Asks command q) (id : String) : ¬ statement.Ends id := by
  rintro (rfl | ht)
  · cases h
  · cases h <;> cases ht

end Statement

namespace Catalog

variable {c d : Catalog} {b b' : Broker} {command : Command} {mode : Mode} {statement : Statement}
  {effect : Effect}

def Holds (c : Catalog) (q : Query) : Prop :=
  ∃ p, c.queries[q.id]? = some p ∧ p.start = q.start

inductive Booking (command : Command) (c : Catalog) : Statement → Catalog → Prop where
  | rest {statement : Statement} {d : Catalog} : (∀ id, ¬ statement.Ends id) →
      (∀ q, statement.Asks command q → statement.Skips c) → d.queries = c.queries →
        Booking command c statement d
  | install {statement : Statement} {d : Catalog} (q : Query) : statement.Asks command q →
      ¬ statement.Skips c → d.queries = c.queries.insert q.id q → Booking command c statement d
  | stop {id : String} {d : Catalog} : d.queries = c.queries.erase id →
      Booking command c (.terminateQuery id) d
  | clear {topics : List String} {d : Catalog} : d.queries = ∅ →
      Booking command c (.terminateCluster topics) d

theorem Booking.rest_createSource {kind : SourceKind} {name : String} {topic : Option String}
    {ifNotExists : Bool} (h : d.queries = c.queries) :
    Booking command c (.createSource kind name topic ifNotExists) d :=
  .rest (by rintro _ (⟨⟨⟩⟩ | ⟨⟨⟩⟩)) (by rintro _ ⟨⟩) h

theorem Booking.rest_dropSource {kind : SourceKind} {name : String} {ifExists deleteTopic : Bool}
    (h : d.queries = c.queries) :
    Booking command c (.dropSource kind name ifExists deleteTopic) d :=
  .rest (by rintro _ (⟨⟨⟩⟩ | ⟨⟨⟩⟩)) (by rintro _ ⟨⟩) h

theorem planStatement_booking
    (h : (c.planStatement command mode statement).goal? = some (effect, d)) :
    effect.replayed = false ∧ Booking command c statement d := by
  cases statement with
  | createSource kind name topic ifNotExists =>
    simp only [planStatement, planCreateSource] at h
    split at h
    · split at h <;> cases h
      exact ⟨rfl, .rest_createSource rfl⟩
    · cases h
      exact ⟨rfl, .rest_createSource rfl⟩
  | createAsSelect kind name sources ifNotExists =>
    simp only [planStatement, planCreateAsSelect] at h
    split at h
    · next hs =>
      split at h <;> cases h
      next hi =>
      exact ⟨rfl, .rest (by rintro _ (⟨⟨⟩⟩ | ⟨⟨⟩⟩)) (fun _ _ => ⟨hi, hs⟩) rfl⟩
    · next hs =>
      split at h <;> cases h
      exact ⟨rfl, .install
        (newQuery command mode (selectQueryId kind name command.offset) name sources)
        (.createAsSelect ⟨rfl, rfl, rfl, rfl, rfl⟩) (fun hskip => hs hskip.2) rfl⟩
  | insertInto target sources =>
    simp only [planStatement, planInsertInto] at h
    split at h
    · cases h
    · split at h
      · cases h
      · split at h <;> cases h
        exact ⟨rfl, .install (newQuery command mode (insertQueryId command.offset) target sources)
          (.insertInto ⟨rfl, rfl, rfl, rfl, rfl⟩) id rfl⟩
  | dropSource kind name ifExists deleteTopic =>
    simp only [planStatement, planDropSource] at h
    split at h
    · split at h <;> cases h
      exact ⟨rfl, .rest_dropSource rfl⟩
    · split at h
      · cases h
      · split at h
        · cases h
        · split at h
          · cases h
          · cases deleteTopic <;> cases h <;> exact ⟨rfl, .rest_dropSource rfl⟩
  | terminateQuery query =>
    simp only [planStatement, planTerminateQuery] at h
    split at h <;> cases h
    exact ⟨rfl, .stop rfl⟩
  | terminateCluster topics => cases h

theorem execute_booking (h : c.execute b command mode statement = .ok (effect, d, b')) :
    effect.replayed = false ∧ Booking command c statement d := by
  rcases execute_cases h with ⟨topics, rfl, ho⟩ | ⟨-, h⟩
  · cases ho
    exact ⟨rfl, .clear rfl⟩
  · exact planStatement_booking (Plan.goal?_run h)

theorem Booking.holds (h : Booking command c statement d) (q : Query)
    (hfresh : ∀ p, statement.Asks command p → ¬ statement.Skips c → c.queries[p.id]? = none) :
    d.Holds q ↔ (statement.Asks command q ∧ ¬ statement.Skips c) ∨
      c.Holds q ∧ ¬ statement.Ends q.id := by
  cases h with
  | rest he ha hd =>
    have hasks : ¬ (statement.Asks command q ∧ ¬ statement.Skips c) := fun h => h.2 (ha q h.1)
    rw [Holds, hd]
    simp [Holds, he q.id, hasks]
  | install p hp hs hd =>
    simp only [Holds, hd, ExtTreeMap.getElem?_insert, Std.compare_eq_iff_eq, hp.not_ends q.id, hs,
      hp.iff_start, not_false_iff, and_true]
    split
    · next hid =>
      rw [← hid, hfresh p hp hs]
      simp
    · next hid =>
      have hne : p.start ≠ q.start := fun h => hid (show p.start.id = q.start.id by rw [h])
      simp [hne]
  | @stop id _ hd =>
    have hasks : ¬ (Statement.terminateQuery id).Asks command q := by rintro ⟨⟩
    simp only [Holds, hd, ExtTreeMap.getElem?_erase, Std.compare_eq_iff_eq, hasks, false_and,
      false_or, Statement.Ends, Statement.isTerminateCluster, Bool.false_eq_true, or_false,
      Statement.terminateQuery.injEq]
    by_cases hid : id = q.id <;> simp [hid]
  | @clear topics _ hd =>
    have hasks : ¬ (Statement.terminateCluster topics).Asks command q := by rintro ⟨⟩
    simp [Holds, hd, hasks, Statement.Ends, Statement.isTerminateCluster]

theorem holds_startQueries (q : Query) : c.startQueries.Holds q ↔ c.Holds q := by
  simp only [Holds, startQueries, ExtTreeMap.getElem?_map, Option.map_eq_some_iff]
  constructor
  · rintro ⟨_, ⟨p, hp, rfl⟩, hq⟩
    exact ⟨p, hp, hq⟩
  · rintro ⟨p, hp, hq⟩
    exact ⟨p.start, ⟨p, hp, rfl⟩, hq⟩

end Catalog

end StatementLog
