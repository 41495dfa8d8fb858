import StatementLog.Proofs.Engine.Accounting

namespace StatementLog

namespace Catalog

variable {c : Catalog} {id : CommandId} {m n : Nat}

theorem alreadyApplied_mono (h : c.alreadyApplied id n = true) (hm : m ≤ n) :
    c.alreadyApplied id m = true := by
  obtain ⟨k, hk, hle⟩ := alreadyApplied_iff.1 h
  exact alreadyApplied_iff.2 ⟨k, hk, Nat.le_trans hm hle⟩

end Catalog

namespace Engine

def success? (e : Engine) : Event → Option Command
  | .apply b command mode =>
    match (e.apply b command mode).1 with
    | .ok _ => some command
    | .error _ => none
  | .finishReplay => none

def successes (e : Engine) : List Event → List Command
  | [] => []
  | event :: events => (e.success? event).toList ++ (e.act event).successes events

def commands (events : List Event) : List Command :=
  events.filterMap Event.command?

variable {e : Engine} {event : Event} {events : List Event} {c : Command} {id : CommandId} {n : Nat}

theorem command_of_success (h : e.success? event = some c) : event.command? = some c := by
  cases event with
  | finishReplay => cases h
  | apply b command mode =>
    rw [success?] at h
    split at h
    · exact h
    · cases h

theorem successes_subset (e : Engine) (events : List Event) :
    e.successes events ⊆ commands events := by
  induction events generalizing e with
  | nil => exact List.Subset.refl []
  | cons event events ih =>
    intro c hc
    rw [successes, List.mem_append, Option.mem_toList] at hc
    rw [commands, List.mem_filterMap]
    rcases hc with hc | hc
    · exact ⟨event, List.mem_cons_self, command_of_success hc⟩
    · obtain ⟨first, hm, hf⟩ := List.mem_filterMap.1 (ih _ hc)
      exact ⟨first, List.mem_cons_of_mem _ hm, hf⟩

theorem alreadyApplied_act (e : Engine) (event : Event) (id : CommandId) (n : Nat) :
    (e.act event).catalog.alreadyApplied id n = true ↔
      e.catalog.alreadyApplied id n = true ∨
        ∃ c, e.success? event = some c ∧ c.id = id ∧ n ≤ c.offset := by
  cases event with
  | finishReplay => simp [act, success?, finishReplay, publish]
  | apply b command mode =>
    rw [act, success?]
    rcases e.apply_cases b command mode with
      ⟨hk, ha⟩ | ⟨f, ha⟩ | ⟨hn, statement, effect, d, b', -, -, hx, ha⟩
    · simp only [ha, Option.some.injEq]
      constructor
      · exact .inl
      · rintro (h | ⟨c, rfl, rfl, hle⟩)
        · exact h
        · exact Catalog.alreadyApplied_mono hk hle
    · simp [ha]
    · have hd : d.alreadyApplied id n = e.catalog.alreadyApplied id n :=
        Catalog.alreadyApplied_congr (Catalog.execute_change hx).applied id n
      simp only [ha, publish, Catalog.alreadyApplied_recordApplied, hd, Option.some.injEq]
      split
      · next hid =>
        subst hid
        rw [decide_eq_true_iff]
        constructor
        · exact fun hle => .inr ⟨command, rfl, rfl, hle⟩
        · rintro (h | ⟨c, rfl, -, hle⟩)
          · -- the command is new, so what is known of its id lies below it
            refine Nat.le_of_not_le fun hle => ?_
            rw [Catalog.alreadyApplied_mono h hle] at hn
            cases hn
          · exact hle
      · next hid =>
        constructor
        · exact .inl
        · rintro (h | ⟨c, rfl, hid', -⟩)
          · exact h
          · exact absurd hid' hid

theorem alreadyApplied_run (e : Engine) (events : List Event) (id : CommandId) (n : Nat) :
    (e.run events).catalog.alreadyApplied id n = true ↔
      e.catalog.alreadyApplied id n = true ∨
        ∃ c ∈ e.successes events, c.id = id ∧ n ≤ c.offset := by
  induction events generalizing e with
  | nil => simp [run, successes]
  | cons event events ih =>
    have hrun : e.run (event :: events) = (e.act event).run events := rfl
    simp only [hrun, ih, alreadyApplied_act, successes, List.mem_append, Option.mem_toList]
    constructor
    · rintro ((h | ⟨c, hc, hid⟩) | ⟨c, hc, hid⟩)
      · exact .inl h
      · exact .inr ⟨c, .inl hc, hid⟩
      · exact .inr ⟨c, .inr hc, hid⟩
    · rintro (h | ⟨c, hc | hc, hid⟩)
      · exact .inl (.inl h)
      · exact .inl (.inr ⟨c, hc, hid⟩)
      · exact .inr ⟨c, hc, hid⟩

theorem Ordered.offset_lt (h : Ordered events) {c d : Command} (hc : c ∈ commands events)
    (hd : d ∈ commands events) (hne : c ≠ d) (hle : c.offset ≤ d.offset) :
    c.offset < d.offset := by
  obtain ⟨i, hi, rfl⟩ := List.getElem_of_mem hc
  obtain ⟨j, hj, rfl⟩ := List.getElem_of_mem hd
  have hlt := List.pairwise_iff_getElem.1 h
  rcases Nat.lt_trichotomy i j with hij | rfl | hij
  · exact (hlt i j hi hj hij).resolve_right hne
  · exact absurd rfl hne
  · exact absurd hle (Nat.not_le.2 ((hlt j i hj hi hij).resolve_right hne.symm))

def Repeats (e : Engine) (c : Command) : Prop :=
  ∀ b mode, e.apply b c mode = (.ok (replayedEffect c), e, b)

theorem repeats_iff : e.Repeats c ↔ e.catalog.alreadyApplied c.id c.offset = true := by
  constructor
  · exact fun h => alreadyApplied_of_replayed (congrArg Prod.fst (h {} .live)) rfl
  · exact fun h => apply_again h

def Overtaken (e : Engine) (events : List Event) (c : Command) : Prop :=
  ∃ d ∈ e.successes events, d.id = c.id ∧ c.offset < d.offset

structure Recalls (origin : Engine) (events : List Event) : Prop where
  known (id : CommandId) (n : Nat) : (origin.run events).catalog.alreadyApplied id n = true ↔
    ∃ c ∈ origin.successes events, c.id = id ∧ n ≤ c.offset
  repeats {c : Command} : c ∈ commands events → ((origin.run events).Repeats c ↔
    c ∈ origin.successes events ∨ Overtaken origin events c)
  sound : (∀ c ∈ commands events,
      (origin.run events).catalog.alreadyApplied c.id c.offset = true →
        c ∈ origin.successes events) ↔
    ∀ c ∈ commands events, Overtaken origin events c → c ∈ origin.successes events

/-- A command of a log counts as applied, and is answered as a replay, if it has succeeded or a
later one of its id has, and not otherwise. So what counts as applied has succeeded just if no
command that fails is followed by a success of its id. -/
theorem known_iff_success {topic : Option String} {events : List Event} (h : Ordered events) :
    Recalls (ofTopic? topic) events := by
  have hknown (id : CommandId) (n : Nat) :
      ((ofTopic? topic).run events).catalog.alreadyApplied id n = true ↔
        ∃ c ∈ (ofTopic? topic).successes events, c.id = id ∧ n ≤ c.offset := by
    rw [alreadyApplied_run]
    simp [Catalog.alreadyApplied]
  have hiff {c : Command} (hc : c ∈ commands events) :
      ((ofTopic? topic).run events).catalog.alreadyApplied c.id c.offset = true ↔
        c ∈ (ofTopic? topic).successes events ∨ Overtaken (ofTopic? topic) events c := by
    rw [hknown]
    constructor
    · rintro ⟨d, hd, hid, hle⟩
      by_cases hcd : c = d
      · exact .inl (hcd ▸ hd)
      · exact .inr ⟨d, hd, hid, h.offset_lt hc (successes_subset _ _ hd) hcd hle⟩
    · rintro (hc | ⟨d, hd, hid, hlt⟩)
      · exact ⟨c, hc, rfl, Nat.le_refl _⟩
      · exact ⟨d, hd, hid, Nat.le_of_lt hlt⟩
  refine ⟨hknown, fun hc => repeats_iff.trans (hiff hc), ?_, ?_⟩
  · exact fun hs c hc ho => hs c hc ((hiff hc).2 (.inr ho))
  · exact fun hs c hc hk => ((hiff hc).1 hk).elim id (hs c hc)

def insertion (source : String) (offset : Nat) : Command :=
  ⟨⟨.stream, "InsertInto_A", .execute⟩,
    { statement := "INSERT INTO A SELECT * FROM " ++ source ++ ";" }, offset⟩

def insertions : List Event :=
  served [creation 0, insertion "B" 1, insertion "A" 2]

theorem known_iff_success_insertions :
    Ordered insertions ∧ Recalls (ofTopic? none) insertions ∧
      (ofTopic? none).successes insertions = [creation 0, insertion "A" 2] := by
  have ho : Ordered insertions := by
    simp [Ordered, insertions, served, creation, insertion, Event.command?]
  exact ⟨ho, known_iff_success ho, by decide +kernel⟩

/-- The insertion that has failed counts as applied once the other one has succeeded. It is answered
as a success, and its query is not there. -/
theorem known_without_success :
    Ordered insertions ∧
      (∀ c ∈ commands insertions, Statement.readId c.payload.statement = .ok c.id) ∧
      insertion "B" 1 ∈ commands insertions ∧
      insertion "B" 1 ∉ (ofTopic? none).successes insertions ∧
      ((ofTopic? none).run insertions).catalog.alreadyApplied (insertion "B" 1).id
        (insertion "B" 1).offset = true ∧
      (((ofTopic? none).run insertions).apply (.ofTopics ["A"]) (insertion "B" 1) .live).1 =
        .ok (replayedEffect (insertion "B" 1)) ∧
      ((ofTopic? none).run insertions).catalog.queries.keys = ["INSERTQUERY_2"] := by
  have hknown : ((ofTopic? none).run insertions).catalog.alreadyApplied (insertion "B" 1).id
      (insertion "B" 1).offset = true := by decide +kernel
  refine ⟨?_, by decide +kernel, ?_, by decide +kernel, hknown, ?_, by decide +kernel⟩
  · simp [Ordered, insertions, served, creation, insertion, Event.command?]
  · simp [commands, insertions, served, Event.command?]
  · rw [apply_again hknown]

end Engine

end StatementLog
