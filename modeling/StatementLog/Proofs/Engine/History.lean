import StatementLog.Proofs.Engine.Booking
import StatementLog.Proofs.Engine.Integrity

namespace StatementLog

open Std

namespace Catalog

variable {c d : Catalog} {command : Command} {mode : Mode} {statement : Statement}

theorem alreadyApplied_iff {id : CommandId} {n : Nat} :
    c.alreadyApplied id n = true ↔ ∃ m, c.applied[id]? = some m ∧ n ≤ m := by
  rw [alreadyApplied]
  split
  · next m hm => simp [hm]
  · next hm => simp [hm]

theorem Change.applied (h : Change command mode c statement d) : d.applied = c.applied := by
  cases h <;> rfl

theorem applied_recordApplied (h : c.alreadyApplied command.id command.offset = false)
    (hd : d.applied = c.applied) {id : CommandId} {n : Nat} (hn : c.applied[id]? = some n) :
    ∃ m, n ≤ m ∧ (d.recordApplied command).applied[id]? = some m := by
  simp only [recordApplied, ExtTreeMap.getElem?_insert, hd, Std.compare_eq_iff_eq]
  split
  · next hid =>
    subst hid
    refine ⟨command.offset, Nat.le_of_not_le fun hle => ?_, rfl⟩
    rw [alreadyApplied_iff.2 ⟨n, hn, hle⟩] at h
    cases h
  · exact ⟨n, Nat.le_refl n, hn⟩

end Catalog

namespace Engine

inductive Event where
  | apply (b : Broker) (command : Command) (mode : Mode)
  | finishReplay

def act (e : Engine) : Event → Engine
  | .apply b command mode => (e.apply b command mode).2.1
  | .finishReplay => e.finishReplay

def run (e : Engine) (events : List Event) : Engine :=
  events.foldl act e

/-- The command is read as the statement and succeeds with the effect, other than as a replay. -/
inductive Enacts (e : Engine) : Event → Command → Statement → Effect → Prop where
  | apply {b : Broker} {command : Command} {mode : Mode} {statement : Statement} {effect : Effect} :
      Statement.read command.payload.statement = .ok statement →
        (e.apply b command mode).1 = .ok effect → effect.replayed = false →
          Enacts e (.apply b command mode) command statement effect

variable {e : Engine} {event : Event} {b : Broker} {command command' : Command} {mode : Mode}
  {statement statement' : Statement} {effect effect' : Effect} {id : CommandId} {n : Nat}

theorem Enacts.unique (h : Enacts e event command statement effect)
    (h' : Enacts e event command' statement' effect') :
    command = command' ∧ statement = statement' ∧ effect = effect' := by
  obtain ⟨hs, hok, -⟩ := h
  obtain ⟨hs', hok', -⟩ := h'
  cases hs.symm.trans hs'
  cases hok.symm.trans hok'
  exact ⟨rfl, rfl, rfl⟩

theorem Enacts.inv (h : Enacts e event command statement effect) :
    ∃ b mode d b', event = .apply b command mode ∧
      e.catalog.alreadyApplied command.id command.offset = false ∧
      e.catalog.execute b command mode statement = .ok (effect, d, b') ∧
      e.apply b command mode = (.ok effect, e.publish (d.recordApplied command), b') := by
  obtain @⟨b, command, mode, statement, effect, hs, hok, hnew⟩ := h
  rcases e.apply_cases b command mode with
    ⟨-, ha⟩ | ⟨f, ha⟩ | ⟨hn, statement', effect', d, b', hs', -, hx, ha⟩
  · rw [ha] at hok
    cases hok
    cases hnew
  · rw [ha] at hok
    cases hok
  · have heffect := hok
    rw [ha] at heffect
    cases heffect
    cases hs.symm.trans hs'
    exact ⟨b, mode, d, b', rfl, hn, hx, ha⟩

theorem idle_or_enacts (e : Engine) (b : Broker) (command : Command) (mode : Mode) :
    (e.apply b command mode).2 = (e, b) ∨
      ∃ statement effect, Enacts e (.apply b command mode) command statement effect := by
  rcases e.apply_cases b command mode with
    ⟨-, ha⟩ | ⟨f, ha⟩ | ⟨-, statement, effect, d, b', hs, -, hx, ha⟩
  · exact .inl (by rw [ha])
  · exact .inl (by rw [ha])
  · exact .inr ⟨statement, effect, .apply hs (by rw [ha]) (Catalog.execute_booking hx).1⟩

theorem run_append (e : Engine) (events more : List Event) :
    e.run (events ++ more) = (e.run events).run more :=
  List.foldl_append

theorem run_concat (e : Engine) (events : List Event) (event : Event) :
    e.run (events ++ [event]) = (e.run events).act event :=
  run_append e events [event]

@[simp]
theorem applied_ofTopic? (topic : Option String) : (ofTopic? topic).catalog.applied = ∅ := by
  cases topic <;> rfl

theorem run_keeps {P : Engine → Prop} {events : List Event}
    (hP : ∀ e, ∀ event ∈ events, P e → P (e.act event)) (h : P e) : P (e.run events) := by
  induction events generalizing e with
  | nil => exact h
  | cons event events ih =>
    have hfirst := hP e event List.mem_cons_self h
    exact ih (fun e event hm => hP e event (List.mem_cons_of_mem _ hm)) hfirst

theorem apply_again (h : e.catalog.alreadyApplied command.id command.offset = true) (b : Broker)
    (mode : Mode) : e.apply b command mode = (.ok (replayedEffect command), e, b) := by
  rw [apply, if_pos h]

theorem alreadyApplied_of_replayed (hok : (e.apply b command mode).1 = .ok effect)
    (hr : effect.replayed = true) :
    e.catalog.alreadyApplied command.id command.offset = true := by
  rcases e.apply_cases b command mode with
    ⟨hn, -⟩ | ⟨f, ha⟩ | ⟨-, statement, effect', d, b', -, -, hx, ha⟩
  · exact hn
  · rw [ha] at hok
    cases hok
  · rw [ha] at hok
    cases hok
    rw [(Catalog.execute_booking hx).1] at hr
    cases hr

theorem act_applied (event : Event) (h : e.catalog.applied[id]? = some n) :
    ∃ m, n ≤ m ∧ (e.act event).catalog.applied[id]? = some m := by
  cases event with
  | finishReplay => exact ⟨n, Nat.le_refl n, h⟩
  | apply b command mode =>
    rcases e.idle_or_enacts b command mode with ha | ⟨statement, effect, hx⟩
    · rw [act, ha]
      exact ⟨n, Nat.le_refl n, h⟩
    · obtain ⟨_, _, d, b', ⟨⟩, hn, hd, ha⟩ := hx.inv
      rw [act, ha]
      exact Catalog.applied_recordApplied hn (Catalog.execute_change hd).applied h

theorem applied_of_act (h : (e.act event).catalog.applied[id]? = some n) :
    e.catalog.applied[id]? = some n ∨
      ∃ b command mode, event = .apply b command mode ∧ command.id = id ∧ command.offset = n := by
  cases event with
  | finishReplay => exact .inl h
  | apply b command mode =>
    rcases e.apply_change b command mode with ha | ⟨statement, d, -, -, hx, ha⟩
    · rw [act, ha] at h
      exact .inl h
    · simp only [act, ha, publish, Catalog.recordApplied, ExtTreeMap.getElem?_insert,
        Std.compare_eq_iff_eq] at h
      split at h
      · next hid => exact .inr ⟨b, command, mode, rfl, hid, Option.some_inj.1 h⟩
      · exact .inl (hx.applied ▸ h)

theorem applied_of_run {events : List Event} (h : (e.run events).catalog.applied[id]? = some n) :
    e.catalog.applied[id]? = some n ∨
      ∃ b command mode, .apply b command mode ∈ events ∧ command.id = id ∧ command.offset = n := by
  induction events generalizing e with
  | nil => exact .inl h
  | cons event events ih =>
    rcases ih h with h | ⟨b, command, mode, hm, hc⟩
    · rcases applied_of_act h with h | ⟨b, command, mode, rfl, hc⟩
      · exact .inl h
      · exact .inr ⟨b, command, mode, List.mem_cons_self, hc⟩
    · exact .inr ⟨b, command, mode, List.mem_cons_of_mem _ hm, hc⟩

theorem run_applied (events : List Event) (h : e.catalog.applied[id]? = some n) :
    ∃ m, n ≤ m ∧ (e.run events).catalog.applied[id]? = some m := by
  refine run_keeps (P := fun e => ∃ m, n ≤ m ∧ e.catalog.applied[id]? = some m) ?_
    ⟨n, Nat.le_refl n, h⟩
  rintro e event - ⟨k, hk, he⟩
  obtain ⟨m, hm, ha⟩ := act_applied event he
  exact ⟨m, Nat.le_trans hk hm, ha⟩

theorem run_alreadyApplied (events : List Event) (h : e.catalog.alreadyApplied id n = true) :
    (e.run events).catalog.alreadyApplied id n = true := by
  obtain ⟨k, hk, hle⟩ := Catalog.alreadyApplied_iff.1 h
  obtain ⟨m, hm, ha⟩ := run_applied events hk
  exact Catalog.alreadyApplied_iff.2 ⟨m, ha, Nat.le_trans hle hm⟩

theorem act_alreadyApplied (h : (e.apply b command mode).1 = .ok effect) :
    (e.act (.apply b command mode)).catalog.alreadyApplied command.id command.offset = true := by
  rw [act]
  rcases e.apply_cases b command mode with
    ⟨hk, ha⟩ | ⟨f, ha⟩ | ⟨-, statement, effect', d, b', -, -, -, ha⟩
  · rwa [ha]
  · rw [ha] at h
    cases h
  · rw [ha]
    refine Catalog.alreadyApplied_iff.2 ⟨command.offset, ?_, Nat.le_refl _⟩
    simp [publish, Catalog.recordApplied]

/-- An effect that took place is never forgotten: the offset noted for an id never decreases, and
after a command has succeeded, any command with its id and its offset succeeds as a replay, in both
modes, and leaves the catalog, its snapshot and the broker as they are. -/
theorem effect_stays_recognised (e : Engine) (events : List Event) :
    (∀ (id : CommandId) (n : Nat), e.catalog.applied[id]? = some n →
      ∃ m, n ≤ m ∧ (e.run events).catalog.applied[id]? = some m) ∧
    ∀ b command mode effect, (e.apply b command mode).1 = .ok effect →
      ∀ b' command' mode', command'.id = command.id → command'.offset = command.offset →
        ∃ again, again.replayed = true ∧
          ((e.act (.apply b command mode)).run events).apply b' command' mode' =
            (.ok again, (e.act (.apply b command mode)).run events, b') := by
  refine ⟨fun id n => run_applied events, ?_⟩
  intro b command mode effect hok b' command' mode' hid ho
  have hknown := run_alreadyApplied events (act_alreadyApplied hok)
  rw [← hid, ← ho] at hknown
  exact ⟨replayedEffect command', rfl, apply_again hknown b' mode'⟩

def creation (offset : Nat) : Command :=
  ⟨⟨.stream, "A", .create⟩, { statement := "CREATE STREAM A (X INT);" }, offset⟩

def termination (offset : Nat) : Command :=
  ⟨⟨.cluster, "TerminateCluster", .terminate⟩, { statement := "TERMINATE CLUSTER;" }, offset⟩

def turnover : List Event :=
  [.apply {} ⟨⟨.stream, "A", .drop⟩, { statement := "DROP STREAM A;" }, 1⟩ .live,
    .apply (.ofTopics ["A"]) (creation 4) .live, .finishReplay,
    .apply (.ofTopics ["A"]) (termination 2) .live]

theorem effect_stays_recognised_turnover :
    (∃ effect, (({} : Engine).apply (.ofTopics ["A"]) (creation 0) .live).1 = .ok effect) ∧
      ((({} : Engine).act (.apply (.ofTopics ["A"]) (creation 0) .live)).run
        turnover).catalog.sources = ∅ ∧
      ∃ again, again.replayed = true ∧
        ((({} : Engine).act (.apply (.ofTopics ["A"]) (creation 0) .live)).run turnover).apply
          { available := false } (creation 0) .replay =
            (.ok again, (({} : Engine).act (.apply (.ofTopics ["A"]) (creation 0) .live)).run turnover,
              { available := false }) := by
  have hok : (({} : Engine).apply (.ofTopics ["A"]) (creation 0) .live).1 =
      .ok { message := "Stream created" } := rfl
  exact ⟨⟨_, hok⟩, by decide +kernel,
    (effect_stays_recognised {} turnover).2 _ _ _ _ hok _ (creation 0) .replay rfl rfl⟩

end Engine

end StatementLog
