import Mathlib.Data.List.Induction
import StatementLog.Proofs.Engine.Closed

namespace StatementLog

open Std

namespace Engine

/-- A command takes effect whose statement asks for the query, and does not skip it. -/
def Installs (e : Engine) (event : Event) (q : Query) : Prop :=
  ∃ command statement effect, Enacts e event command statement effect ∧
    statement.Asks command q ∧ ¬ statement.Skips e.catalog

def Removes (e : Engine) (event : Event) (id : String) : Prop :=
  ∃ command statement effect, Enacts e event command statement effect ∧ statement.Ends id

def Event.command? : Event → Option Command
  | .apply _ command _ => some command
  | .finishReplay => none

/-- The commands come in the order of their offsets; one of them may be tried more than once before
the next one comes. -/
def Ordered (events : List Event) : Prop :=
  (events.filterMap Event.command?).Pairwise fun c d => c.offset < d.offset ∨ c = d

/-- At some point of the run `p` came about, and `r` has not come about since. -/
def Since (e : Engine) (events : List Event) (p r : Engine → Event → Prop) : Prop :=
  ∃ before event after, events = before ++ event :: after ∧ p (e.run before) event ∧
    ∀ mid last rest, after = mid ++ last :: rest → ¬ r (e.run (before ++ event :: mid)) last

theorem since_nil (e : Engine) (p r : Engine → Event → Prop) : ¬ Since e [] p r := by
  rintro ⟨before, event, after, he, -⟩
  exact absurd he.symm (by simp)

theorem since_concat {e : Engine} {events : List Event} {event : Event}
    {p r : Engine → Event → Prop} :
    Since e (events ++ [event]) p r ↔
      p (e.run events) event ∨ Since e events p r ∧ ¬ r (e.run events) event := by
  constructor
  · rintro ⟨before, first, after, he, hp, hr⟩
    cases after using List.reverseRecOn with
    | nil =>
      obtain ⟨rfl, rfl⟩ := List.append_singleton_inj.1 he
      exact .inl hp
    | append_singleton after last =>
      rw [← List.cons_append, ← List.append_assoc] at he
      obtain ⟨rfl, rfl⟩ := List.append_singleton_inj.1 he
      refine .inr ⟨⟨before, first, after, rfl, hp, fun mid last rest h => ?_⟩, hr after event [] rfl⟩
      exact hr mid last (rest ++ [event]) (by rw [h]; simp)
  · rintro (hp | ⟨⟨before, first, after, rfl, hp, hr⟩, hn⟩)
    · exact ⟨events, event, [], rfl, hp, fun mid last rest h => absurd h.symm (by simp)⟩
    · refine ⟨before, first, after ++ [event], by simp, hp, fun mid last rest h => ?_⟩
      cases rest using List.reverseRecOn with
      | nil =>
        obtain ⟨rfl, rfl⟩ := List.append_singleton_inj.1 h
        exact hn
      | append_singleton rest final =>
        rw [← List.cons_append, ← List.append_assoc] at h
        exact hr mid last rest (List.append_singleton_inj.1 h).1

theorem Ordered.of_append {events more : List Event} (h : Ordered (events ++ more)) :
    Ordered events := by
  rw [Ordered, List.filterMap_append, List.pairwise_append] at h
  exact h.1

theorem Ordered.up_to {before after : List Event} {event : Event}
    (h : Ordered (before ++ event :: after)) : Ordered (before ++ [event]) := by
  rw [List.append_cons] at h
  exact h.of_append

theorem Ordered.before {events : List Event} {b b' : Broker} {c d : Command} {mode mode' : Mode}
    (h : Ordered (events ++ [.apply b d mode])) (hc : .apply b' c mode' ∈ events) :
    c.offset < d.offset ∨ c = d := by
  rw [Ordered, List.filterMap_append, List.pairwise_append] at h
  exact h.2.2 c (List.mem_filterMap.2 ⟨_, hc, rfl⟩) d (by simp [Event.command?])

section

variable {e : Engine} {event : Event} {command command' : Command}
  {statement statement' : Statement} {effect effect' : Effect}

theorem Enacts.booking (h : Enacts e event command statement effect) :
    ∃ d, Catalog.Booking command e.catalog statement d ∧
      (e.act event).catalog.queries = d.queries := by
  obtain ⟨b, mode, d, b', rfl, -, hx, ha⟩ := h.inv
  exact ⟨d, (Catalog.execute_booking hx).2, by rw [act, ha]; rfl⟩

theorem holds_act_of_idle (h : ∀ command statement effect, ¬ Enacts e event command statement effect)
    (q : Query) : (e.act event).catalog.Holds q ↔ e.catalog.Holds q := by
  cases event with
  | finishReplay => exact Catalog.holds_startQueries q
  | apply b command mode =>
    rcases e.idle_or_enacts b command mode with ha | ⟨statement, effect, hx⟩
    · rw [act, ha]
    · exact absurd hx (h command statement effect)

theorem Enacts.installs_iff (h : Enacts e event command statement effect) (q : Query) :
    Installs e event q ↔ statement.Asks command q ∧ ¬ statement.Skips e.catalog := by
  constructor
  · rintro ⟨command', statement', effect', h', hq⟩
    obtain ⟨rfl, rfl, rfl⟩ := h.unique h'
    exact hq
  · exact fun hq => ⟨command, statement, effect, h, hq⟩

theorem Enacts.removes_iff (h : Enacts e event command statement effect) (id : String) :
    Removes e event id ↔ statement.Ends id := by
  constructor
  · rintro ⟨command', statement', effect', h', hid⟩
    obtain ⟨rfl, rfl, rfl⟩ := h.unique h'
    exact hid
  · exact fun hid => ⟨command, statement, effect, h, hid⟩

theorem holds_act (hfresh : ∀ q, Installs e event q → e.catalog.queries[q.id]? = none) (q : Query) :
    (e.act event).catalog.Holds q ↔
      Installs e event q ∨ e.catalog.Holds q ∧ ¬ Removes e event q.id := by
  by_cases hx : ∃ command statement effect, Enacts e event command statement effect
  · obtain ⟨command, statement, effect, h⟩ := hx
    obtain ⟨d, hb, hd⟩ := h.booking
    have hsame : (e.act event).catalog.Holds q ↔ d.Holds q := by
      rw [Catalog.Holds, Catalog.Holds, hd]
    rw [hsame, h.installs_iff, h.removes_iff]
    exact hb.holds q fun p hp hs => hfresh p ((h.installs_iff p).2 ⟨hp, hs⟩)
  · have hnone : ∀ command statement effect, ¬ Enacts e event command statement effect :=
      fun command statement effect h => hx ⟨command, statement, effect, h⟩
    have hi : ¬ Installs e event q := by
      rintro ⟨command, statement, effect, h, -⟩
      exact hnone command statement effect h
    have hr : ¬ Removes e event q.id := by
      rintro ⟨command, statement, effect, h, -⟩
      exact hnone command statement effect h
    simp [holds_act_of_idle hnone q, hi, hr]

theorem Installs.numbered {q : Query} (h : Installs e event q) :
    ∃ b command mode, event = .apply b command mode ∧ Query.Numbered q.id command.offset ∧
      e.catalog.alreadyApplied command.id command.offset = false ∧
      (e.act event).catalog.alreadyApplied command.id command.offset = true := by
  obtain ⟨command, statement, effect, hx, hq, -⟩ := h
  obtain ⟨b, mode, d, b', rfl, hn, -, ha⟩ := hx.inv
  exact ⟨b, command, mode, rfl, hq.numbered, hn, act_alreadyApplied (by rw [ha])⟩

end

theorem run_coherent (topic : Option String) (events : List Event) :
    ((ofTopic? topic).run events).catalog.Coherent topic := by
  refine run_keeps (P := fun e => e.catalog.Coherent topic) ?_ (ofTopic?_coherent topic)
  rintro e (⟨b, command, mode⟩ | _) - h
  · exact Step.coherent h (.apply e b command mode)
  · exact Step.coherent h (.finishReplay e)

section

variable {topic : Option String} {events : List Event} {event : Event}

theorem installs_fresh (ho : Ordered (events ++ [event]))
    (hevents : ∀ q, ((ofTopic? topic).run events).catalog.Holds q ↔
      Since (ofTopic? topic) events (Installs · · q) (Removes · · q.id))
    {q : Query} (h : Installs ((ofTopic? topic).run events) event q) :
    ((ofTopic? topic).run events).catalog.queries[q.id]? = none := by
  cases hp : ((ofTopic? topic).run events).catalog.queries[q.id]? with
  | none => rfl
  | some p =>
    have hid : p.id = q.id := (run_coherent topic events).query_key hp
    -- the command that installed `p` has the same offset, so it is the same one come again
    obtain ⟨before, first, after, rfl, hfirst, -⟩ := (hevents p).1 ⟨p, hid ▸ hp, rfl⟩
    obtain ⟨b, c, mode, rfl, hc, -, hknown⟩ := hfirst.numbered
    obtain ⟨b', d, mode', rfl, hd, hnew, -⟩ := h.numbered
    have hoffset : c.offset = d.offset := Query.Numbered.unique (hid ▸ hc) hd
    have hm : Event.apply b c mode ∈ before ++ .apply b c mode :: after := by simp
    obtain rfl : c = d :=
      (ho.before hm).resolve_left fun hlt => absurd hoffset (Nat.ne_of_lt hlt)
    have hstill := run_alreadyApplied after hknown
    rw [← run_concat, ← run_append, ← List.append_cons] at hstill
    exact absurd (hnew.symm.trans hstill) Bool.false_ne_true

theorem holds_run (ho : Ordered events) (q : Query) :
    ((ofTopic? topic).run events).catalog.Holds q ↔
      Since (ofTopic? topic) events (Installs · · q) (Removes · · q.id) := by
  induction events using List.reverseRecOn generalizing q with
  | nil =>
    refine ⟨fun ⟨p, hp, _⟩ => ?_, fun h => absurd h (since_nil _ _ _)⟩
    cases topic <;> simp [run, ofTopic?, ofCommandTopic, Catalog.ofCommandTopic, Catalog.manage,
      Catalog.addSource] at hp
  | append_singleton events event ih =>
    have hevents := ih ho.of_append
    rw [run_concat, since_concat, holds_act (fun p => installs_fresh ho hevents), hevents]

end

structure Accounted (origin : Engine) (events : List Event) : Prop where
  holds (q : Query) : (origin.run events).catalog.Holds q ↔
    Since origin events (Installs · · q) (Removes · · q.id)
  key {k : String} {q : Query} : (origin.run events).catalog.queries[k]? = some q → q.id = k
  fresh {before after : List Event} {event : Event} {q : Query} :
    events = before ++ event :: after → Installs (origin.run before) event q →
      (origin.run before).catalog.queries[q.id]? = none
  emptied {before after : List Event} {event : Event} {command : Command} {topics : List String}
    {effect : Effect} : events = before ++ event :: after →
      Enacts (origin.run before) event command (.terminateCluster topics) effect →
        (origin.run events).catalog.queries = ∅
  replayed {before after : List Event} {b : Broker} {command : Command} {mode : Mode}
    {effect : Effect} : events = before ++ .apply b command mode :: after →
      ((origin.run before).apply b command mode).1 = .ok effect → effect.replayed = true →
        ∃ b' mode', .apply b' command mode' ∈ before

/-- The queries there are at any point of a run, in the order of the log and with the broker in any
state, are exactly those that a command has installed and none has terminated since, with the sink,
the sources, the text and the overrides of that command. No query takes the place of another one,
whatever their sinks are called, and none is left or comes back once the cluster is terminated. A
command succeeds as a replay only when it comes again. -/
theorem queries_accounted {topic : Option String} {events : List Event} (h : Ordered events) :
    Accounted (ofTopic? topic) events where
  holds := holds_run h
  key := (run_coherent topic events).query_key
  fresh {before after event q} he hi := by
    have hbefore : Ordered (before ++ [event]) := (he ▸ h).up_to
    exact installs_fresh hbefore (holds_run hbefore.of_append) hi
  emptied {before after event command topics effect} he hx := by
    rw [he, run_append]
    exact (closed_run (closed_of_termination hx) after).1.queries
  replayed {before after b command mode effect} he hok hr := by
    obtain ⟨m, hm, hle⟩ := Catalog.alreadyApplied_iff.1 (alreadyApplied_of_replayed hok hr)
    rcases applied_of_run hm with hm | ⟨b', c, mode', hc, -, rfl⟩
    · simp at hm
    · rcases (he ▸ h).up_to.before hc with hlt | rfl
      · exact absurd hlt (Nat.not_lt.2 hle)
      · exact ⟨b', mode', hc⟩

def lookalikes : List Command :=
  [creation 0,
    ⟨⟨.stream, "a_1", .create⟩, { statement := "CREATE STREAM \"a_1\" AS SELECT * FROM A;" }, 1⟩,
    ⟨⟨.stream, "a", .create⟩, { statement := "CREATE STREAM \"a\" AS SELECT * FROM A;" }, 11⟩,
    ⟨⟨.terminate, "CSAS_A_1_1", .execute⟩, { statement := "TERMINATE CSAS_A_1_1;" }, 12⟩,
    ⟨⟨.terminate, "CSAS_A_1_1", .execute⟩, { statement := "TERMINATE CSAS_A_1_1;" }, 12⟩]

theorem queries_accounted_lookalikes :
    Ordered (served lookalikes) ∧ Accounted (ofTopic? none) (served lookalikes) ∧
      ((ofTopic? none).run (served lookalikes)).catalog.queries.keys = ["CSAS_A_11"] := by
  have ho : Ordered (served lookalikes) := by
    simp [Ordered, served, lookalikes, creation, Event.command?]
  exact ⟨ho, queries_accounted ho, by decide +kernel⟩

end Engine

end StatementLog
