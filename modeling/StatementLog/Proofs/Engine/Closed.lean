import StatementLog.Proofs.Engine.Cleanup
import StatementLog.Proofs.Engine.History
import StatementLog.Proofs.Engine.Shutdown

namespace StatementLog

open Std

namespace Catalog

structure Closed (c : Catalog) : Prop where
  terminated : c.terminated = true
  sources : c.sources = ∅
  queries : c.queries = ∅

theorem Closed.startQueries {c : Catalog} (h : c.Closed) : c.startQueries.Closed := by
  refine ⟨h.terminated, h.sources, ?_⟩
  rw [Catalog.startQueries, h.queries]
  exact ExtTreeMap.ext_getElem? fun k => by simp

end Catalog

namespace Engine

variable {e : Engine} {event : Event} {b : Broker} {command : Command} {mode : Mode}
  {effect : Effect} {topics : List String} {t : String}

theorem closed_of_termination (h : Enacts e event command (.terminateCluster topics) effect) :
    (e.act event).catalog.Closed := by
  obtain ⟨b, mode, d, b', rfl, -, hx, ha⟩ := h.inv
  cases hx
  rw [act, ha]
  exact ⟨rfl, rfl, rfl⟩

theorem apply_terminated (h : e.catalog.terminated = true) (b : Broker) (command : Command)
    (mode : Mode) :
    e.apply b command mode = (.ok (replayedEffect command), e, b) ∨
      (∃ f, f.kind = .fatal ∧ e.apply b command mode = (.error f, e, b)) ∨
        ∃ topics effect, Statement.read command.payload.statement = .ok (.terminateCluster topics) ∧
          e.apply b command mode =
            (.ok effect, e.publish ((e.catalog.terminateCluster b topics).2.1.recordApplied command),
              (e.catalog.terminateCluster b topics).2.2) := by
  cases hn : e.catalog.alreadyApplied command.id command.offset with
  | true => exact .inl (apply_again hn b mode)
  | false =>
    have hrefused {r : Refusal} (hr : r.kind = .fatal)
        (hp : e.catalog.perform b command mode = .error r) :
        ∃ f, f.kind = .fatal ∧ e.apply b command mode = (.error f, e, b) := by
      refine ⟨r.failure, hr, ?_⟩
      rw [apply, if_neg (by simp [hn]), hp]
    cases hs : Statement.read command.payload.statement with
    | error fault =>
      refine .inr (.inl (hrefused (r := .unreadable fault) rfl ?_))
      rw [Catalog.perform, hs]
      rfl
    | ok statement =>
      cases ht : statement.isTerminateCluster with
      | false =>
        refine .inr (.inl (hrefused (r := .clusterTerminated) rfl ?_))
        rw [Catalog.perform, hs]
        simp only [h, ht, Bool.not_false, Bool.and_true, if_true]
        rfl
      | true =>
        cases statement with
        | terminateCluster topics =>
          exact .inr (.inr ⟨topics, _, rfl, apply_terminateCluster hs hn b mode⟩)
        | _ => cases ht

theorem closed_act (h : e.catalog.Closed) (event : Event) :
    (e.act event).catalog.Closed ∧
      ∀ t, (e.act event).catalog.managed.contains t = true → e.catalog.managed.contains t = true := by
  cases event with
  | finishReplay => exact ⟨h.startQueries, fun _ ht => ht⟩
  | apply b command mode =>
    rw [act]
    rcases apply_terminated h.terminated b command mode with
      ha | ⟨f, -, ha⟩ | ⟨topics, effect, -, ha⟩
    · rw [ha]
      exact ⟨h, fun _ ht => ht⟩
    · rw [ha]
      exact ⟨h, fun _ ht => ht⟩
    · rw [ha]
      exact ⟨⟨rfl, rfl, rfl⟩, fun _ ht => Catalog.managed_of_terminateCluster ht⟩

theorem closed_run (h : e.catalog.Closed) (events : List Event) :
    (e.run events).catalog.Closed ∧
      ∀ t, (e.run events).catalog.managed.contains t = true →
        e.catalog.managed.contains t = true := by
  refine run_keeps (P := fun e' => e'.catalog.Closed ∧
    ∀ t, e'.catalog.managed.contains t = true → e.catalog.managed.contains t = true) ?_
    ⟨h, fun _ ht => ht⟩
  rintro e' event - ⟨hc, hm⟩
  obtain ⟨hc', hm'⟩ := closed_act hc event
  exact ⟨hc', fun t ht => hm t (hm' t ht)⟩

/-- Nothing comes back to the cluster: it keeps no topic that it did not have before, makes none at
the broker, and answers a statement other than the request to terminate it as a replay, or refuses
it for good. -/
structure Final (e : Engine) : Prop where
  closed : e.catalog.Closed
  managed (events : List Event) (t : String) :
    (e.run events).catalog.managed.contains t = true → e.catalog.managed.contains t = true
  topics (b : Broker) (command : Command) (mode : Mode) (t : String) :
    (e.apply b command mode).2.2.topics.contains t = true → b.topics.contains t = true
  refuses (b : Broker) (command : Command) (mode : Mode) : command.Ordinary →
    e.apply b command mode = (.ok (replayedEffect command), e, b) ∨
      ∃ f, f.kind = .fatal ∧ e.apply b command mode = (.error f, e, b)

theorem final_of_closed (h : e.catalog.Closed) : e.Final where
  closed := h
  managed events := (closed_run h events).2
  topics b command mode t ht := by
    rcases apply_terminated h.terminated b command mode with
      ha | ⟨f, -, ha⟩ | ⟨topics, effect, -, ha⟩
    · rwa [ha] at ht
    · rwa [ha] at ht
    · rw [ha] at ht
      exact Broker.contains_of_release ht
  refuses b command mode ho := by
    rcases apply_terminated h.terminated b command mode with ha | ha | ⟨topics, -, hs, -⟩
    · exact .inl ha
    · exact .inr ha
    · exact absurd hs (ho topics)

/-- The command is logged under the id of its own statement. -/
def Event.Named : Event → Prop
  | .apply _ command _ => Statement.readId command.payload.statement = .ok command.id
  | .finishReplay => True

def Faithful (e : Engine) : Prop :=
  ∀ (id : CommandId) (n : Nat), e.catalog.applied[id]? = some n → id.isClusterTerminate = true →
    e.catalog.Closed

theorem Faithful.act (h : e.Faithful) (hn : event.Named) :
    (e.act event).Faithful := by
  cases event with
  | finishReplay => exact fun id n ha ht => (h id n ha ht).startQueries
  | apply b command mode =>
    have hkept (he : e.act (.apply b command mode) = e) :
        (e.act (.apply b command mode)).Faithful := he.symm ▸ h
    rcases e.apply_cases b command mode with
      ⟨-, ha⟩ | ⟨f, ha⟩ | ⟨-, statement, effect, d, b', hs, -, hx, ha⟩
    · exact hkept (by rw [Engine.act, ha])
    · exact hkept (by rw [Engine.act, ha])
    · intro id n hid ht
      have hclosed (hc : e.catalog.Closed) : (e.act (.apply b command mode)).catalog.Closed :=
        (closed_act hc _).1
      rw [Engine.act, ha] at hid hclosed ⊢
      simp only [publish, Catalog.recordApplied, ExtTreeMap.getElem?_insert,
        Std.compare_eq_iff_eq] at hid
      split at hid
      · next he =>
        subst he
        rw [Statement.isClusterTerminate_of_read hs hn] at ht
        cases statement with
        | terminateCluster topics =>
          cases hx
          exact ⟨rfl, rfl, rfl⟩
        | _ => cases ht
      · rw [(Catalog.execute_change hx).applied] at hid
        exact hclosed (h id n hid ht)

theorem ofTopic?_faithful (topic : Option String) : (ofTopic? topic).Faithful := by
  intro id n h
  simp at h

/-- The termination of the cluster is the end of it. Once a request to terminate it has taken
effect, or is answered as a replay in a run whose commands go by the ids of their statements, no
later command, whatever its text, its id and its offset, and no end of a replay brings anything
back. -/
theorem termination_absorbs {topic : Option String} {earlier : List Event} {b : Broker}
    {command : Command} {mode : Mode} {topics : List String} {effect : Effect}
    (hs : Statement.read command.payload.statement = .ok (.terminateCluster topics))
    (hok : (((ofTopic? topic).run earlier).apply b command mode).1 = .ok effect)
    (hnew : effect.replayed = false ∨ ∀ event ∈ earlier ++ [.apply b command mode], event.Named)
    (later : List Event) :
    ((ofTopic? topic).run (earlier ++ .apply b command mode :: later)).Final := by
  have hclosed : (((ofTopic? topic).run earlier).act (.apply b command mode)).catalog.Closed := by
    rcases hnew with hnew | hnamed
    · exact closed_of_termination (.apply hs hok hnew)
    cases hn : ((ofTopic? topic).run earlier).catalog.alreadyApplied command.id command.offset with
    | false =>
      have heffect := hok
      rw [apply_terminateCluster hs hn] at heffect
      cases heffect
      exact closed_of_termination (.apply hs hok rfl)
    | true =>
      have hid : Statement.readId command.payload.statement = .ok command.id :=
        hnamed (.apply b command mode) (by simp)
      have hfaithful : ((ofTopic? topic).run earlier).Faithful :=
        run_keeps (fun e event hm he => he.act (hnamed event (by simp [hm])))
          (ofTopic?_faithful topic)
      obtain ⟨n, ha, -⟩ := Catalog.alreadyApplied_iff.1 hn
      rw [act, apply_again hn]
      exact hfaithful _ n ha (Statement.isClusterTerminate_of_read hs hid)
  rw [run_append]
  exact final_of_closed (closed_run hclosed later).1

def served (commands : List Command) : List Event :=
  commands.map fun command => .apply (.ofTopics ["A"]) command .live

theorem termination_absorbs_dataflow :
    Statement.read (termination 3).payload.statement = .ok (.terminateCluster []) ∧
      ((ofTopic? (some "c")).run (served [creation 0])).catalog.sources.size = 2 ∧
      ∃ effect, (((ofTopic? (some "c")).run (served [creation 0])).apply {} (termination 3) .live).1 =
          .ok effect ∧ effect.replayed = false ∧
        ((ofTopic? (some "c")).run (served [creation 0] ++ .apply {} (termination 3) .live ::
          (served dataflow ++ [.finishReplay]))).Final := by
  have hs : Statement.read (termination 3).payload.statement = .ok (.terminateCluster []) := rfl
  have hn : ((ofTopic? (some "c")).run (served [creation 0])).catalog.alreadyApplied
      (termination 3).id (termination 3).offset = false := by decide +kernel
  have hok := congrArg Prod.fst (apply_terminateCluster hs hn {} .live)
  exact ⟨hs, by decide +kernel, _, hok, rfl, termination_absorbs hs hok (.inl rfl) _⟩

end Engine

end StatementLog
