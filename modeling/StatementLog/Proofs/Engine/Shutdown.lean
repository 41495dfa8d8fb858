import StatementLog.Proofs.Engine.Change

namespace StatementLog

theorem Statement.isClusterTerminate_id (statement : Statement) :
    statement.id.isClusterTerminate = statement.isTerminateCluster := by
  cases statement with
  | createSource kind _ _ _ => cases kind <;> rfl
  | createAsSelect kind _ _ _ => cases kind <;> rfl
  | dropSource kind _ _ _ => cases kind <;> rfl
  | _ => rfl

theorem Statement.isClusterTerminate_of_read {text : String} {statement : Statement}
    {id : CommandId} (hr : read text = .ok statement) (hid : readId text = .ok id) :
    id.isClusterTerminate = statement.isTerminateCluster := by
  rw [readId, hr] at hid
  cases hid
  exact statement.isClusterTerminate_id

variable {b : Broker} {command : Command} {mode : Mode}

theorem Catalog.execute_shutdown {c : Catalog} {statement : Statement} {o : Outcome}
    (h : c.execute b command mode statement = .ok o) :
    o.1.shutdown = statement.isTerminateCluster := by
  rcases execute_cases h with ⟨topics, rfl, rfl⟩ | ⟨ht, h⟩
  · rfl
  · rw [ht]
    exact ((planStatement_sound statement).run_ok h).1

theorem Engine.apply_shutdown {e : Engine} {effect : Effect}
    (hid : Statement.readId command.payload.statement = .ok command.id)
    (h : (e.apply b command mode).1 = .ok effect) :
    effect.shutdown = command.id.isClusterTerminate := by
  rcases e.apply_cases b command mode with ⟨-, ha⟩ | ⟨f, ha⟩ |
    ⟨-, statement, effect', d, b', hr, -, hx, ha⟩
  · rw [ha] at h
    cases h
    rfl
  · rw [ha] at h
    cases h
  · rw [ha] at h
    cases h
    rw [Statement.isClusterTerminate_of_read hr hid]
    exact Catalog.execute_shutdown hx

theorem Engine.apply_terminateCluster {e : Engine} {topics : List String}
    (hs : Statement.read command.payload.statement = .ok (.terminateCluster topics))
    (hn : e.catalog.alreadyApplied command.id command.offset = false) (b : Broker) (mode : Mode) :
    e.apply b command mode =
      (.ok (e.catalog.terminateCluster b topics).1,
        e.publish ((e.catalog.terminateCluster b topics).2.1.recordApplied command),
        (e.catalog.terminateCluster b topics).2.2) := by
  have hp : e.catalog.perform b command mode =
      .ok ((e.catalog.terminateCluster b topics).1,
        (e.catalog.terminateCluster b topics).2.1.recordApplied command,
        (e.catalog.terminateCluster b topics).2.2) := by
    rw [Catalog.perform, hs]
    simp only [Statement.isTerminateCluster, Bool.not_true, Bool.and_false, Catalog.execute]
    rfl
  rw [apply, if_neg (by simp [hn]), hp]

end StatementLog
