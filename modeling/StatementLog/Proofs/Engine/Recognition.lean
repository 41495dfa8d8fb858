import StatementLog.Proofs.Engine.Topics

namespace StatementLog

theorem Plan.Sound.run_ok {c : Catalog} {p : Plan} {b : Broker} (h : p.Sound c)
    {o : Catalog.Outcome} (hr : p.run b = .ok o) :
    o.1.shutdown = false ∧ o.2.1.applied = c.applied := by
  cases h with
  | refuse _ => cases hr
  | accept he hd =>
    cases hr
    exact ⟨he, hd⟩
  | @require t e d s _ _ he hd =>
    rw [run] at hr
    cases hq : Catalog.requireTopic b t with
    | error r => simp [hq, Except.map] at hr
    | ok u =>
      rw [hq] at hr
      cases hr
      exact ⟨he, hd⟩
  | @create t e d he hd =>
    rw [run] at hr
    cases hq : b.createTopic t with
    | error f =>
      rw [hq] at hr
      cases hr
    | ok b' =>
      rw [hq] at hr
      cases hr
      exact ⟨he, hd⟩
  | @delete t e d he hd =>
    rw [run] at hr
    cases hq : b.deleteTopic t with
    | error f =>
      rw [hq] at hr
      cases hr
    | ok b' =>
      rw [hq] at hr
      cases hr
      exact ⟨he, hd⟩

namespace Catalog

variable {c : Catalog} {b : Broker} {command : Command}

theorem settle_again (h : c.alreadyApplied command.id command.offset = true) :
    c.settle b command = (.ok (Engine.replayedEffect command), c, b) := by
  rw [settle, plan, if_pos h]
  rfl

theorem settle_new (h : c.alreadyApplied command.id command.offset = false) {e : Effect}
    (hs : (c.settle b command).1 = .ok e) :
    e.shutdown = false ∧
      ∃ d : Catalog, d.applied = c.applied ∧ (c.settle b command).2.1 = d.recordApplied command := by
  rcases plan_cases c command .live with ⟨hn, -⟩ | ⟨-, p, hp, he⟩
  · rw [h] at hn
    cases hn
  · rw [settle, he, Plan.settle, Plan.run_map] at hs ⊢
    cases hr : p.run b with
    | error r =>
      rw [hr] at hs
      cases hs
    | ok o =>
      rw [hr] at hs
      cases hs
      obtain ⟨he, hd⟩ := hp.run_ok hr
      exact ⟨he, o.2.1, hd, rfl⟩

theorem settle_shutdown (hid : command.id.isClusterTerminate = false) {e : Effect}
    (hs : (c.settle b command).1 = .ok e) : e.shutdown = false := by
  cases hn : c.alreadyApplied command.id command.offset with
  | true =>
    rw [settle_again hn] at hs
    cases hs
    exact hid
  | false => exact (settle_new hn hs).1

theorem alreadyApplied_recordApplied (c : Catalog) (command : Command) (id : CommandId)
    (n : Nat) :
    (c.recordApplied command).alreadyApplied id n =
      if command.id = id then decide (n ≤ command.offset) else c.alreadyApplied id n := by
  simp only [alreadyApplied, recordApplied, Std.ExtTreeMap.getElem?_insert]
  by_cases h : command.id = id <;> simp [h]

theorem alreadyApplied_congr {c d : Catalog} (h : d.applied = c.applied) (id : CommandId)
    (n : Nat) : d.alreadyApplied id n = c.alreadyApplied id n := by
  rw [alreadyApplied, alreadyApplied, h]

theorem alreadyApplied_of_ok {e : Effect} (h : (c.settle b command).1 = .ok e) :
    (c.settle b command).2.1.alreadyApplied command.id command.offset = true := by
  cases hn : c.alreadyApplied command.id command.offset with
  | true =>
    rw [settle_again hn]
    exact hn
  | false =>
    obtain ⟨-, d, -, hd⟩ := settle_new hn h
    rw [hd, alreadyApplied_recordApplied]
    simp

theorem alreadyApplied_settle {id : CommandId} {n : Nat} (h : c.alreadyApplied id n = true) :
    (c.settle b command).2.1.alreadyApplied id n = true := by
  cases hr : (c.settle b command).1 with
  | error f =>
    have hs := Plan.settle_error (p := c.plan command .live) hr
    rw [settle, hs]
    exact h
  | ok e =>
    cases hn : c.alreadyApplied command.id command.offset with
    | true =>
      rw [settle_again hn]
      exact h
    | false =>
      obtain ⟨-, d, hd, he⟩ := settle_new hn hr
      rw [he, alreadyApplied_recordApplied]
      split
      · next hid =>
        -- the offset noted before is below the one noted now
        subst hid
        simp only [alreadyApplied] at h hn
        cases ha : c.applied[command.id]? with
        | none => simp [ha] at h
        | some m =>
          simp only [ha, decide_eq_true_eq, decide_eq_false_iff_not] at h hn ⊢
          omega
      · rw [alreadyApplied_congr hd]
        exact h

end Catalog

end StatementLog
