import StatementLog.Proofs.Engine.Settling

namespace StatementLog

namespace Broker

def up (b : Broker) : Broker :=
  { b with available := true }

def assign (b : Broker) : Option (String × Bool) → Broker
  | none => b
  | some (topic, true) => b.addTopic topic
  | some (topic, false) => { b with topics := b.topics.erase topic }

theorem contains_assign (b : Broker) (a : Option (String × Bool)) (topic : String) :
    (b.assign a).topics.contains topic =
      match a with
      | none => b.topics.contains topic
      | some (t, present) => if t = topic then present else b.topics.contains topic := by
  rcases a with _ | ⟨t, _ | _⟩
  · rfl
  · simp only [assign, Std.ExtTreeSet.contains_erase]
    by_cases h : t = topic <;> simp [h]
  · simp only [assign, addTopic, Std.ExtTreeSet.contains_insert]
    by_cases h : t = topic <;> simp [h]

@[simp]
theorem available_assign (b : Broker) (a : Option (String × Bool)) :
    (b.assign a).available = b.available := by
  rcases a with _ | ⟨t, _ | _⟩ <;> rfl

@[simp]
theorem undeletable_assign (b : Broker) (a : Option (String × Bool)) :
    (b.assign a).undeletable = b.undeletable := by
  rcases a with _ | ⟨t, _ | _⟩ <;> rfl

end Broker

theorem Catalog.requireTopic_available {b : Broker} (hb : b.available = true) (t : String) :
    requireTopic b t = if b.topics.contains t then .ok () else .error (.noTopic t) := by
  simp only [requireTopic, Broker.topicExists, hb, if_true]
  cases b.topics.contains t <;> rfl

theorem Catalog.requireTopic_away {b : Broker} (hb : b.available = false) (t : String) :
    requireTopic b t = .error (.broker Broker.unreachable) := by
  simp only [requireTopic, Broker.topicExists, hb, Bool.false_eq_true, if_false]
  rfl

namespace Plan

def required? : Plan → Option String
  | require t _ _ => some t
  | _ => none

def change? (undeletable : Topics) : Plan → Option (String × Bool)
  | create t _ _ => some (t, true)
  | delete t _ _ => if undeletable.contains t then none else some (t, false)
  | _ => none

variable {p : Plan} {c : Catalog} {b b' : Broker}

theorem settle_error {f : Failure} (h : (p.settle c b).1 = .error f) :
    (p.settle c b).2 = (c, b) := by
  unfold settle at h ⊢
  cases hr : p.run b with
  | error r => rfl
  | ok o => simp [hr] at h

theorem settle_away (hb : b.available = false) :
    p.settle c b = (.error Broker.unreachable, c, b) ∨
      (p.settle c b).2.2 = b ∧
        p.settle c b.up = ((p.settle c b).1, (p.settle c b).2.1, b.up) := by
  cases p with
  | refuse r => exact .inr ⟨rfl, rfl⟩
  | accept e d => exact .inr ⟨rfl, rfl⟩
  | require t e d =>
    refine .inl ?_
    rw [settle, run, Catalog.requireTopic_away hb]
    rfl
  | create t e d =>
    refine .inl ?_
    rw [settle, run, Broker.createTopic, hb]
    rfl
  | delete t e d =>
    refine .inl ?_
    rw [settle, run, Broker.deleteTopic, hb]
    rfl

theorem settle_require (hb : b.available = true) (t : String) (e : Effect) (d : Catalog) :
    (require t e d).settle c b =
      if b.topics.contains t then (.ok e, d, b) else (.error (Refusal.noTopic t).failure, c, b) := by
  rw [settle, run, Catalog.requireTopic_available hb]
  cases b.topics.contains t <;> rfl

theorem settle_create (hb : b.available = true) (t : String) (e : Effect) (d : Catalog) :
    (create t e d).settle c b = (.ok e, d, b.addTopic t) := by
  rw [settle, run, Broker.createTopic, if_pos hb]
  rfl

theorem settle_delete (hb : b.available = true) (t : String) (e : Effect) (d : Catalog) :
    (delete t e d).settle c b =
      if b.undeletable.contains t then (.error (Broker.notAuthorized t), c, b)
      else (.ok e, d, { b with topics := b.topics.erase t }) := by
  rw [settle, run, Broker.deleteTopic, hb]
  cases b.undeletable.contains t <;> rfl

theorem settle_broker (hb : b.available = true) :
    (p.settle c b).2.2 = b.assign (p.change? b.undeletable) := by
  cases p with
  | refuse r => rfl
  | accept e d => rfl
  | require t e d =>
    rw [settle_require hb]
    split <;> rfl
  | create t e d =>
    rw [settle_create hb]
    rfl
  | delete t e d =>
    rw [settle_delete hb, change?]
    split <;> rfl

theorem settle_congr (hb : b.available = true) (hb' : b'.available = true)
    (hu : b'.undeletable = b.undeletable)
    (ht : ∀ t, p.required? = some t → b'.topics.contains t = b.topics.contains t) :
    (p.settle c b').1 = (p.settle c b).1 ∧ (p.settle c b').2.1 = (p.settle c b).2.1 := by
  cases p with
  | refuse r => exact ⟨rfl, rfl⟩
  | accept e d => exact ⟨rfl, rfl⟩
  | require t e d =>
    rw [settle_require hb, settle_require hb', ht t rfl]
    split <;> exact ⟨rfl, rfl⟩
  | create t e d =>
    rw [settle_create hb, settle_create hb']
    exact ⟨rfl, rfl⟩
  | delete t e d =>
    rw [settle_delete hb, settle_delete hb', hu]
    split <;> exact ⟨rfl, rfl⟩

end Plan

inductive Plan.Sound (c : Catalog) : Plan → Prop where
  | refuse {r : Refusal} : r.kind = .fatal → Sound c (.refuse r)
  | accept {e : Effect} {d : Catalog} : e.shutdown = false → d.applied = c.applied →
      Sound c (.accept e d)
  | require {t : String} {e : Effect} {d : Catalog} (s : Source) : c.source? s.name = none →
      d.sources = c.sources.insert s.name s → e.shutdown = false → d.applied = c.applied →
        Sound c (.require t e d)
  | create {t : String} {e : Effect} {d : Catalog} : e.shutdown = false →
      d.applied = c.applied → Sound c (.create t e d)
  | delete {t : String} {e : Effect} {d : Catalog} : e.shutdown = false →
      d.applied = c.applied → Sound c (.delete t e d)

namespace Catalog

variable {c : Catalog} {b : Broker} {command : Command} {mode : Mode}

theorem requireSources_fatal {ss : List String} {r : Refusal} (h : c.requireSources ss = .error r) :
    r.kind = .fatal := by
  induction ss with
  | nil => cases h
  | cons s ss ih =>
    rw [requireSources] at h
    split at h
    · exact ih h
    · cases h
      rfl

theorem planDropSource_sound (kind : SourceKind) (name : String) (ifExists deleteTopic : Bool) :
    (c.planDropSource kind name ifExists deleteTopic).Sound c := by
  unfold planDropSource
  split
  · split
    · exact .accept rfl rfl
    · exact .refuse rfl
  · split
    · exact .refuse rfl
    · split
      · exact .refuse rfl
      · split
        · exact .refuse rfl
        · simp only
          split
          · exact .delete rfl rfl
          · exact .accept rfl rfl

theorem planStatement_sound (statement : Statement) :
    (c.planStatement command mode statement).Sound c := by
  cases statement with
  | createSource kind name topic ifNotExists =>
    simp only [planStatement, planCreateSource]
    split
    · split
      · exact .accept rfl rfl
      · exact .refuse rfl
    · next hs => exact .require (newSource command kind name (topic.getD name)) hs rfl rfl rfl
  | createAsSelect kind name sources ifNotExists =>
    simp only [planStatement, planCreateAsSelect]
    split
    · split
      · exact .accept rfl rfl
      · exact .refuse rfl
    · split
      · exact .refuse (requireSources_fatal ‹_›)
      · exact .create rfl rfl
  | insertInto target sources =>
    simp only [planStatement, planInsertInto]
    split
    · exact .refuse rfl
    · split
      · exact .refuse rfl
      · split
        · exact .refuse (requireSources_fatal ‹_›)
        · exact .accept rfl rfl
  | dropSource kind name ifExists deleteTopic => exact planDropSource_sound ..
  | terminateQuery query =>
    simp only [planStatement, planTerminateQuery]
    split
    · exact .refuse rfl
    · exact .accept rfl rfl
  | terminateCluster topics => exact .refuse rfl

theorem plan_cases (c : Catalog) (command : Command) (mode : Mode) :
    (c.alreadyApplied command.id command.offset = true ∧
      c.plan command mode = .accept (Engine.replayedEffect command) c) ∨
    (c.alreadyApplied command.id command.offset = false ∧
      ∃ p : Plan, p.Sound c ∧ c.plan command mode = p.map fun d => d.recordApplied command) := by
  unfold plan
  cases c.alreadyApplied command.id command.offset with
  | true => exact .inl ⟨rfl, rfl⟩
  | false =>
    refine .inr ⟨rfl, ?_⟩
    simp only [Bool.false_eq_true, if_false]
    cases Statement.read command.payload.statement with
    | error fault => exact ⟨.refuse (.unreadable fault), .refuse rfl, rfl⟩
    | ok statement =>
      simp only
      split
      · exact ⟨.refuse .clusterTerminated, .refuse rfl, rfl⟩
      · exact ⟨_, planStatement_sound statement, rfl⟩

theorem settle_up (h : ∀ f, (c.settle b command).1 = .error f → f.kind ≠ .infrastructure) :
    c.settle b.up command =
      ((c.settle b command).1, (c.settle b command).2.1, (c.settle b command).2.2.up) := by
  cases hb : b.available with
  | true =>
    have hup : b.up = b := by rw [Broker.up, ← hb]
    have hav : (c.settle b command).2.2.available = true := by
      rw [settle, Plan.settle_broker hb, Broker.available_assign]
      exact hb
    have hafter : (c.settle b command).2.2.up = (c.settle b command).2.2 := by
      rw [Broker.up, ← hav]
    rw [hup, hafter]
  | false =>
    rcases Plan.settle_away (p := c.plan command .live) (c := c) hb with hs | ⟨hs, hu⟩
    · rw [settle, hs] at h
      exact absurd rfl (h _ rfl)
    · rw [settle, settle, hu, hs]

theorem settle_kind (hb : b.available = true) {f : Failure}
    (h : (c.settle b command).1 = .error f) :
    f.kind = .fatal ∨ f.kind = .transient ∧
      ∃ t, (c.plan command .live).required? = some t ∧ b.topics.contains t = false := by
  rw [settle] at h
  rcases plan_cases c command .live with ⟨-, hp⟩ | ⟨-, p, hs, hp⟩
  · rw [hp] at h
    cases h
  · rw [hp] at h ⊢
    cases hs with
    | refuse hr =>
      cases h
      exact .inl hr
    | accept _ _ => cases h
    | require s _ _ _ _ =>
      rw [Plan.map, Plan.settle_require hb] at h
      split at h
      · cases h
      · next ht =>
        cases h
        exact .inr ⟨rfl, _, rfl, Bool.eq_false_iff.2 ht⟩
    | create _ _ =>
      rw [Plan.map, Plan.settle_create hb] at h
      cases h
    | delete _ _ =>
      rw [Plan.map, Plan.settle_delete hb] at h
      split at h
      · cases h
        exact .inl rfl
      · cases h

theorem settle_sources_ne {b b' : Broker} (hb : b.available = true) (hb' : b'.available = true)
    {t : String} (ht : (c.plan command .live).required? = some t)
    (hn : b'.topics.contains t ≠ b.topics.contains t) :
    (c.settle b' command).2.1.sources ≠ (c.settle b command).2.1.sources := by
  rw [settle, settle]
  rcases plan_cases c command .live with ⟨-, hp⟩ | ⟨-, p, hs, hp⟩
  · rw [hp] at ht
    cases ht
  · rw [hp] at ht ⊢
    cases hs with
    | refuse _ => cases ht
    | accept _ _ => cases ht
    | create _ _ => cases ht
    | delete _ _ => cases ht
    | @require t' e d s hs hd _ _ =>
      cases ht
      have hne : (d.recordApplied command).sources ≠ c.sources := by
        intro he
        have hsome : (d.recordApplied command).sources[s.name]? = some s := by
          show d.sources[s.name]? = some s
          rw [hd, Std.ExtTreeMap.getElem?_insert_self]
        rw [he] at hsome
        exact absurd (hs.symm.trans hsome) (by simp)
      rw [Plan.map, Plan.settle_require hb, Plan.settle_require hb']
      cases hc : b.topics.contains t with
      | true =>
        rw [hc] at hn
        rw [Bool.eq_false_iff.2 hn]
        exact hne.symm
      | false =>
        rw [hc] at hn
        rw [eq_true_of_ne_false hn]
        exact hne

end Catalog

end StatementLog
