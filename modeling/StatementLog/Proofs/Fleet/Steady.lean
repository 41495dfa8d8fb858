import StatementLog.Proofs.Engine.Alone

namespace StatementLog

theorem Broker.assign_assign (b : Broker) (a : Option (String × Bool)) :
    (b.assign a).assign a = b.assign a := by
  have htopics (topic : String) : ((b.assign a).assign a).topics.contains topic =
      (b.assign a).topics.contains topic := by
    rw [contains_assign, contains_assign]
    rcases a with _ | ⟨t, p⟩
    · rfl
    · by_cases h : t = topic <;> simp [h]
  have heq : ((b.assign a).assign a).topics = (b.assign a).topics := by
    refine Std.ExtTreeSet.ext_contains ?_
    exact fun {topic} => htopics topic
  rcases a with _ | ⟨t, _ | _⟩
  · rfl
  · exact congrArg (fun topics => { b with topics }) heq
  · exact congrArg (fun topics => { b with topics }) heq

theorem Plan.required?_of_change? {p : Plan} {undeletable : Topics} {a : String × Bool}
    (h : p.change? undeletable = some a) : p.required? = none := by
  cases p with
  | require _ _ _ => cases h
  | _ => rfl

theorem Catalog.settle_twice {c : Catalog} {b : Broker} {command : Command}
    (hb : b.available = true) :
    (c.settle (c.settle b command).2.2 command).2 = (c.settle b command).2 := by
  have hafter : (c.settle b command).2.2 =
      b.assign ((c.plan command .live).change? b.undeletable) := Plan.settle_broker hb
  cases ha : (c.plan command .live).change? b.undeletable with
  | none =>
    rw [ha] at hafter
    rw [hafter]
    rfl
  | some a =>
    rw [ha] at hafter
    have hb' : (b.assign (some a)).available = true := (b.available_assign _).trans hb
    obtain ⟨-, hc⟩ := Plan.settle_congr (p := c.plan command .live) (c := c) hb hb'
      (b.undeletable_assign _) (fun t ht => by
        rw [Plan.required?_of_change? ha] at ht
        cases ht)
    have hagain := Plan.settle_broker (p := c.plan command .live) (c := c) hb'
    rw [Broker.undeletable_assign, ha, Broker.assign_assign] at hagain
    rw [hafter]
    exact Prod.ext hc (hagain.trans hafter.symm)

variable (view : Nat → Option Command) (c : Catalog) (b : Broker)

def Needs (n : Nat) (topic : String) : Prop :=
  ∃ command, view n = some command ∧
    ((alone view c b n).1.plan command .live).required? = some topic

def Changes (n : Nat) (topic : String) (present : Bool) : Prop :=
  ∃ command, view n = some command ∧
    ((alone view c b n).1.plan command .live).change? b.undeletable = some (topic, present)

def Fixed (topic : String) (present : Bool) : Prop :=
  ∀ n p, Changes view c b n topic p → p = present

/-- No command of the log, early or late, makes or deletes a topic otherwise than a command that
needs it finds it. -/
def Steady : Prop :=
  ∀ n m topic present, Needs view c b n topic → Changes view c b m topic present →
    (alone view c b n).2.topics.contains topic = present

variable {view c b} {n : Nat}

theorem alone_succ_broker (hb : b.available = true) {command : Command}
    (hv : view n = some command) :
    (alone view c b (n + 1)).2 = (alone view c b n).2.assign
      (((alone view c b n).1.plan command .live).change? b.undeletable) := by
  rw [alone_succ hv, Catalog.settle, Plan.settle_broker (alone_available hb n),
    alone_undeletable hb]

theorem contains_alone (hb : b.available = true) (n : Nat) (topic : String) :
    (alone view c b n).2.topics.contains topic = b.topics.contains topic ∨
      ∃ m < n, ∃ present, Changes view c b m topic present := by
  induction n with
  | zero => exact .inl rfl
  | succ n ih =>
    rcases ih with ih | ⟨m, hm, hc⟩
    · cases hv : view n with
      | none =>
        rw [alone, hv]
        exact .inl ih
      | some command =>
        rw [alone_succ_broker hb hv, Broker.contains_assign]
        split
        · exact .inl ih
        · next t present ha =>
          by_cases ht : t = topic
          · subst ht
            exact .inr ⟨n, Nat.lt_succ_self n, present, command, hv, ha⟩
          · rw [if_neg ht]
            exact .inl ih
    · exact .inr ⟨m, Nat.lt_succ_of_lt hm, hc⟩

theorem settle_alone {b' : Broker} (hb : b.available = true) (hb' : b'.available = true)
    (hu : b'.undeletable = b.undeletable) {command : Command} (hv : view n = some command)
    (ht : ∀ topic, Needs view c b n topic →
      b'.topics.contains topic = (alone view c b n).2.topics.contains topic) :
    ((alone view c b n).1.settle b' command).2 = ((alone view c b (n + 1)).1,
      b'.assign (((alone view c b n).1.plan command .live).change? b.undeletable)) := by
  have hun : b'.undeletable = (alone view c b n).2.undeletable :=
    hu.trans (alone_undeletable hb n).symm
  have hc := (Plan.settle_congr (p := (alone view c b n).1.plan command .live)
    (c := (alone view c b n).1) (alone_available hb n) hb' hun
    (fun t hr => ht t ⟨command, hv, hr⟩)).2
  refine Prod.ext ?_ ?_
  · rw [alone_succ hv]
    exact hc
  · rw [Catalog.settle, Plan.settle_broker hb', hu]

theorem contains_assign_fixed {b' : Broker} {command : Command} (hv : view n = some command)
    {topic : String} {present : Bool} (hf : Fixed view c b topic present)
    (h : b'.topics.contains topic = present ∨ Changes view c b n topic present) :
    (b'.assign (((alone view c b n).1.plan command .live).change? b.undeletable)).topics.contains
      topic = present := by
  rw [Broker.contains_assign]
  split
  · next ha =>
    rcases h with h | ⟨d, hd, hc⟩
    · exact h
    · cases hv.symm.trans hd
      cases ha.symm.trans hc
  · next t p ha =>
    by_cases ht : t = topic
    · subst ht
      rw [if_pos rfl]
      exact hf n p ⟨command, hv, ha⟩
    · rw [if_neg ht]
      rcases h with h | ⟨d, hd, hc⟩
      · exact h
      · cases hv.symm.trans hd
        cases ha.symm.trans hc
        exact absurd rfl ht

end StatementLog
