import StatementLog.Proofs.Node.Calls

namespace StatementLog

variable {π π' α β μ κ ε : Type}

/-- The sites are the same but for those who queue for the log, and for the calls on the executor,
of which the second site knows earlier ones. -/
def Site.Alike (earlier : List ExecutorCall) (s s' : Site μ κ ε) : Prop :=
  ∃ turns, s' = { s with calls := s.calls ++ earlier, node := { s.node with turns } }

structure Site.Stays (s s' : Site μ κ ε) : Prop where
  now : s'.now = s.now
  origin : s'.origin = s.origin
  tracker : s'.node.tracker = s.node.tracker
  executor : s'.node.executor = s.node.executor

def Move.Renders (earlier : List ExecutorCall) (s : Site μ κ ε) :
    Move (Site μ κ ε) π α → Move (Site μ κ ε) π α → Prop
  | .wait, .wait => True
  | .next t p, .next t' p' => p' = p ∧ t.Alike earlier t' ∧ s.Stays t
  | .done t r, .done t' r' => r' = r ∧ t.Alike earlier t' ∧ s.Stays t
  | _, _ => False

variable {earlier : List ExecutorCall}

theorem Site.Alike.log {s s' : Site μ κ ε} (h : s.Alike earlier s') : s'.log = s.log := by
  obtain ⟨turns, rfl⟩ := h
  rfl

theorem Move.Renders.next {s t : Site μ κ ε} {p : π} {m : Move (Site μ κ ε) π α}
    (h : (next t p).Renders earlier s m) : ∃ t', m = .next t' p ∧ t.Alike earlier t' := by
  cases m <;> try exact h.elim
  obtain ⟨rfl, ha, -⟩ := h
  exact ⟨_, rfl, ha⟩

theorem Move.Renders.done {s t : Site μ κ ε} {r : α} {m : Move (Site μ κ ε) π α}
    (h : (done t r).Renders earlier s m) : ∃ t', m = .done t' r ∧ t.Alike earlier t' := by
  cases m <;> try exact h.elim
  obtain ⟨rfl, ha, -⟩ := h
  exact ⟨_, rfl, ha⟩

theorem Move.Renders.within {s : Site μ κ ε} {m m' : Move (Site μ κ ε) π α} {wrap : π → π'}
    {finish finish' : Site μ κ ε → α → Move (Site μ κ ε) π' β} (h : m.Renders earlier s m')
    (hf : ∀ t t' r, t.Alike earlier t' → s.Stays t →
      (finish t r).Renders earlier s (finish' t' r)) :
    (m.within wrap finish).Renders earlier s (m'.within wrap finish') := by
  cases m <;> cases m' <;> try exact h.elim
  · trivial
  · obtain ⟨rfl, h⟩ := h
    exact ⟨rfl, h⟩
  · obtain ⟨rfl, ha, hs⟩ := h
    exact hf _ _ _ ha hs

theorem Move.Renders.ite {s : Site μ κ ε} {c c' : Prop} [Decidable c] [Decidable c']
    {m m' n n' : Move (Site μ κ ε) π α} (hc : c' ↔ c) (h : m.Renders earlier s m')
    (h' : n.Renders earlier s n') :
    (if c then m else n).Renders earlier s (if c' then m' else n') := by
  by_cases ht : c
  · rw [if_pos ht, if_pos (hc.2 ht)]
    exact h
  · rw [if_neg ht, if_neg (mt hc.1 ht)]
    exact h'

variable {s s' : Site μ κ ε}

theorem Awaiting.step_renders (stage : Awaiting) (h : s.Alike earlier s') :
    (stage.step s).Renders earlier s (stage.step s') := by
  obtain ⟨turns, rfl⟩ := h
  cases stage with
  | arriving handle timeout => exact ⟨rfl, ⟨_, rfl⟩, rfl, rfl, rfl, rfl⟩
  | waiting handle deadline =>
    simp only [step]
    split
    · exact ⟨rfl, ⟨_, rfl⟩, rfl, rfl, rfl, rfl⟩
    · exact ⟨rfl, ⟨_, rfl⟩, rfl, rfl, rfl, rfl⟩
    · split
      · exact ⟨rfl, ⟨_, rfl⟩, rfl, rfl, rfl, rfl⟩
      · trivial

theorem Following.step_renders (stage : Following) (h : s.Alike earlier s') :
    (stage.step s).Renders earlier s (stage.step s') := by
  cases stage with
  | registering slot timeout =>
    obtain ⟨turns, rfl⟩ := h
    exact ⟨rfl, ⟨_, rfl⟩, rfl, rfl, rfl, rfl⟩
  | testing handle timeout =>
    obtain ⟨turns, rfl⟩ := h
    refine .ite .rfl ?_ ?_ <;> exact ⟨rfl, ⟨_, rfl⟩, rfl, rfl, rfl, rfl⟩
  | awaiting stopped stage =>
    exact (stage.step_renders h).within fun t t' r ha hs => ⟨rfl, ha, hs⟩

theorem Joining.step_renders (stage : Joining) (h : s.Alike earlier s') :
    (stage.step s).Renders earlier s (stage.step s') := by
  obtain ⟨turns, rfl⟩ := h
  cases stage with
  | watching =>
    simp only [step]
    split
    · exact ⟨rfl, ⟨_, rfl⟩, rfl, rfl, rfl, rfl⟩
    · trivial
  | collecting =>
    simp only [step]
    split
    · exact ⟨rfl, ⟨_, rfl⟩, rfl, rfl, rfl, rfl⟩
    · trivial

theorem Retiring.step_renders (stage : Retiring) (h : s.Alike earlier s') :
    (stage.step s).Renders earlier s (stage.step s') := by
  obtain ⟨turns, rfl⟩ := h
  cases stage with
  | watching =>
    simp only [step]
    split
    · exact ⟨rfl, ⟨_, rfl⟩, rfl, rfl, rfl, rfl⟩
    · trivial
  | closingQueue => exact ⟨rfl, ⟨_, rfl⟩, rfl, rfl, rfl, rfl⟩
  | closingTracker => exact ⟨rfl, ⟨_, rfl⟩, rfl, rfl, rfl, rfl⟩

variable [CommandLog μ κ]

theorem Appending.step_renders (stage : Appending) (h : s.Alike earlier s') :
    (stage.step s).Renders earlier s (stage.step s') := by
  obtain ⟨turns, rfl⟩ := h
  cases stage with
  | writing id payload =>
    simp only [step]
    split <;> exact ⟨rfl, ⟨_, rfl⟩, rfl, rfl, rfl, rfl⟩
  | announcing offset => exact ⟨rfl, ⟨_, rfl⟩, rfl, rfl, rfl, rfl⟩

theorem Submitting.step_renders (stage : Submitting) (h : s.Alike earlier s') :
    (stage.step s).Renders earlier s (stage.step s') := by
  cases stage with
  | gate request =>
    obtain ⟨turns, rfl⟩ := h
    simp only [step]
    split <;> exact ⟨rfl, ⟨_, rfl⟩, rfl, rfl, rfl, rfl⟩
  | testing request =>
    obtain ⟨turns, rfl⟩ := h
    refine .ite .rfl ?_ ?_ <;> exact ⟨rfl, ⟨_, rfl⟩, rfl, rfl, rfl, rfl⟩
  | naming request =>
    obtain ⟨turns, rfl⟩ := h
    simp only [step]
    split <;> exact ⟨rfl, ⟨_, rfl⟩, rfl, rfl, rfl, rfl⟩
  | appending id stage =>
    refine (stage.step_renders h).within fun t t' r ha hs => ?_
    cases r <;> exact ⟨rfl, ha, hs⟩
  | marking slot =>
    obtain ⟨turns, rfl⟩ := h
    exact ⟨rfl, ⟨_, rfl⟩, rfl, rfl, rfl, rfl⟩

theorem Executing.step_renders (stage : Executing) (h : s.Alike earlier s') :
    (stage.step s).Renders earlier s (stage.step s') := by
  cases stage with
  | submitting stage timeout =>
    refine (stage.step_renders h).within fun t t' r ha hs => ?_
    cases r <;> exact ⟨rfl, ha, hs⟩
  | following stage =>
    exact (stage.step_renders h).within fun t t' r ha hs => ⟨rfl, ha, hs⟩

theorem Leaving.step_renders (stage : Leaving) (h : s.Alike earlier s') :
    (stage.step s).Renders earlier s (stage.step s') := by
  obtain ⟨turns, rfl⟩ := h
  cases stage <;> exact ⟨rfl, ⟨_, rfl⟩, rfl, rfl, rfl, rfl⟩

theorem Terminating.step_renders (stage : Terminating) (h : s.Alike earlier s') :
    (stage.step s).Renders earlier s (stage.step s') := by
  cases stage with
  | checking text =>
    obtain ⟨turns, rfl⟩ := h
    simp only [step]
    split
    · exact ⟨rfl, ⟨_, rfl⟩, rfl, rfl, rfl, rfl⟩
    · split <;> exact ⟨rfl, ⟨_, rfl⟩, rfl, rfl, rfl, rfl⟩
  | taking text =>
    obtain ⟨turns, rfl⟩ := h
    simp only [step]
    split <;> exact ⟨rfl, ⟨_, rfl⟩, rfl, rfl, rfl, rfl⟩
  | submitting stage =>
    refine (stage.step_renders h).within fun t t' r ha hs => ?_
    cases r <;> exact ⟨rfl, ha, hs⟩
  | registering slot | returning e =>
    obtain ⟨turns, rfl⟩ := h
    exact ⟨rfl, ⟨_, rfl⟩, rfl, rfl, rfl, rfl⟩
  | joining handle stage =>
    refine (stage.step_renders h).within fun t t' r ha hs => ?_
    cases r <;> exact ⟨rfl, ha, hs⟩
  | settling stage | leaving status stage =>
    exact (stage.step_renders h).within fun t t' r ha hs => ⟨rfl, ha, hs⟩

theorem Closing.step_renders (stage : Closing) (h : s.Alike earlier s') :
    (stage.step s).Renders earlier s (stage.step s') := by
  cases stage with
  | closingQueue =>
    obtain ⟨turns, rfl⟩ := h
    exact ⟨rfl, ⟨_, rfl⟩, rfl, rfl, rfl, rfl⟩
  | taking =>
    obtain ⟨turns, rfl⟩ := h
    simp only [step, Site.mapNode, Node.stop]
    split
    · exact ⟨rfl, ⟨_, rfl⟩, rfl, rfl, rfl, rfl⟩
    · split <;> exact ⟨rfl, ⟨_, rfl⟩, rfl, rfl, rfl, rfl⟩
  | collecting =>
    obtain ⟨turns, rfl⟩ := h
    simp only [step]
    split
    · exact ⟨rfl, ⟨_, rfl⟩, rfl, rfl, rfl, rfl⟩
    · trivial
  | leaving result stage =>
    exact (stage.step_renders h).within fun t t' r ha hs => ⟨rfl, ha, hs⟩

theorem Polling.step_renders (stage : Polling) {task task' : Nat} (h : s.Alike earlier s')
    (hturn : s'.node.hasTurn task' = s.node.hasTurn task) :
    (stage.step task s).Renders earlier s (stage.step task' s') := by
  obtain ⟨turns, rfl⟩ := h
  cases stage with
  | arriving timeout => exact ⟨rfl, ⟨_, rfl⟩, rfl, rfl, rfl, rfl⟩
  | queued timeout =>
    simp only [step, hturn]
    split
    · exact ⟨rfl, ⟨_, rfl⟩, rfl, rfl, rfl, rfl⟩
    · trivial
  | enlisting deadline => exact ⟨rfl, ⟨_, rfl⟩, rfl, rfl, rfl, rfl⟩
  | checking deadline epoch =>
    simp only [step, Site.check]
    split <;> exact ⟨rfl, ⟨_, rfl⟩, rfl, rfl, rfl, rfl⟩
  | reading deadline epoch =>
    simp only [step, Site.mapNode]
    split
    · exact ⟨rfl, ⟨_, rfl⟩, rfl, rfl, rfl, rfl⟩
    · split
      · exact ⟨rfl, ⟨_, rfl⟩, rfl, rfl, rfl, rfl⟩
      · refine .ite .rfl ?_ ?_ <;> exact ⟨rfl, ⟨_, rfl⟩, rfl, rfl, rfl, rfl⟩
    · exact ⟨rfl, ⟨_, rfl⟩, rfl, rfl, rfl, rfl⟩
  | waiting deadline epoch look =>
    refine .ite .rfl ⟨rfl, ⟨_, rfl⟩, rfl, rfl, rfl, rfl⟩ ?_
    cases look <;> exact .ite .rfl ⟨rfl, ⟨_, rfl⟩, rfl, rfl, rfl, rfl⟩ trivial

theorem Rewinding.step_renders (stage : Rewinding) {task task' : Nat} (h : s.Alike earlier s')
    (hturn : s'.node.hasTurn task' = s.node.hasTurn task) :
    (stage.step task s).Renders earlier s (stage.step task' s') := by
  obtain ⟨turns, rfl⟩ := h
  cases stage with
  | arriving =>
    simp only [step, Site.check]
    split <;> exact ⟨rfl, ⟨_, rfl⟩, rfl, rfl, rfl, rfl⟩
  | queued =>
    simp only [step, hturn]
    split
    · exact ⟨rfl, ⟨_, rfl⟩, rfl, rfl, rfl, rfl⟩
    · trivial

variable [Executor ε]

omit [CommandLog μ κ] in
theorem Applying.step_renders (a : Applying) (h : s.Alike earlier s') :
    (a.step s).Renders earlier s (a.step s') := by
  obtain ⟨turns, rfl⟩ := h
  obtain ⟨command, mode, transient, infrastructure, stage⟩ := a
  cases stage with
  | announcing | reporting status conclusion | advancing conclusion =>
    exact ⟨rfl, ⟨_, rfl⟩, rfl, rfl, rfl, rfl⟩
  | pausing wake =>
    simp only [step]
    split
    · exact ⟨rfl, ⟨_, rfl⟩, rfl, rfl, rfl, rfl⟩
    · split
      · exact ⟨rfl, ⟨_, rfl⟩, rfl, rfl, rfl, rfl⟩
      · trivial
  | trying =>
    simp only [step, attempt]
    generalize Executor.apply s.executor s.broker command mode = answer
    obtain ⟨r, executor, broker⟩ := answer
    cases r with
    | ok effect => exact ⟨rfl, ⟨_, rfl⟩, rfl, rfl, rfl, rfl⟩
    | error f =>
      simp only [afterFailure, Site.record]
      split <;> exact ⟨rfl, ⟨_, rfl⟩, rfl, rfl, rfl, rfl⟩

theorem Replaying.step_renders (stage : Replaying) {task task' : Nat} (h : s.Alike earlier s')
    (hturn : s'.node.hasTurn task' = s.node.hasTurn task) :
    (stage.step task s).Renders earlier s (stage.step task' s') := by
  cases stage with
  | starting =>
    obtain ⟨turns, rfl⟩ := h
    exact ⟨rfl, ⟨_, rfl⟩, rfl, rfl, rfl, rfl⟩
  | rewinding stage =>
    refine (stage.step_renders h hturn).within fun t t' r ha hs => ?_
    cases r <;> exact ⟨rfl, ha, hs⟩
  | measuring =>
    obtain ⟨turns, rfl⟩ := h
    simp only [step, Site.endPosition]
    generalize CommandLog.endPosition s.log s.node.client = answer
    obtain ⟨r, log⟩ := answer
    cases r <;> exact ⟨rfl, ⟨_, rfl⟩, rfl, rfl, rfl, rfl⟩
  | fetching limit backlog =>
    obtain ⟨turns, rfl⟩ := h
    refine .ite .rfl (.ite .rfl ?_ ?_) ?_ <;> exact ⟨rfl, ⟨_, rfl⟩, rfl, rfl, rfl, rfl⟩
  | polling limit backlog stage =>
    refine (stage.step_renders h hturn).within fun t t' r ha hs => ?_
    obtain ⟨turns, rfl⟩ := ha
    cases r <;> exact ⟨rfl, ⟨_, rfl⟩, hs.now, hs.origin, hs.tracker, hs.executor⟩
  | sorting limit backlog =>
    obtain ⟨turns, rfl⟩ := h
    simp only [step]
    split <;> exact ⟨rfl, ⟨_, rfl⟩, rfl, rfl, rfl, rfl⟩
  | terminating limit a =>
    refine (a.step_renders h).within fun t t' r ha hs => ?_
    obtain ⟨turns, rfl⟩ := ha
    cases r <;> exact ⟨rfl, ⟨_, rfl⟩, hs.now, hs.origin, hs.tracker, hs.executor⟩
  | resuming rest replayed =>
    obtain ⟨turns, rfl⟩ := h
    cases rest <;> exact ⟨rfl, ⟨_, rfl⟩, rfl, rfl, rfl, rfl⟩
  | applying rest replayed a =>
    refine (a.step_renders h).within fun t t' r ha hs => ?_
    cases r <;> exact ⟨rfl, ha, hs⟩
  | finishing replayed =>
    obtain ⟨turns, rfl⟩ := h
    simp only [step]
    split <;> exact ⟨rfl, ⟨_, rfl⟩, rfl, rfl, rfl, rfl⟩

theorem Running.step_renders (stage : Running) {task task' : Nat} (h : s.Alike earlier s')
    (hturn : s'.node.hasTurn task' = s.node.hasTurn task) :
    (stage.step task s).Renders earlier s (stage.step task' s') := by
  have haborted : s'.node.runner.aborted = s.node.runner.aborted := by
    obtain ⟨turns, rfl⟩ := h
    rfl
  rw [step.eq_def, step.eq_def, haborted]
  split
  · obtain ⟨turns, rfl⟩ := h
    exact ⟨rfl, ⟨_, rfl⟩, rfl, rfl, rfl, rfl⟩
  cases stage with
  | starting =>
    obtain ⟨turns, rfl⟩ := h
    simp only
    split <;> exact ⟨rfl, ⟨_, rfl⟩, rfl, rfl, rfl, rfl⟩
  | idle =>
    obtain ⟨turns, rfl⟩ := h
    simp only
    split
    · exact ⟨rfl, ⟨_, rfl⟩, rfl, rfl, rfl, rfl⟩
    · split <;> exact ⟨rfl, ⟨_, rfl⟩, rfl, rfl, rfl, rfl⟩
  | polling stage =>
    have hstop : s'.node.runner.stopRequested = s.node.runner.stopRequested := by
      obtain ⟨turns, rfl⟩ := h
      rfl
    simp only [hstop]
    split
    · obtain ⟨turns, rfl⟩ := h
      exact ⟨rfl, ⟨_, rfl⟩, rfl, rfl, rfl, rfl⟩
    · refine (stage.step_renders h hturn).within fun t t' r ha hs => ?_
      cases r <;> exact ⟨rfl, ha, hs⟩
  | batch rest =>
    obtain ⟨turns, rfl⟩ := h
    cases rest with
    | nil => exact ⟨rfl, ⟨_, rfl⟩, rfl, rfl, rfl, rfl⟩
    | cons c rest =>
      simp only
      split <;> exact ⟨rfl, ⟨_, rfl⟩, rfl, rfl, rfl, rfl⟩
  | applying rest a =>
    refine (a.step_renders h).within fun t t' r ha hs => ?_
    cases r with
    | applied effect =>
      obtain ⟨turns, rfl⟩ := ha
      simp only
      split <;> exact ⟨rfl, ⟨_, rfl⟩, hs.now, hs.origin, hs.tracker, hs.executor⟩
    | _ => exact ⟨rfl, ha, hs⟩
  | stopping result =>
    obtain ⟨turns, rfl⟩ := h
    exact ⟨rfl, ⟨_, rfl⟩, rfl, rfl, rfl, rfl⟩

theorem Starting.step_renders (stage : Starting) {task task' : Nat} (h : s.Alike earlier s')
    (hturn : s'.node.hasTurn task' = s.node.hasTurn task) :
    (stage.step task s).Renders earlier s (stage.step task' s') := by
  cases stage with
  | checking parts =>
    obtain ⟨turns, rfl⟩ := h
    simp only [step]
    split
    · exact ⟨rfl, ⟨_, rfl⟩, rfl, rfl, rfl, rfl⟩
    · split <;> exact ⟨rfl, ⟨_, rfl⟩, rfl, rfl, rfl, rfl⟩
  | probing broker =>
    obtain ⟨turns, rfl⟩ := h
    simp only [step, Site.endPosition]
    generalize CommandLog.endPosition s.log s.node.client = answer
    obtain ⟨r, log⟩ := answer
    cases r with
    | error e => exact ⟨rfl, ⟨_, rfl⟩, rfl, rfl, rfl, rfl⟩
    | ok n =>
      simp only
      split <;> exact ⟨rfl, ⟨_, rfl⟩, rfl, rfl, rfl, rfl⟩
  | provisioning broker =>
    obtain ⟨turns, rfl⟩ := h
    simp only [step, enqueue]
    split
    · exact ⟨rfl, ⟨_, rfl⟩, rfl, rfl, rfl, rfl⟩
    · split <;> exact ⟨rfl, ⟨_, rfl⟩, rfl, rfl, rfl, rfl⟩
  | creatingTopic =>
    obtain ⟨turns, rfl⟩ := h
    simp only [step, enqueue]
    split <;> exact ⟨rfl, ⟨_, rfl⟩, rfl, rfl, rfl, rfl⟩
  | enqueuing stage =>
    refine (stage.step_renders h).within fun t t' r ha hs => ?_
    cases r <;> exact ⟨rfl, ha, hs⟩
  | replaying stage =>
    refine (stage.step_renders h hturn).within fun t t' r ha hs => ?_
    rcases r with e | ⟨n⟩ | e | _ <;> exact ⟨rfl, ha, hs⟩
  | opening n | launching n | refusing error =>
    obtain ⟨turns, rfl⟩ := h
    exact ⟨rfl, ⟨_, rfl⟩, rfl, rfl, rfl, rfl⟩

theorem Activity.Calls.step_renders {a : Activity} (hc : a.Calls) (task task' : Nat)
    (h : s.Alike earlier s') :
    (a.step task s).Renders earlier s (a.step task' s') := by
  cases a with
  | submitting stage | following stage | executing stage | terminating stage | closing stage
  | retiring stage =>
    exact (stage.step_renders h).within fun t t' r ha hs => ⟨rfl, ha, hs⟩
  | probing =>
    obtain ⟨turns, rfl⟩ := h
    exact ⟨rfl, ⟨_, rfl⟩, rfl, rfl, rfl, rfl⟩
  | watching state =>
    obtain ⟨turns, rfl⟩ := h
    simp only [step]
    split
    · exact ⟨rfl, ⟨_, rfl⟩, rfl, rfl, rfl, rfl⟩
    · split
      · exact ⟨rfl, ⟨_, rfl⟩, rfl, rfl, rfl, rfl⟩
      · trivial
  | sleeping wake =>
    obtain ⟨turns, rfl⟩ := h
    simp only [step]
    split
    · exact ⟨rfl, ⟨_, rfl⟩, rfl, rfl, rfl, rfl⟩
    · trivial
  | _ => exact hc.elim

def Activity.Serves : Activity → Prop
  | starting _ | running _ => True
  | a => a.Calls

namespace Activity

variable {a : Activity}

omit [CommandLog μ κ] [Executor ε] in
theorem Calls.serves (h : a.Calls) : a.Serves := by
  cases a with
  | starting stage | running stage => trivial
  | _ => exact h

omit [CommandLog μ κ] [Executor ε] in
theorem Serves.cases (h : a.Serves) :
    (∃ stage, a = starting stage) ∨ (∃ stage, a = running stage) ∨ a.Calls := by
  cases a with
  | starting stage => exact .inl ⟨stage, rfl⟩
  | running stage => exact .inr (.inl ⟨stage, rfl⟩)
  | _ => exact .inr (.inr h)

theorem Serves.step_renders (h : a.Serves) {task task' : Nat} (hs : s.Alike earlier s')
    (hturn : s'.node.hasTurn task' = s.node.hasTurn task) :
    (a.step task s).Renders earlier s (a.step task' s') := by
  rcases h.cases with ⟨stage, rfl⟩ | ⟨stage, rfl⟩ | hc
  · exact (stage.step_renders hs hturn).within fun t t' r ha hs => ⟨rfl, ha, hs⟩
  · exact (stage.step_renders hs hturn).within fun t t' r ha hs => ⟨rfl, ha, hs⟩
  · exact hc.step_renders task task' hs

theorem Serves.step_stays (h : a.Serves) (task : Nat) : (a.step task s).Holds s.Stays := by
  have hrefl : s.Alike [] s := ⟨s.node.turns, by rw [List.append_nil]⟩
  have hm := h.step_renders hrefl (rfl : s.node.hasTurn task = s.node.hasTurn task)
  cases hs : a.step task s with
  | wait => trivial
  | next t a' | done t r =>
    rw [hs] at hm
    exact hm.2.2

end Activity

end StatementLog
