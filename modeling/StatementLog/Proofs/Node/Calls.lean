import StatementLog.Node.Activity
import StatementLog.Proofs.Log.Writing
import StatementLog.Proofs.Runner.Aside
import StatementLog.Proofs.Tracker.Delivery

namespace StatementLog

variable {μ κ ε : Type}

variable [CommandLog μ κ] [LawfulLog μ]

theorem Grows.refl {m : μ} (h : LawfulLog.size m ≤ Word.max) : Grows m m :=
  ⟨Nat.le_refl _, fun _ => rfl, h⟩

namespace Site

structure Abroad (s s' : Site μ κ ε) : Prop extends s.Drift s' where
  ready : s'.node.queue.ready = true → s.node.queue.ready = true
  tracker : s'.tracker = s.tracker

structure Serves (s s' : Site μ κ ε) : Prop extends s.Drift s' where
  ready : s'.node.queue.ready = true → s.node.queue.ready = true
  tracker : Tracker.Use s.tracker s'.tracker

def Bears (s s' : Site μ κ ε) : Prop :=
  LawfulLog.size s'.log ≤ Word.max → s.Serves s'

variable {s s' s'' : Site μ κ ε}

theorem Bears.of_stop (hl : LawfulLog.size s'.log ≤ Word.max → Grows s.log s'.log)
    (hp : s'.position = s.position) (hc : s'.calls = s.calls) {stop : Bool}
    (hr : s'.node.runner = { s.node.runner with stopRequested := stop })
    (hs : s.node.runner.stopRequested = true → stop = true)
    (hq : s'.node.queue.ready = true → s.node.queue.ready = true)
    (ht : Tracker.Use s.tracker s'.tracker) : s.Bears s' := by
  intro hb
  refine ⟨⟨hl hb, hp, hc, ?_, ?_, ?_, ?_, ?_, ?_⟩, hq, ht⟩
  all_goals rw [hr]
  exact hs

theorem Bears.of_grows (hl : LawfulLog.size s'.log ≤ Word.max → Grows s.log s'.log)
    (hp : s'.position = s.position) (hc : s'.calls = s.calls)
    (hr : s'.node.runner = s.node.runner)
    (hq : s'.node.queue.ready = true → s.node.queue.ready = true)
    (ht : Tracker.Use s.tracker s'.tracker) : s.Bears s' :=
  .of_stop hl hp hc hr id hq ht

theorem Bears.of_node (hl : s'.log = s.log) (hp : s'.position = s.position)
    (hc : s'.calls = s.calls) (hr : s'.node.runner = s.node.runner)
    (hq : s'.node.queue.ready = true → s.node.queue.ready = true)
    (ht : Tracker.Use s.tracker s'.tracker) : s.Bears s' := by
  refine .of_grows (fun hb => ?_) hp hc hr hq ht
  rw [hl] at hb ⊢
  exact .refl hb

theorem Bears.rfl : s.Bears s :=
  .of_node (.refl _) (.refl _) (.refl _) (.refl _) id (.none _)

theorem Bears.stop (s : Site μ κ ε) : s.Bears (s.mapNode Node.stop) := by
  cases hs : s.node.spawned with
  | true =>
    have hn : s.mapNode Node.stop = s.mapNode Node.requestStop := by
      simp [mapNode, Node.stop, hs]
    rw [hn]
    exact .of_stop .refl (.refl _) (.refl _) (.refl _) (fun _ => .refl _) id (.none _)
  | false =>
    have hn : s.mapNode Node.stop = s := by
      simp [mapNode, Node.stop, hs]
    rw [hn]
    exact .rfl

end Site

variable {s : Site μ κ ε} [WritableLog μ]

theorem grows_announce {m : μ} {k : κ} (h : LawfulLog.size (CommandLog.announce m k) ≤ Word.max) :
    Grows m (CommandLog.announce m k) :=
  ⟨Nat.le_of_eq (WritableLog.size_announce m k).symm,
    fun _ => congrFun (WritableLog.command?_announce m k) _, h⟩

omit [WritableLog μ] in
theorem Site.endPosition_bears (s : Site μ κ ε) : s.Bears s.endPosition.2 :=
  .of_grows (fun hb => ⟨Nat.le_of_eq (LawfulLog.size_endPosition s.log s.node.client).symm,
    fun _ => LawfulLog.command?_endPosition s.log s.node.client _, hb⟩) rfl rfl rfl id (.none _)

theorem Appending.step_bears (stage : Appending) : (stage.step s).Holds s.Bears := by
  cases stage with
  | writing name payload =>
    rw [step]
    split
    · next he =>
      obtain ⟨hsize, hview⟩ := WritableLog.append_error he
      exact .of_grows (fun hb => ⟨Nat.le_of_eq hsize.symm, fun _ => congrFun hview _, hb⟩)
        rfl rfl rfl id (.none _)
    · next he =>
      obtain ⟨rfl, hsize, hview, -⟩ := WritableLog.append_ok he
      exact .of_grows (fun hb => ⟨by rw [hsize]; exact Nat.le_succ _, hview _, hb⟩)
        rfl rfl rfl id (.none _)
  | announcing offset => exact .of_grows grows_announce rfl rfl rfl id (.none _)

omit [WritableLog μ] in
theorem Awaiting.step_bears (stage : Awaiting) : (stage.step s).Holds s.Bears := by
  cases stage with
  | arriving handle timeout => exact .rfl
  | waiting handle deadline =>
    rw [step]
    split
    · exact .rfl
    · exact .rfl
    · split
      · exact .of_node rfl rfl rfl rfl id (.evict _ _)
      · trivial

omit [WritableLog μ] in
theorem Following.step_bears (stage : Following) : (stage.step s).Holds s.Bears := by
  cases stage with
  | registering slot timeout => exact .of_node rfl rfl rfl rfl id (.register _ _)
  | testing handle timeout =>
    rw [step]
    split <;> exact .rfl
  | awaiting stopped stage => exact (stage.step_bears).within fun _ _ h => h

theorem Submitting.step_bears (stage : Submitting) : (stage.step s).Holds s.Bears := by
  cases stage with
  | gate request =>
    rw [step]
    split <;> exact .rfl
  | testing request =>
    rw [step]
    split
    · exact .of_node rfl rfl rfl rfl (fun h => nomatch h) (.none _)
    · exact .rfl
  | naming request =>
    rw [step]
    split <;> exact .rfl
  | appending id stage =>
    refine (stage.step_bears).within fun s' r h => ?_
    cases r <;> exact h
  | marking slot => exact .of_node rfl rfl rfl rfl id (.queued _ _)

theorem Executing.step_bears (stage : Executing) : (stage.step s).Holds s.Bears := by
  cases stage with
  | submitting stage timeout =>
    refine (stage.step_bears).within fun s' r h => ?_
    cases r <;> exact h
  | following stage => exact (stage.step_bears).within fun _ _ h => h

omit [WritableLog μ] in
theorem Joining.step_bears (stage : Joining) : (stage.step s).Holds s.Bears := by
  cases stage with
  | watching =>
    rw [step]
    split
    · exact .rfl
    · trivial
  | collecting =>
    rw [step]
    split
    · exact .rfl
    · trivial

omit [WritableLog μ] in
theorem Retiring.step_bears (stage : Retiring) : (stage.step s).Holds s.Bears := by
  cases stage with
  | watching =>
    rw [step]
    split
    · exact .rfl
    · trivial
  | closingQueue => exact .of_node rfl rfl rfl rfl (fun h => nomatch h) (.none _)
  | closingTracker => exact .of_node rfl rfl rfl rfl id (.close _)

theorem Leaving.step_bears (stage : Leaving) : (stage.step s).Holds s.Bears := by
  cases stage with
  | closingQueue => exact .of_node rfl rfl rfl rfl (fun h => nomatch h) (.none _)
  | closingTracker => exact .of_node rfl rfl rfl rfl id (.close _)
  | closingLog =>
    exact .of_grows grows_announce (WritableLog.position_close s.node.client) rfl rfl id (.none _)

theorem Terminating.step_bears (stage : Terminating) : (stage.step s).Holds s.Bears := by
  cases stage with
  | checking text =>
    rw [step]
    split
    · exact .rfl
    · split <;> exact .rfl
  | taking text =>
    rw [step]
    split
    · exact .of_node rfl rfl rfl rfl id (.none _)
    · exact .rfl
  | submitting stage =>
    refine (stage.step_bears).within fun s' r h => ?_
    cases r <;> exact h
  | registering slot => exact .of_node rfl rfl rfl rfl id (.register _ _)
  | returning e => exact .of_node rfl rfl rfl rfl id (.none _)
  | joining handle stage =>
    refine (stage.step_bears).within fun s' r h => ?_
    cases r <;> exact h
  | settling stage => exact (stage.step_bears).within fun _ _ h => h
  | leaving status stage => exact (stage.step_bears).within fun _ _ h => h

theorem Closing.step_bears (stage : Closing) : (stage.step s).Holds s.Bears := by
  cases stage with
  | closingQueue => exact .of_node rfl rfl rfl rfl (fun h => nomatch h) (.none _)
  | taking =>
    rw [step]
    split
    · exact .of_stop .refl rfl rfl rfl (fun _ => rfl) id (.none _)
    · exact .stop s
  | collecting =>
    rw [step]
    split
    · exact .rfl
    · trivial
  | leaving result stage => exact (stage.step_bears).within fun _ _ h => h

namespace Activity

def IsCall : Activity → Prop
  | submitting (.gate _) => True
  | following (.registering _ _) => True
  | executing (.submitting (.gate _) _) => True
  | terminating (.checking _) => True
  | closing .closingQueue => True
  | probing => True
  | watching _ => True
  | sleeping _ => True
  | retiring .watching => True
  | _ => False

def Calls : Activity → Prop
  | submitting _ | following _ | executing _ | terminating _ | closing _ | probing | watching _
  | sleeping _ | retiring _ => True
  | _ => False

theorem IsCall.calls {a : Activity} (h : a.IsCall) : a.Calls := by
  cases a with
  | submitting _ | following _ | executing _ | terminating _ | closing _ | probing | watching _
  | sleeping _ | retiring _ => trivial
  | _ => exact h.elim

variable [Executor ε] {a : Activity}

theorem step_bears (h : a.Calls) (task : Nat) : (a.step task s).Holds s.Bears := by
  cases a with
  | submitting stage => exact (stage.step_bears).within fun _ _ h => h
  | following stage => exact (stage.step_bears).within fun _ _ h => h
  | executing stage => exact (stage.step_bears).within fun _ _ h => h
  | terminating stage => exact (stage.step_bears).within fun _ _ h => h
  | closing stage => exact (stage.step_bears).within fun _ _ h => h
  | retiring stage => exact (stage.step_bears).within fun _ _ h => h
  | probing => exact s.endPosition_bears
  | watching state =>
    rw [step]
    split
    · exact .rfl
    · split
      · exact .rfl
      · trivial
  | sleeping wake =>
    rw [step]
    split
    · exact .rfl
    · trivial
  | _ => exact h.elim

omit [LawfulLog μ] [WritableLog μ] in
theorem calls_next {s' : Site μ κ ε} {a' : Activity} {task : Nat} (h : a.Calls)
    (hs : a.step task s = .next s' a') : a'.Calls := by
  cases a with
  | submitting stage | following stage | executing stage | terminating stage | closing stage
  | retiring stage =>
    rcases Move.within_next hs with ⟨stage', -, rfl⟩ | ⟨s', r, -, hs⟩
    · trivial
    · cases hs
  | probing => cases hs
  | watching state =>
    rw [step] at hs
    split at hs
    · cases hs
    · split at hs <;> cases hs
  | sleeping wake =>
    rw [step] at hs
    split at hs <;> cases hs
  | _ => exact h.elim

end Activity

end StatementLog
