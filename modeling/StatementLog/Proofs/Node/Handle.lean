import StatementLog.Proofs.Node.Calls

namespace StatementLog

variable {μ κ ε : Type}

structure Site.Abides (s s' : Site μ κ ε) : Prop where
  runner : s'.node.runner = s.node.runner
  handle : s'.node.handle = s.node.handle
  spawned : s'.node.spawned = s.node.spawned

structure Site.Inward (s s' : Site μ κ ε) : Prop where
  handle : s'.node.handle = s.node.handle
  spawned : s'.node.spawned = s.node.spawned
  aborted : s'.node.runner.aborted = s.node.runner.aborted
  ended : s'.node.runner.gone = s.node.runner.gone ∧ s'.node.runner.result = s.node.runner.result ∨
    s'.node.runner.state = .stopped

variable {s s' : Site μ κ ε}

theorem Site.Abides.rfl : s.Abides s :=
  ⟨Eq.refl _, Eq.refl _, Eq.refl _⟩

theorem Site.Abides.inward (h : s.Abides s') : s.Inward s' :=
  ⟨h.handle, h.spawned, congrArg _ h.runner,
    .inl ⟨congrArg Runner.gone h.runner, congrArg Runner.result h.runner⟩⟩

theorem Site.Inward.rfl : s.Inward s :=
  Abides.rfl.inward

theorem Site.Inward.of_runner (hh : s'.node.handle = s.node.handle)
    (hs : s'.node.spawned = s.node.spawned)
    (ha : s'.node.runner.aborted = s.node.runner.aborted)
    (hg : s'.node.runner.gone = s.node.runner.gone)
    (hr : s'.node.runner.result = s.node.runner.result) : s.Inward s' :=
  ⟨hh, hs, ha, .inl ⟨hg, hr⟩⟩

section

variable [CommandLog μ κ]

theorem Polling.step_abides (stage : Polling) (task : Nat) : (stage.step task s).Holds s.Abides := by
  cases stage with
  | arriving timeout => exact ⟨rfl, rfl, rfl⟩
  | queued timeout =>
    rw [step]
    split
    · exact .rfl
    · trivial
  | enlisting deadline => exact .rfl
  | checking deadline epoch =>
    rw [step]
    split <;> exact ⟨rfl, rfl, rfl⟩
  | reading deadline epoch =>
    rw [step]
    split
    · exact ⟨rfl, rfl, rfl⟩
    · split
      · exact ⟨rfl, rfl, rfl⟩
      · simp only
        split <;> exact ⟨rfl, rfl, rfl⟩
    · exact ⟨rfl, rfl, rfl⟩
  | waiting deadline epoch look =>
    rw [step.eq_def]
    simp only
    split
    · exact .rfl
    · split <;> split <;> first | exact ⟨rfl, rfl, rfl⟩ | trivial

theorem Rewinding.step_abides (stage : Rewinding) (task : Nat) :
    (stage.step task s).Holds s.Abides := by
  cases stage with
  | arriving =>
    rw [step]
    split <;> exact ⟨rfl, rfl, rfl⟩
  | queued =>
    rw [step]
    split
    · exact ⟨rfl, rfl, rfl⟩
    · trivial

theorem Polling.step_inward (stage : Polling) (task : Nat) : (stage.step task s).Holds s.Inward :=
  (stage.step_abides task).mono fun _ h => h.inward

theorem Rewinding.step_inward (stage : Rewinding) (task : Nat) :
    (stage.step task s).Holds s.Inward :=
  (stage.step_abides task).mono fun _ h => h.inward

theorem Appending.step_abides (stage : Appending) : (stage.step s).Holds s.Abides := by
  cases stage with
  | writing id payload =>
    rw [step]
    split <;> exact ⟨rfl, rfl, rfl⟩
  | announcing offset => exact ⟨rfl, rfl, rfl⟩

omit [CommandLog μ κ] in
theorem Awaiting.step_abides (stage : Awaiting) : (stage.step s).Holds s.Abides := by
  cases stage with
  | arriving handle timeout => exact .rfl
  | waiting handle deadline =>
    rw [step]
    split
    · exact .rfl
    · exact .rfl
    · split
      · exact ⟨rfl, rfl, rfl⟩
      · trivial

omit [CommandLog μ κ] in
theorem Following.step_abides (stage : Following) : (stage.step s).Holds s.Abides := by
  cases stage with
  | registering slot timeout => exact ⟨rfl, rfl, rfl⟩
  | testing handle timeout =>
    rw [step]
    split <;> exact .rfl
  | awaiting stopped stage => exact stage.step_abides.within fun _ _ h => h

theorem Submitting.step_abides (stage : Submitting) : (stage.step s).Holds s.Abides := by
  cases stage with
  | gate request =>
    rw [step]
    split <;> exact .rfl
  | testing request =>
    rw [step]
    split <;> exact ⟨rfl, rfl, rfl⟩
  | naming request =>
    rw [step]
    split <;> exact .rfl
  | appending id stage =>
    refine stage.step_abides.within fun s' r h => ?_
    cases r <;> exact h
  | marking slot => exact ⟨rfl, rfl, rfl⟩

theorem Executing.step_abides (stage : Executing) : (stage.step s).Holds s.Abides := by
  cases stage with
  | submitting stage timeout =>
    refine stage.step_abides.within fun s' r h => ?_
    cases r <;> exact h
  | following stage => exact stage.step_abides.within fun _ _ h => h

omit [CommandLog μ κ] in
theorem Retiring.step_abides (stage : Retiring) : (stage.step s).Holds s.Abides := by
  cases stage with
  | watching =>
    rw [step]
    split
    · exact .rfl
    · trivial
  | closingQueue | closingTracker => exact ⟨rfl, rfl, rfl⟩

theorem Leaving.step_abides (stage : Leaving) : (stage.step s).Holds s.Abides := by
  cases stage <;> exact ⟨rfl, rfl, rfl⟩

variable [Executor ε]

omit [CommandLog μ κ] in
theorem Applying.step_inward (a : Applying) : (a.step s).Holds s.Inward := by
  cases ht : a.stage with
  | announcing =>
    rw [step, ht]
    exact .of_runner rfl rfl rfl rfl rfl
  | trying =>
    rcases trying_cases ht s with ⟨_, -, he⟩ | ⟨_, _, _, -, -, he⟩ | ⟨_, -, -, he⟩ <;> rw [he] <;>
      exact .of_runner rfl rfl rfl rfl rfl
  | pausing wake =>
    rcases pausing_cases ht s with ⟨-, he⟩ | ⟨-, -, he⟩ | ⟨-, -, he⟩ <;> rw [he]
    · exact .rfl
    · exact .rfl
    · trivial
  | reporting status conclusion =>
    rw [step, ht]
    exact .of_runner rfl rfl rfl rfl rfl
  | advancing conclusion =>
    rw [step, ht]
    exact .of_runner rfl rfl rfl rfl rfl

theorem Replaying.step_inward (stage : Replaying) (task : Nat) :
    (stage.step task s).Holds s.Inward := by
  cases stage with
  | starting => exact .of_runner rfl rfl rfl rfl rfl
  | rewinding stage =>
    refine (stage.step_inward task).within fun s' r h => ?_
    cases r <;> exact h
  | measuring =>
    have hs : s.Inward s.endPosition.2 := .of_runner rfl rfl rfl rfl rfl
    rcases he : s.endPosition with ⟨r, s'⟩
    rw [he] at hs
    rw [step, he]
    cases r <;> exact hs
  | fetching limit backlog =>
    rw [step]
    split
    · split <;> exact .rfl
    · exact .rfl
  | polling limit backlog stage =>
    refine (stage.step_inward task).within fun s' r h => ?_
    cases r with
    | error e => exact h
    | ok batch => exact ⟨h.handle, h.spawned, h.aborted, h.ended⟩
  | sorting limit backlog =>
    rw [step]
    split <;> exact .of_runner rfl rfl rfl rfl rfl
  | terminating limit attempt =>
    refine attempt.step_inward.within fun s' c h => ?_
    cases c with
    | interrupted => exact h
    | _ => exact ⟨h.handle, h.spawned, h.aborted, .inr rfl⟩
  | resuming rest replayed => cases rest <;> exact .rfl
  | applying rest replayed attempt =>
    refine attempt.step_inward.within fun s' c h => ?_
    cases c <;> exact h
  | finishing replayed =>
    simp only [step]
    split <;> exact .of_runner rfl rfl rfl rfl rfl

theorem Running.step_inward (ha : s.node.runner.aborted = false) (stage : Running) (task : Nat) :
    (stage.step task s).Holds s.Inward := by
  have ha : ¬ s.node.runner.aborted = true := by simp [ha]
  cases stage with
  | starting =>
    rw [step, if_neg ha]
    split
    · exact .rfl
    · exact .of_runner rfl rfl rfl rfl rfl
  | idle =>
    rw [step, if_neg ha]
    split
    · exact .rfl
    · split <;> exact .of_runner rfl rfl rfl rfl rfl
  | polling stage =>
    rw [step, if_neg ha]
    split
    · exact .of_runner rfl rfl rfl rfl rfl
    · refine (stage.step_inward task).within fun s' r h => ?_
      cases r <;> exact h
  | batch rest =>
    cases rest with
    | nil =>
      rw [step, if_neg ha]
      exact .rfl
    | cons c rest =>
      rw [step, if_neg ha]
      split <;> exact .rfl
  | applying rest attempt =>
    rw [step, if_neg ha]
    refine attempt.step_inward.within fun s' c h => ?_
    cases c with
    | applied effect =>
      simp only
      split
      · exact ⟨h.handle, h.spawned, h.aborted, h.ended⟩
      · exact h
    | _ => exact h
  | stopping result =>
    rw [step, if_neg ha]
    exact ⟨rfl, rfl, rfl, .inr rfl⟩

namespace Lifetime

variable {x y : Lifetime μ κ ε}

theorem advance?_inward (ha : x.site.node.runner.aborted = false) (h : x.advance? = some y) :
    x.site.Inward y.site := by
  rw [advance?.eq_def] at h
  split at h
  · exact enter_holds (Replaying.step_inward _ _) h
  · cases h
    exact .rfl
  · exact enter_holds (Running.step_inward ha _ _) h
  · cases h

end Lifetime

inductive Starting.Enters (s s' : Site μ κ ε) (next : Option Starting) : Prop where
  | replay : s.Inward s' → Enters s s' next
  | launch : s'.node = s.node.launch → next = none → Enters s s' next
  | drop : s'.node = s.node.dropRunner → next = none → Enters s s' next

theorem Starting.step_enters (stage : Starting) (task : Nat) :
    (stage.step task s).Leads (Enters s) := by
  have hreplay {m : Move (Site μ κ ε) Starting (Except Error ReplayOutcome)}
      (h : m.Holds s.Inward) : m.Leads (Enters s) := by
    cases m with
    | wait => trivial
    | next s' stage' | done s' r => exact .replay h
  cases stage with
  | checking parts =>
    refine hreplay ?_
    rw [step]
    split
    · exact .rfl
    · split <;> exact .rfl
  | probing broker =>
    have hs : s.Inward s.endPosition.2 := .of_runner rfl rfl rfl rfl rfl
    refine hreplay ?_
    rcases he : s.endPosition with ⟨r, s'⟩
    rw [he] at hs
    rw [step, he]
    cases r with
    | error e => exact hs
    | ok n =>
      simp only
      split <;> exact hs
  | provisioning broker =>
    refine hreplay ?_
    rw [step]
    split
    · exact .rfl
    · split <;> exact .rfl
  | creatingTopic =>
    refine hreplay ?_
    rw [step]
    split <;> exact .of_runner rfl rfl rfl rfl rfl
  | enqueuing stage =>
    refine hreplay ((stage.step_abides.mono fun _ h => h.inward).within fun s' r h => ?_)
    cases r <;> exact h
  | replaying stage =>
    refine hreplay ((stage.step_inward task).within fun s' r h => ?_)
    rcases r with e | ⟨n⟩ | e | _ <;> exact h
  | opening n => exact .replay (.of_runner rfl rfl rfl rfl rfl)
  | launching n => exact .launch rfl rfl
  | refusing error => exact .drop rfl rfl

inductive Site.Hands (s s' : Site μ κ ε) : Bool → Bool → Prop where
  | keep {held : Bool} : s.Abides s' → Hands s s' held held
  | take : s.node.handle = true → s'.node.handle = false → s'.node.runner = s.node.runner →
      s'.node.spawned = s.node.spawned → Hands s s' false true
  | giveBack : s'.node.handle = true → s'.node.runner = s.node.runner →
      s'.node.spawned = s.node.spawned → Hands s s' true false
  | spend : s.Abides s' → s.node.runner.state = .stopped → Hands s s' true false

namespace Site.Hands

variable {held holds : Bool}

omit [CommandLog μ κ] [Executor ε] in
theorem runner (h : s.Hands s' held holds) : s'.node.runner = s.node.runner := by
  cases h with
  | keep h => exact h.runner
  | take _ _ hr _ => exact hr
  | giveBack _ hr _ => exact hr
  | spend h _ => exact h.runner

omit [CommandLog μ κ] [Executor ε] in
theorem spawned (h : s.Hands s' held holds) : s'.node.spawned = s.node.spawned := by
  cases h with
  | keep h => exact h.spawned
  | take _ _ _ hs => exact hs
  | giveBack _ _ hs => exact hs
  | spend h _ => exact h.spawned

end Site.Hands

def Terminating.Fits (s : Site μ κ ε) : Terminating → Prop
  | joining _ .collecting | settling _ | leaving _ _ => s.node.runner.state = .stopped
  | _ => True

/-- The node is not closed, and is terminated only while its runner is in service. -/
def Activity.Fits (s : Site μ κ ε) : Activity → Prop
  | closing _ => False
  | terminating stage => s.node.spawned = true ∧ stage.Fits s
  | _ => True

omit [CommandLog μ κ] [Executor ε] in
theorem Activity.Fits.mono {a : Activity} (h : a.Fits s)
    (hs : s.node.spawned = true → s'.node.spawned = true)
    (ht : s.node.runner.state = .stopped → s'.node.runner.state = .stopped) : a.Fits s' := by
  cases a with
  | terminating stage =>
    refine ⟨hs h.1, ?_⟩
    have hf := h.2
    cases stage with
    | joining handle stage =>
      cases stage with
      | watching => trivial
      | collecting => exact ht hf
    | settling stage | leaving status stage => exact ht hf
    | _ => trivial
  | _ => exact h

structure Site.Ends (s : Site μ κ ε) : Prop where
  gone : s.node.runner.gone = true → s.node.runner.state = .stopped
  result : s.node.runner.result.isSome = true → s.node.runner.state = .stopped

omit [Executor ε] in
theorem Terminating.step_hands (hs : s.Ends) {stage : Terminating} (hf : stage.Fits s) :
    (stage.step s).Leads fun s' next =>
      s.Hands s' stage.holdsHandle (next.elim false holdsHandle) ∧
        ∀ stage' ∈ next, stage'.Fits s' := by
  cases stage with
  | checking text =>
    rw [step]
    split
    · exact ⟨.keep .rfl, fun stage' hn => by cases hn⟩
    · split
      · exact ⟨.keep .rfl, fun stage' hn => by cases hn; trivial⟩
      · exact ⟨.keep .rfl, fun stage' hn => by cases hn⟩
  | taking text =>
    rw [step]
    split
    · next hh => exact ⟨.take hh rfl rfl rfl, fun stage' hn => by cases hn; trivial⟩
    · exact ⟨.keep .rfl, fun stage' hn => by cases hn⟩
  | submitting stage =>
    refine stage.step_abides.leads.within
      (fun s' stage' h => ⟨.keep h, fun stage'' hn => by cases hn; trivial⟩) fun s' r h => ?_
    cases r <;> exact ⟨.keep h, fun stage' hn => by cases hn; trivial⟩
  | registering slot =>
    exact ⟨.keep ⟨rfl, rfl, rfl⟩, fun stage' hn => by cases hn; trivial⟩
  | returning e => exact ⟨.giveBack rfl rfl rfl, fun stage' hn => by cases hn⟩
  | joining handle stage =>
    cases stage with
    | watching =>
      simp only [step, Joining.step]
      split
      · next hw =>
        refine ⟨.keep .rfl, fun stage' hn => ?_⟩
        cases hn
        show s.node.runner.state = .stopped
        rcases Bool.or_eq_true_iff.1 hw with hw | hw
        · exact of_decide_eq_true hw
        · exact hs.gone hw
      · trivial
    | collecting =>
      simp only [step, Joining.step]
      split
      · next r hr =>
        have hstop := hs.result (hr ▸ rfl)
        cases r with
        | error e => exact ⟨.spend .rfl hstop, fun stage' hn => by cases hn⟩
        | ok u =>
          refine ⟨.spend .rfl hstop, fun stage' hn => ?_⟩
          cases hn
          exact hstop
      · trivial
  | settling stage =>
    refine stage.step_abides.leads.within (fun s' stage' h => ⟨.keep h, fun stage'' hn => ?_⟩)
      fun s' r h => ⟨.keep h, fun stage' hn => ?_⟩ <;> cases hn
    · exact (congrArg Runner.state h.runner).trans hf
    · exact (congrArg Runner.state h.runner).trans hf
  | leaving status stage =>
    refine stage.step_abides.leads.within (fun s' stage' h => ⟨.keep h, fun stage'' hn => ?_⟩)
      fun s' r h => ⟨.keep h, fun stage' hn => by cases hn⟩
    cases hn
    exact (congrArg Runner.state h.runner).trans hf

namespace Activity

variable {a : Activity}

omit [CommandLog μ κ] [Executor ε] in
theorem IsCall.holdsHandle (h : a.IsCall) : a.holdsHandle = false := by
  cases a with
  | terminating stage =>
    cases stage with
    | checking text => rfl
    | _ => exact h.elim
  | closing stage =>
    cases stage with
    | closingQueue => rfl
    | _ => exact h.elim
  | attending stage => exact h.elim
  | _ => rfl

theorem step_hands (hs : s.node.spawned = true → s.Ends) (hc : a.Calls) (hf : a.Fits s)
    (task : Nat) :
    (a.step task s).Leads fun s' next =>
      s.Hands s' a.holdsHandle (next.elim false holdsHandle) ∧ ∀ a' ∈ next, a'.Fits s' := by
  have hlast {s' : Site μ κ ε} (h : s.Abides s') :
      s.Hands s' false (Option.elim none false holdsHandle) ∧
        ∀ a' ∈ (none : Option Activity), a'.Fits s' :=
    ⟨.keep h, fun a' hn => by cases hn⟩
  cases a with
  | terminating stage =>
    refine (stage.step_hands (hs hf.1) hf.2).within (fun s' stage' h => ⟨h.1, fun a' hn => ?_⟩)
      fun s' r h => ⟨h.1, fun a' hn => by cases hn⟩
    cases hn
    exact ⟨h.1.spawned.trans hf.1, h.2 stage' rfl⟩
  | closing stage => exact hf.elim
  | submitting stage | following stage | executing stage | retiring stage =>
    exact stage.step_abides.leads.within
      (fun s' stage' h => ⟨.keep h, fun a' hn => by cases hn; trivial⟩) fun s' r h => hlast h
  | probing => exact hlast ⟨rfl, rfl, rfl⟩
  | watching state =>
    rw [step]
    split
    · exact hlast .rfl
    · split
      · exact hlast .rfl
      · trivial
  | sleeping wake =>
    rw [step]
    split
    · exact hlast .rfl
    · trivial
  | _ => exact hc.elim

end Activity

end

end StatementLog
