import StatementLog.Proofs.Node.Station

namespace StatementLog

variable {μ κ ε : Type} [CommandLog μ κ]

def Site.Secludes (s s' : Site μ κ ε) : Prop :=
  s'.executor = s.executor

section

variable {s : Site μ κ ε}

theorem Appending.step_secludes (stage : Appending) : (stage.step s).Holds s.Secludes := by
  cases stage with
  | writing name payload =>
    rw [step]
    split <;> rfl
  | announcing offset => rfl

omit [CommandLog μ κ] in
theorem Awaiting.step_secludes (stage : Awaiting) : (stage.step s).Holds s.Secludes := by
  cases stage with
  | arriving handle timeout => rfl
  | waiting handle deadline =>
    rw [step]
    split
    · rfl
    · rfl
    · split
      · rfl
      · trivial

omit [CommandLog μ κ] in
theorem Following.step_secludes (stage : Following) : (stage.step s).Holds s.Secludes := by
  cases stage with
  | registering slot timeout => rfl
  | testing handle timeout =>
    rw [step]
    split <;> rfl
  | awaiting stopped stage => exact stage.step_secludes.within fun _ _ h => h

theorem Submitting.step_secludes (stage : Submitting) : (stage.step s).Holds s.Secludes := by
  cases stage with
  | gate request =>
    rw [step]
    split <;> rfl
  | testing request =>
    rw [step]
    split <;> rfl
  | naming request =>
    rw [step]
    split <;> rfl
  | appending id stage =>
    refine stage.step_secludes.within fun s' r h => ?_
    cases r <;> exact h
  | marking slot => rfl

theorem Executing.step_secludes (stage : Executing) : (stage.step s).Holds s.Secludes := by
  cases stage with
  | submitting stage timeout =>
    refine stage.step_secludes.within fun s' r h => ?_
    cases r <;> exact h
  | following stage => exact stage.step_secludes.within fun _ _ h => h

omit [CommandLog μ κ] in
theorem Joining.step_secludes (stage : Joining) : (stage.step s).Holds s.Secludes := by
  cases stage <;> rw [step] <;> split <;> first | rfl | trivial

omit [CommandLog μ κ] in
theorem Retiring.step_secludes (stage : Retiring) : (stage.step s).Holds s.Secludes := by
  cases stage with
  | watching =>
    rw [step]
    split
    · rfl
    · trivial
  | closingQueue => rfl
  | closingTracker => rfl

theorem Leaving.step_secludes (stage : Leaving) : (stage.step s).Holds s.Secludes := by
  cases stage <;> rfl

theorem Terminating.step_secludes (stage : Terminating) : (stage.step s).Holds s.Secludes := by
  cases stage with
  | checking text =>
    rw [step]
    split
    · rfl
    · split <;> rfl
  | taking text =>
    rw [step]
    split <;> rfl
  | submitting stage =>
    refine stage.step_secludes.within fun s' r h => ?_
    cases r <;> exact h
  | registering slot => rfl
  | returning e => rfl
  | joining handle stage =>
    refine stage.step_secludes.within fun s' r h => ?_
    cases r <;> exact h
  | settling stage => exact stage.step_secludes.within fun _ _ h => h
  | leaving status stage => exact stage.step_secludes.within fun _ _ h => h

theorem Closing.step_secludes (stage : Closing) : (stage.step s).Holds s.Secludes := by
  cases stage with
  | closingQueue => rfl
  | taking =>
    rw [step]
    split <;> rfl
  | collecting =>
    rw [step]
    split
    · rfl
    · trivial
  | leaving result stage => exact stage.step_secludes.within fun _ _ h => h

variable [Executor ε]

theorem Activity.step_secludes {a : Activity} (h : a.Calls) (task : Nat) :
    (a.step task s).Holds s.Secludes := by
  cases a with
  | submitting stage => exact stage.step_secludes.within fun _ _ h => h
  | following stage => exact stage.step_secludes.within fun _ _ h => h
  | executing stage => exact stage.step_secludes.within fun _ _ h => h
  | terminating stage => exact stage.step_secludes.within fun _ _ h => h
  | closing stage => exact stage.step_secludes.within fun _ _ h => h
  | retiring stage => exact stage.step_secludes.within fun _ _ h => h
  | probing => rfl
  | watching state =>
    rw [step]
    split
    · rfl
    · split
      · rfl
      · trivial
  | sleeping wake =>
    rw [step]
    split
    · rfl
    · trivial
  | _ => exact h.elim

theorem Starting.step_secludes {stage : Starting} (hr : ∀ replaying, stage ≠ .replaying replaying)
    (task : Nat) : (stage.step task s).Holds s.Secludes := by
  cases stage with
  | checking parts =>
    rw [step]
    split
    · rfl
    · split <;> rfl
  | probing broker =>
    have hs : s.Secludes s.endPosition.2 := rfl
    rcases he : s.endPosition with ⟨r, s'⟩
    rw [he] at hs
    rw [step, he]
    cases r with
    | error e => exact hs
    | ok n =>
      simp only
      split <;> exact hs
  | provisioning broker =>
    rw [step]
    split
    · rfl
    · split <;> rfl
  | creatingTopic =>
    rw [step]
    split <;> rfl
  | enqueuing stage =>
    refine stage.step_secludes.within fun s' r h => ?_
    cases r <;> exact h
  | replaying stage => exact absurd rfl (hr stage)
  | opening n => rfl
  | launching n => rfl
  | refusing error => rfl

end

namespace Station

variable [LawfulLog μ] [Executor ε] {x y z : Station μ κ ε}

/-- The steps of a station while nobody else has its executor. -/
inductive Secluded : Station μ κ ε → Station μ κ ε → Prop where
  | own {x y : Station μ κ ε} : x.advance? = some y → LawfulLog.size y.site.log ≤ Word.max →
      Secluded x y
  | call {x : Station μ κ ε} {call : Activity} : call.IsCall → Secluded x (x.accept call)
  | serve {x y : Station μ κ ε} (i : Nat) : x.serve? i = some y →
      LawfulLog.size y.site.log ≤ Word.max → Secluded x y
  | abroad {x : Station μ κ ε} {s : Site μ κ ε} : x.site.Abroad s → x.site.Secludes s →
      Secluded x (x.move s)

def Seclusion : Station μ κ ε → Station μ κ ε → Prop :=
  Relation.ReflTransGen Secluded

theorem Secluded.step (h : Secluded x y) : Step x y := by
  cases h with
  | own h hb => exact .own h hb
  | call h => exact .call h
  | serve i h hb => exact .serve i h hb
  | abroad h _ => exact .abroad h

theorem Seclusion.reaches (h : Seclusion x y) : Reaches x y := by
  induction h with
  | refl => exact .refl
  | tail _ hs ih => exact ih.tail hs.step

omit [LawfulLog μ] in
theorem advance?_secludes (hsync : x.Synchronous) (h : x.advance? = some y) :
    x.life.advance? = some y.life ∨ x.site.Secludes y.site := by
  cases hs : x.start with
  | none =>
    rw [advance?, hs] at h
    obtain ⟨life, hl, rfl⟩ := Option.map_eq_some_iff.1 h
    exact .inl hl
  | some stage =>
    by_cases hr : ∃ replaying, stage = .replaying replaying
    · obtain ⟨replaying, rfl⟩ := hr
      exact .inl (replaying_advance hs (hsync _ hs) h).2.2
    · have hr (replaying : Replaying) : stage ≠ .replaying replaying := fun he => hr ⟨_, he⟩
      obtain ⟨-, -, -, task, hm⟩ := starting_advance hs (hsync _ hs) hr h
      have hsec := Starting.step_secludes (s := x.site) hr task
      rcases hm with ⟨stage', hm⟩ | ⟨r, hm⟩ <;>
      · rw [hm] at hsec
        exact .inr hsec

variable [WritableLog μ]

theorem Secluded.cases (hx : x.Sound) (h : Secluded x y) :
    x.life.advance? = some y.life ∨ x.site.Secludes y.site := by
  cases h with
  | own h _ => exact advance?_secludes hx.synchronous h
  | call _ => exact .inr rfl
  | serve i h _ =>
    obtain ⟨c, c', hc, -, -, -, -, -, a, ha, hstep⟩ := serve?_bears hx h
    have hsec := Activity.step_secludes (s := x.site) (hx.calls c (List.mem_of_getElem? hc) a ha) i
    rcases hstep with ⟨a', hm, -⟩ | ⟨reply, hm, -⟩ <;>
    · rw [hm] at hsec
      exact .inr hsec
  | abroad _ he => exact .inr he

theorem life_secluded (hx : x.Sound) (h : Secluded x y) :
    y.life = x.life ∨ Lifetime.Step Site.Spans x.life y.life := by
  rcases h.cases hx with hl | hsec
  · exact .inr (.act hl)
  · refine (life_step hx h.step).imp id fun hs => ?_
    change x.life.site.Secludes y.life.site at hsec
    generalize y.life = life at hs hsec ⊢
    cases hs with
    | act hl => exact .act hl
    | change hd => exact .change ⟨hd, hsec⟩

end Station

end StatementLog
