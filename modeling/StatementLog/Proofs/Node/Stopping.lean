import StatementLog.Proofs.Node.Handle
import StatementLog.Proofs.Node.Release

namespace StatementLog

variable {μ κ ε : Type} [CommandLog μ κ]

section

variable [Executor ε] {s s' : Site μ κ ε} {a : Activity} {status : Option Status}

omit [Executor ε] in
theorem Terminating.ended_cases {stage : Terminating} (h : stage.step s = .done s' (.ok status)) :
    (∃ text, stage = .taking text ∧ s.node.handle = false ∧ s' = s ∧ status = none) ∨
      ∃ stage', stage = .leaving status stage' := by
  cases stage with
  | checking text =>
    rw [step] at h
    split at h
    · cases h
    · split at h <;> cases h
  | taking text =>
    rw [step] at h
    split at h
    · cases h
    · next hh =>
      cases h
      exact .inl ⟨text, rfl, by simpa using hh, rfl, rfl⟩
  | submitting stage =>
    obtain ⟨s₁, r, -, h⟩ := Move.within_done h
    cases r <;> cases h
  | registering slot | returning e => cases h
  | joining handle stage =>
    obtain ⟨s₁, r, -, h⟩ := Move.within_done h
    cases r <;> cases h
  | settling stage =>
    obtain ⟨s₁, r, -, h⟩ := Move.within_done h
    cases h
  | leaving status' stage =>
    obtain ⟨s₁, r, -, h⟩ := Move.within_done h
    cases h
    exact .inr ⟨stage, rfl⟩

theorem Activity.ended_cases {task : Nat} (hc : a.Calls)
    (h : a.step task s = .done s' (.ok (.ended status))) :
    (∃ text, a = .terminating (.taking text) ∧ s.node.handle = false ∧ s' = s ∧ status = none) ∨
      ∃ stage, a = .terminating (.leaving status stage) := by
  cases a with
  | terminating stage =>
    obtain ⟨s₁, r, hs, h⟩ := Move.within_done h
    cases r with
    | error e => cases h
    | ok status' =>
      cases h
      rcases Terminating.ended_cases hs with ⟨text, rfl, hh⟩ | ⟨stage', rfl⟩
      · exact .inl ⟨text, rfl, hh⟩
      · exact .inr ⟨stage', rfl⟩
  | submitting stage | following stage | executing stage | closing stage =>
    obtain ⟨s₁, r, -, h⟩ := Move.within_done h
    cases r <;> cases h
  | retiring stage =>
    obtain ⟨s₁, r, -, h⟩ := Move.within_done h
    cases h
  | probing =>
    rcases he : s.endPosition with ⟨r, s₁⟩
    rw [step, he] at h
    cases r <;> cases h
  | watching state =>
    rw [step] at h
    split at h
    · cases h
    · split at h <;> cases h
  | sleeping wake =>
    rw [step] at h
    split at h <;> cases h
  | _ => exact hc.elim

end

namespace Station

variable [LawfulLog μ] [Executor ε] {x y : Station μ κ ε} {i j : Nat}

/-- The steps of a station that nobody closes. The node is called to terminate only while its runner is
in service, and nothing from outside touches it. -/
inductive Unclosed : Station μ κ ε → Station μ κ ε → Prop where
  | own {x y : Station μ κ ε} : x.advance? = some y → LawfulLog.size y.site.log ≤ Word.max →
      Unclosed x y
  | call {x : Station μ κ ε} {call : Activity} : call.IsCall → call.Fits x.site →
      Unclosed x (x.accept call)
  | serve {x y : Station μ κ ε} (i : Nat) : x.serve? i = some y →
      LawfulLog.size y.site.log ≤ Word.max → Unclosed x y
  | abroad {x : Station μ κ ε} {s : Site μ κ ε} : x.site.Abroad s → s.node = x.site.node →
      Unclosed x (x.move s)

/-- What a station comes to as long as nobody closes it. -/
def Lives : Station μ κ ε → Station μ κ ε → Prop :=
  Relation.ReflTransGen Unclosed

theorem Unclosed.step (h : Unclosed x y) : Step x y := by
  cases h with
  | own h hb => exact .own h hb
  | call h _ => exact .call h
  | serve i h hb => exact .serve i h hb
  | abroad h _ => exact .abroad h

def Holds (x : Station μ κ ε) (i : Nat) : Prop :=
  ∃ a, x.standing? i = some a ∧ a.holdsHandle = true

structure Governed (x : Station μ κ ε) : Prop where
  sound : x.Sound
  halted : x.site.node.runner.state = .stopped → x.life.Halted
  aborted : x.site.node.runner.aborted = false
  starting : x.start.isSome = true → x.site.node.spawned = false
  ends : x.start.isSome = true ∨ x.site.node.spawned = true → x.site.Ends
  fits : ∀ i a, x.standing? i = some a → a.Fits x.site
  one : ∀ i j, x.Holds i → x.Holds j → i = j
  taken : ∀ i, x.Holds i → x.site.node.handle = false
  left : x.site.node.spawned = true → x.site.node.handle = false →
    (∃ i, x.Holds i) ∨ x.site.node.runner.state = .stopped

variable [WritableLog μ]

namespace Governed

theorem halts (h : x.Governed) (hs : Step x y) (hy : y.site.node.runner.state = .stopped) :
    y.life.Halted := by
  rcases life_step h.sound hs with he | hl
  · have hx : x.site.node.runner.state = .stopped := by
      rw [← hy, site, site, he]
    exact he ▸ h.halted hx
  · exact Lifetime.stopped_step h.halted hl hy

theorem stays_stopped (h : x.Governed) (hs : Step x y)
    (hx : x.site.node.runner.state = .stopped) : y.site.node.runner.state = .stopped := by
  rcases life_step h.sound hs with he | hl
  · rw [site, he]
    exact hx
  · exact ((h.halted hx).step hl).1.1

omit [CommandLog μ κ] [LawfulLog μ] [Executor ε] [WritableLog μ] in
theorem calls (h : x.Governed) {a : Activity} (ha : x.standing? i = some a) : a.Calls := by
  obtain ⟨c, hc, hp⟩ := caller_of_standing? ha
  exact h.sound.calls c (List.mem_of_getElem? hc) a hp

omit [CommandLog μ κ] [LawfulLog μ] [Executor ε] [WritableLog μ] in
theorem spawned (h : x.Governed) (hi : x.Holds i) : x.site.node.spawned = true := by
  obtain ⟨a, ha, hholds⟩ := hi
  have hf := h.fits i a ha
  have hc := h.calls ha
  cases a with
  | terminating stage => exact hf.1
  | closing stage => exact hf.elim
  | attending stage => exact hc.elim
  | _ => cases hholds

theorem of_callers (h : x.Governed) (hs : Step x y) (hc : y.callers = x.callers)
    (habort : y.site.node.runner.aborted = false)
    (hstart : y.start.isSome = true → y.site.node.spawned = false)
    (hends : y.start.isSome = true ∨ y.site.node.spawned = true → y.site.Ends)
    (hspawn : x.site.node.spawned = true → y.site.node.spawned = true)
    (htaken : ∀ i, x.Holds i → y.site.node.handle = false)
    (hleft : y.site.node.spawned = true → y.site.node.handle = false →
      (∃ i, x.Holds i) ∨ y.site.node.runner.state = .stopped) : y.Governed := by
  have hstanding (i : Nat) : y.standing? i = x.standing? i := by rw [standing?, hc, standing?]
  have hholds (i : Nat) : y.Holds i = x.Holds i := by rw [Holds, hstanding, Holds]
  refine ⟨h.sound.step hs, h.halts hs, habort, hstart, hends, ?_, ?_, ?_, ?_⟩
  · intro i a ha
    exact (h.fits i a (hstanding i ▸ ha)).mono hspawn (h.stays_stopped hs)
  · intro i j hi hj
    exact h.one i j (hholds i ▸ hi) (hholds j ▸ hj)
  · exact fun i hi => htaken i (hholds i ▸ hi)
  · intro hsp hh
    refine (hleft hsp hh).imp ?_ id
    rintro ⟨i, hi⟩
    exact ⟨i, hholds i ▸ hi⟩

theorem inward (h : x.Governed) (hs : Step x y) (hc : y.callers = x.callers)
    (hstart : y.start.isSome = true → x.start.isSome = true) (hi : x.site.Inward y.site) :
    y.Governed := by
  refine h.of_callers hs hc (hi.aborted.trans h.aborted) ?_ ?_ ?_ ?_ ?_
  · exact fun hy => hi.spawned.trans (h.starting (hstart hy))
  · intro hy
    have hx := h.ends (hy.imp hstart fun hy => hi.spawned ▸ hy)
    rcases hi.ended with ⟨hg, hr⟩ | hstop
    · exact ⟨fun hy => h.stays_stopped hs (hx.gone (hg ▸ hy)),
        fun hy => h.stays_stopped hs (hx.result (hr ▸ hy))⟩
    · exact ⟨fun _ => hstop, fun _ => hstop⟩
  · exact fun hx => hi.spawned.trans hx
  · exact fun i hx => hi.handle.trans (h.taken i hx)
  · intro hsp hh
    exact (h.left (hi.spawned ▸ hsp) (hi.handle ▸ hh)).imp id (h.stays_stopped hs)

theorem own (h : x.Governed) (hy : x.advance? = some y) (hs : Step x y) : y.Governed := by
  cases hstart : x.start with
  | none =>
    obtain ⟨hl, hnone, hc⟩ := started_advance hstart hy
    refine h.inward hs hc (fun hn => ?_) (Lifetime.advance?_inward h.aborted hl)
    rw [hnone] at hn
    cases hn
  | some stage =>
    have hsome : x.start.isSome = true := by rw [hstart]; rfl
    have hunspawned := h.starting hsome
    obtain ⟨he, hc⟩ := starting_leads hstart (stage.step_enters x.life.task) hy
    cases he with
    | replay hi => exact h.inward hs hc (fun _ => hsome) hi
    | launch hn hnone =>
      refine h.of_callers hs hc ?_ ?_ ?_ ?_ ?_ ?_
      · rw [hn]
        exact h.aborted
      · intro hy
        rw [hnone] at hy
        cases hy
      · intro _
        have hx := h.ends (.inl hsome)
        exact ⟨fun hg => by rw [hn] at hg ⊢; exact hx.gone hg,
          fun hr => by rw [hn] at hr ⊢; exact hx.result hr⟩
      · intro _
        rw [hn]
        rfl
      · intro i hi
        exact absurd (hunspawned.symm.trans (h.spawned hi)) (by simp)
      · intro _ hh
        rw [hn] at hh
        cases hh
    | drop hn hnone =>
      refine h.of_callers hs hc ?_ ?_ ?_ ?_ ?_ ?_
      · rw [hn]
        exact h.aborted
      · intro _
        rw [hn]
        exact hunspawned
      · rintro (hy | hy)
        · rw [hnone] at hy
          cases hy
        · rw [hn] at hy
          exact absurd (hunspawned.symm.trans hy) (by simp)
      · intro hx
        rw [hn]
        exact hx
      · intro i hi
        rw [hn]
        exact h.taken i hi
      · intro hy
        rw [hn] at hy
        exact absurd (hunspawned.symm.trans hy) (by simp)

theorem abroad {s : Site μ κ ε} (h : x.Governed) (hn : s.node = x.site.node)
    (hs : Step x (x.move s)) : (x.move s).Governed := by
  refine h.inward hs rfl id ⟨?_, ?_, ?_, .inl ⟨?_, ?_⟩⟩ <;>
  · show _ = _
    rw [← hn]
    rfl

theorem call {call : Activity} (h : x.Governed) (hcall : call.IsCall) (hf : call.Fits x.site) :
    (x.accept call).Governed := by
  have hold {i : Nat} {a : Activity} (ha : x.standing? i = some a) :
      (x.accept call).standing? i = some a := by
    obtain ⟨c, hc, ha⟩ := Option.bind_eq_some_iff.1 ha
    rw [standing?, accept, List.getElem?_append_left (List.getElem?_eq_some_iff.1 hc).1, hc]
    exact ha
  have hnew {i : Nat} {a : Activity} (ha : (x.accept call).standing? i = some a) :
      x.standing? i = some a ∨ a = call := by
    obtain ⟨c, hc, ha⟩ := Option.bind_eq_some_iff.1 ha
    rw [accept, List.getElem?_append] at hc
    split at hc
    · exact .inl (Option.bind_eq_some_iff.2 ⟨c, hc, ha⟩)
    · cases List.mem_singleton.1 (List.mem_of_getElem? hc)
      exact .inr (Option.some.inj ha).symm
  have hholds {i : Nat} (hi : (x.accept call).Holds i) : x.Holds i := by
    obtain ⟨a, ha, hholds⟩ := hi
    rcases hnew ha with ha | rfl
    · exact ⟨a, ha, hholds⟩
    · rw [hcall.holdsHandle] at hholds
      cases hholds
  refine ⟨h.sound.step (.call hcall), h.halted, h.aborted, h.starting, h.ends, ?_, ?_, ?_, ?_⟩
  · intro i a ha
    rcases hnew ha with ha | rfl
    · exact h.fits i a ha
    · exact hf
  · exact fun i j hi hj => h.one i j (hholds hi) (hholds hj)
  · exact fun i hi => h.taken i (hholds hi)
  · intro hsp hh
    refine (h.left hsp hh).imp ?_ id
    rintro ⟨i, a, ha, hi⟩
    exact ⟨i, a, hold ha, hi⟩

end Governed

omit [LawfulLog μ] [WritableLog μ] in
theorem serve?_leads {P : Activity → Site μ κ ε → Option Activity → Prop}
    (h : x.serve? i = some y)
    (hm : ∀ a, x.standing? i = some a → (a.step i x.site).Leads (P a)) :
    ∃ a, x.standing? i = some a ∧ P a y.site (y.standing? i) ∧
      (∀ j ≠ i, y.standing? j = x.standing? j) ∧ y.start = x.start := by
  obtain ⟨c, a, hc, ha, hstep⟩ := serve?_cases h
  have hi := (List.getElem?_eq_some_iff.1 hc).1
  have hstanding : x.standing? i = some a := by
    rw [standing?, hc, Option.bind_some, ha]
    rfl
  have hlead := hm a hstanding
  have hput (s : Site μ κ ε) (c' : Caller) : (x.put s i c').standing? i = c'.progress.activity? ∧
      ∀ j ≠ i, (x.put s i c').standing? j = x.standing? j := by
    refine ⟨?_, fun j hj => ?_⟩
    · rw [standing?, put, List.getElem?_set_self hi]
      rfl
    · rw [standing?, put, List.getElem?_set_ne (Ne.symm hj), standing?]
  rcases hstep with ⟨s, a', hs, rfl⟩ | ⟨s, reply, hs, rfl⟩
  · rw [hs] at hlead
    exact ⟨a, hstanding, (hput _ _).1 ▸ hlead, (hput _ _).2, rfl⟩
  · rw [hs] at hlead
    exact ⟨a, hstanding, (hput _ _).1 ▸ hlead, (hput _ _).2, rfl⟩

namespace Governed

theorem serve (h : x.Governed) (hy : x.serve? i = some y) (hs : Step x y) : y.Governed := by
  obtain ⟨a, ha, ⟨hhands, hfits⟩, hothers, hstart⟩ := serve?_leads
    (P := fun a s' next => x.site.Hands s' a.holdsHandle (next.elim false Activity.holdsHandle) ∧
      ∀ a' ∈ next, a'.Fits s') hy fun a ha =>
        Activity.step_hands (fun hsp => h.ends (.inr hsp)) (h.calls ha) (h.fits i a ha) i
  have hr := hhands.runner
  have hsp := hhands.spawned
  have hholds : x.Holds i ↔ a.holdsHandle = true :=
    ⟨fun ⟨a', ha', hi⟩ => Option.some.inj (ha.symm.trans ha') ▸ hi, fun hi => ⟨a, ha, hi⟩⟩
  have hholds' : y.Holds i ↔ (y.standing? i).elim false Activity.holdsHandle = true := by
    rw [Holds]
    cases y.standing? i <;> simp
  have hother (j : Nat) (hj : j ≠ i) : y.Holds j = x.Holds j := by
    rw [Holds, hothers j hj, Holds]
  have hrest (hone : ∀ j k, y.Holds j → y.Holds k → j = k)
      (htaken : ∀ j, y.Holds j → y.site.node.handle = false)
      (hleft : y.site.node.spawned = true → y.site.node.handle = false →
        (∃ j, y.Holds j) ∨ y.site.node.runner.state = .stopped) : y.Governed := by
    refine ⟨h.sound.step hs, h.halts hs, hr ▸ h.aborted, ?_, ?_, ?_, hone, htaken, hleft⟩
    · rw [hstart, hsp]
      exact h.starting
    · rw [hstart, hsp]
      intro hy
      have hx := h.ends hy
      exact ⟨hr ▸ hx.gone, hr ▸ hx.result⟩
    · intro j a' ha'
      by_cases hj : j = i
      · exact hfits a' (hj ▸ ha')
      · exact (h.fits j a' (hothers j hj ▸ ha')).mono (fun hx => hsp.trans hx) (h.stays_stopped hs)
  have hfreed (hx : x.Holds i) (hy : ¬ y.Holds i) (j : Nat) : ¬ y.Holds j := by
    intro hj
    by_cases hji : j = i
    · exact hy (hji ▸ hj)
    · exact hji (h.one j i (hother j hji ▸ hj) hx)
  generalize a.holdsHandle = held at hhands hholds
  generalize (y.standing? i).elim false Activity.holdsHandle = next at hhands hholds'
  -- what a step does to the handle decides who has it afterwards
  cases hhands with
  | keep hk =>
    have hall (j : Nat) : y.Holds j ↔ x.Holds j := by
      by_cases hj : j = i
      · rw [hj]
        exact hholds'.trans hholds.symm
      · rw [hother j hj]
    refine hrest (fun j k hj hk => h.one j k ((hall j).1 hj) ((hall k).1 hk)) ?_ ?_
    · exact fun j hj => hk.handle.trans (h.taken j ((hall j).1 hj))
    · intro hy hh
      refine (h.left (hsp ▸ hy) (hk.handle ▸ hh)).imp ?_ (h.stays_stopped hs)
      rintro ⟨j, hj⟩
      exact ⟨j, (hall j).2 hj⟩
  | take hfree htake _ _ =>
    have honly (j : Nat) (hj : y.Holds j) : j = i := by
      by_contra hji
      have hx := h.taken j (hother j hji ▸ hj)
      rw [hfree] at hx
      cases hx
    exact hrest (fun j k hj hk => (honly j hj).trans (honly k hk).symm) (fun _ _ => htake)
      fun _ _ => .inl ⟨i, hholds'.2 rfl⟩
  | giveBack hback _ _ =>
    have hnone := hfreed (hholds.2 rfl) fun hy => by cases hholds'.1 hy
    refine hrest (fun j _ hj => absurd hj (hnone j)) (fun j hj => absurd hj (hnone j)) ?_
    intro _ hh
    rw [hback] at hh
    cases hh
  | spend hk hstop =>
    have hnone := hfreed (hholds.2 rfl) fun hy => by cases hholds'.1 hy
    exact hrest (fun j _ hj => absurd hj (hnone j)) (fun j hj => absurd hj (hnone j))
      fun _ _ => .inr (h.stays_stopped hs hstop)

theorem step (h : x.Governed) (hs : Unclosed x y) : y.Governed := by
  have hstep := hs.step
  cases hs with
  | own hy _ => exact h.own hy hstep
  | call hcall hf => exact h.call hcall hf
  | serve i hy _ => exact h.serve hy hstep
  | abroad _ hn => exact h.abroad hn hstep

theorem lives (h : x.Governed) (hr : Lives x y) : y.Governed := by
  induction hr with
  | refl => exact h
  | tail _ hs ih => exact ih.step hs

end Governed

omit [WritableLog μ] [Executor ε] in
theorem Fresh.governed (h : x.Fresh) (hs : x.site.node.spawned = false) : x.Governed := by
  obtain ⟨policy, pollTimeout, hrunner⟩ := h.site.runner
  have hnobody (i : Nat) : x.standing? i = none := by
    rw [standing?, h.callers]
    rfl
  have hends : x.site.Ends := by
    refine ⟨fun hg => ?_, fun hr => ?_⟩
    · rw [hrunner] at hg
      cases hg
    · rw [hrunner] at hr
      cases hr
  refine ⟨h.sound, ?_, ?_, fun _ => hs, fun _ => hends, ?_, ?_, ?_, ?_⟩
  · intro hstop
    rw [hrunner] at hstop
    cases hstop
  · rw [hrunner]
  · intro i a ha
    rw [hnobody i] at ha
    cases ha
  · rintro i j ⟨a, ha, -⟩
    rw [hnobody i] at ha
    cases ha
  · rintro i ⟨a, ha, -⟩
    rw [hnobody i] at ha
    cases ha
  · intro hsp
    rw [hs] at hsp
    cases hsp

def ReturnsEarly (x : Station μ κ ε) (i : Nat) : Prop :=
  ∃ y c status, x.serve? i = some y ∧ y.callers[i]? = some c ∧
    c.progress = .answered (.ok (.ended status)) ∧ y.site.node.runner.state ≠ .stopped

/-- The call is about to take the handle, which another call has, and the runner has not stopped. -/
def Overtaken (x : Station μ κ ε) (i : Nat) : Prop :=
  (∃ text, x.standing? i = some (.terminating (.taking text))) ∧
    x.site.node.runner.state ≠ .stopped ∧ ∃ j, x.Holds j

omit [LawfulLog μ] [WritableLog μ] in
theorem Overtaken.returns (h : x.Overtaken i) (hx : x.Governed) :
    ∃ c, x.callers[i]? = some c ∧
      x.serve? i = some (x.put x.site i (c.answer (.ok (.ended none)))) := by
  obtain ⟨⟨text, htext⟩, -, j, hj⟩ := h
  obtain ⟨c, hc, hp⟩ := caller_of_standing? htext
  have hm : (Activity.terminating (.taking text)).step i x.site =
      .done x.site (.ok (.ended none)) := by
    simp [Activity.step, Terminating.step, hx.taken j hj, Move.within, Activity.answer, Except.map]
  exact ⟨c, hc, serve?_done hc hp hm⟩

/-- As long as nobody closes the node, a call to terminate it returns well before the runner has stopped
exactly when it finds that another call has the handle on the runner. -/
theorem returns_early_iff_overtaken (hx : x.Fresh) (hspawned : x.site.node.spawned = false)
    (hr : Lives x y) (i : Nat) : y.ReturnsEarly i ↔ y.Overtaken i := by
  have hy := (hx.governed hspawned).lives hr
  constructor
  · rintro ⟨z, c, status, hz, hc, hp, hstate⟩
    obtain ⟨d, a, hd, ha, hstep⟩ := serve?_cases hz
    have hlt := (List.getElem?_eq_some_iff.1 hd).1
    have hstanding : y.standing? i = some a := by
      rw [standing?, hd, Option.bind_some, ha]
      rfl
    rcases hstep with ⟨s, a', -, rfl⟩ | ⟨s, reply, hm, rfl⟩ <;>
      rw [put, List.getElem?_set_self hlt] at hc <;> cases hc <;> cases hp
    rcases Activity.ended_cases (hy.calls hstanding) hm with
      ⟨text, rfl, hhandle, rfl, -⟩ | ⟨stage, rfl⟩
    · have hsp := (hy.fits i _ hstanding).1
      exact ⟨⟨text, hstanding⟩, hstate, (hy.left hsp hhandle).resolve_right hstate⟩
    · have hhands := Activity.step_hands (fun hsp => hy.ends (.inr hsp)) (hy.calls hstanding)
        (hy.fits i _ hstanding) i
      rw [hm] at hhands
      have hstop : y.site.node.runner.state = .stopped := (hy.fits i _ hstanding).2
      exact absurd ((congrArg Runner.state hhands.1.runner).trans hstop) hstate
  · intro h
    obtain ⟨c, hc, hz⟩ := h.returns hy
    refine ⟨_, c.answer (.ok (.ended none)), none, hz, ?_, rfl, h.2.1⟩
    rw [put, List.getElem?_set_self (List.getElem?_eq_some_iff.1 hc).1]

def stranded : Station Tape TapeClient Engine :=
  onTape [] { available := false } {}

def ending : Activity :=
  .terminating (.checking "TERMINATE CLUSTER;")

def isTaking : Activity → Bool
  | .terminating (.taking _) => true
  | _ => false

set_option maxRecDepth 10000 in
theorem exists_overtaken :
    ∃ x, Lives stranded x ∧ x.Overtaken 1 ∧ x.site.node.runner.state = .degraded := by
  have hrun : ((advances? 13 stranded).bind fun x₁ =>
      (advances? 9 (x₁.grown [Lifetime.creation "A"])).bind fun x₂ =>
        (serves? 0 9 (x₂.accept ending)).bind fun x₃ =>
          (serves? 1 1 (x₃.accept ending)).map fun x =>
            decide (x₁.site.log.lines.length < 2 ∧ x₂.site.node.spawned = true ∧
              x₃.site.node.spawned = true ∧ x.site.node.runner.state = .degraded ∧
              (x.standing? 0).map Activity.holdsHandle = some true ∧
              (x.standing? 1).map isTaking = some true)) = some true := by
    decide +kernel
  obtain ⟨x₁, h₁, hrun⟩ := Option.bind_eq_some_iff.1 hrun
  obtain ⟨x₂, h₂, hrun⟩ := Option.bind_eq_some_iff.1 hrun
  obtain ⟨x₃, h₃, hrun⟩ := Option.bind_eq_some_iff.1 hrun
  obtain ⟨x, h, hrun⟩ := Option.map_eq_some_iff.1 hrun
  obtain ⟨hlines, hspawned, hspawned', hstate, hholds, htaking⟩ := of_decide_eq_true hrun
  obtain ⟨a, ha, hholds⟩ := Option.map_eq_some_iff.1 hholds
  obtain ⟨b, hb, htaking⟩ := Option.map_eq_some_iff.1 htaking
  have hgrown : Lives x₁ (x₁.grown [Lifetime.creation "A"]) := by
    refine .single (.abroad ⟨Lifetime.drift_grown ?_, id, rfl⟩ rfl)
    exact Nat.le_trans (Nat.succ_le_of_lt hlines) (by decide)
  have hfirst : Lives x₂ (x₂.accept ending) := .single (.call trivial ⟨hspawned, trivial⟩)
  have hsecond : Lives x₃ (x₃.accept ending) := .single (.call trivial ⟨hspawned', trivial⟩)
  refine ⟨x, ?_, ⟨?_, by rw [hstate]; decide, 0, a, ha, hholds⟩, hstate⟩
  · exact (((((advances?_run .own h₁).trans hgrown).trans (advances?_run .own h₂)).trans hfirst).trans
      (serves?_run (.serve 0) h₃)).trans (hsecond.trans (serves?_run (.serve 1) h))
  · unfold isTaking at htaking
    split at htaking
    · exact ⟨_, hb⟩
    · cases htaking

theorem stranded_fresh : stranded.Fresh :=
  onTape_fresh (by decide) _ _

theorem returns_early_iff_overtaken_degraded :
    ∃ x, Lives stranded x ∧ x.site.node.runner.state = .degraded ∧ x.ReturnsEarly 1 := by
  obtain ⟨x, hr, ho, hstate⟩ := exists_overtaken
  exact ⟨x, hr, hstate, (returns_early_iff_overtaken stranded_fresh rfl hr 1).2 ho⟩

/-- The second call answers that the runner has come to its end, without a status, while it waits for
the broker. -/
theorem termination_returns_degraded :
    stranded.Fresh ∧ ∃ x y c, Lives stranded x ∧ x.serve? 1 = some y ∧ y.callers[1]? = some c ∧
      c.progress = .answered (.ok (.ended none)) ∧ y.site.node.runner.state = .degraded := by
  obtain ⟨x, hr, ho, hstate⟩ := exists_overtaken
  obtain ⟨c, hc, hy⟩ := ho.returns ((stranded_fresh.governed rfl).lives hr)
  refine ⟨stranded_fresh, x, _, c.answer (.ok (.ended none)), hr, hy, ?_, rfl, hstate⟩
  rw [put, List.getElem?_set_self (List.getElem?_eq_some_iff.1 hc).1]

end Station

end StatementLog
