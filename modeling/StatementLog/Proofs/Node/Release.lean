import StatementLog.Proofs.Node.Waiting
import StatementLog.Proofs.Runner.Halt
import StatementLog.Proofs.Tracker.Fate

namespace StatementLog

variable {μ κ ε : Type}

def Activity.wait? : Activity → Option Following
  | following stage => some stage
  | executing (.following stage) => some stage
  | _ => none

namespace Following

def found? : Following → Option Bool
  | awaiting stopped _ => some stopped
  | registering _ _ | testing _ _ => none

def left : Following → Nat
  | registering _ _ => 4
  | testing _ _ => 3
  | awaiting _ (.arriving _ _) => 2
  | awaiting _ (.waiting _ _) => 1

def Prompt (now : Nat) : Following → Prop
  | awaiting true (.arriving _ timeout) => timeout = 0
  | awaiting true (.waiting _ deadline) => deadline ≤ now
  | _ => True

structure Minds (s : Site μ κ ε) (published : List (Slot × Status)) (stage : Following) : Prop where
  stands {w : Nat} : stage.waiter? = some w → s.tracker.Stands published w stage.slot
  fated {w : Nat} : stage.waiter? = some w → ∃ v, s.tracker.Fated ⟨stage.slot, w⟩ v
  prompt : stage.Prompt s.now

def Free (s : Site μ κ ε) : Following → Prop
  | registering _ _ => s.node.runnerStopped = true
  | testing handle _ => s.node.runnerStopped = true ∨ s.tracker.outcome handle ≠ .pending
  | awaiting true _ => True
  | awaiting false (.arriving handle _) => s.tracker.outcome handle ≠ .pending
  | awaiting false (.waiting handle _) => s.tracker.outcome handle ≠ .pending

end Following

/-- How a wait for the slot ends without its runner: with a final status that had been published, or
with word that the runner has stopped. -/
def Reply.Parts (published : List (Slot × Status)) (slot : Slot) (reply : Reply) : Prop :=
  (∃ status, reply = .ok (.status status) ∧ status.isTerminal = true ∧
      (slot, status) ∈ published) ∨
    reply = .error (.runnerStopped (.beforeStatus slot.id slot.offset))

section

variable {s s' : Site μ κ ε} {published published' : List (Slot × Status)}
  {stage stage' : Following}

theorem Following.Minds.mono (hm : stage.Minds s published) (hnow : s.now ≤ s'.now)
    (hs : ∀ w slot, s.tracker.Stands published w slot → s'.tracker.Stands published' w slot)
    (hf : s.tracker.Furthers s'.tracker) : stage.Minds s' published' where
  stands hw := hs _ _ (hm.stands hw)
  fated hw := by
    obtain ⟨v, hv⟩ := hm.fated hw
    obtain ⟨v', hv', -⟩ := hf _ _ hv
    exact ⟨v', hv'⟩
  prompt := by
    have hp := hm.prompt
    unfold Prompt at hp ⊢
    split at hp
    · exact hp
    · exact Nat.le_trans hp hnow
    · trivial

theorem Tracker.Furthers.outcome_ne {t t' : Tracker} {h : StatusHandle} {v : Tracker.Waiting}
    (hf : t.Furthers t') (hv : t.Fated h v) (ho : t.outcome h ≠ .pending) :
    t'.outcome h ≠ .pending := by
  obtain ⟨v', hv', hkeep⟩ := hf h v hv
  rw [hv.outcome] at ho
  rw [hv'.outcome, hkeep ho]
  exact ho

theorem Following.Free.mono (hfree : stage.Free s) (hm : stage.Minds s published)
    (hstop : s.node.runnerStopped = true → s'.node.runnerStopped = true)
    (hf : s.tracker.Furthers s'.tracker) : stage.Free s' := by
  have hkeep {w : Nat} (hw : stage.waiter? = some w)
      (ho : s.tracker.outcome ⟨stage.slot, w⟩ ≠ .pending) :
      s'.tracker.outcome ⟨stage.slot, w⟩ ≠ .pending := by
    obtain ⟨v, hv⟩ := hm.fated hw
    exact hf.outcome_ne hv ho
  cases stage with
  | registering slot timeout => exact hstop hfree
  | testing handle timeout => exact hfree.imp hstop (hkeep rfl)
  | awaiting stopped stage =>
    cases stopped with
    | true => trivial
    | false => cases stage <;> exact hkeep rfl hfree

theorem Following.step_next (hh : s.tracker.Honest published) (hm : stage.Minds s published)
    (hs : stage.step s = .next s' stage') :
    stage'.Minds s' published ∧ stage'.slot = stage.slot ∧ stage'.left + 1 = stage.left ∧
      (∀ w, stage.waiter? = some w → stage'.waiter? = some w) ∧
      (stage.Free s → stage'.Free s') ∧ s'.now = s.now ∧ s'.log = s.log ∧ s'.node = s.node := by
  cases stage with
  | registering slot timeout =>
    obtain ⟨hfst, hfated⟩ := hh.register_fated slot
    obtain ⟨-, hstands⟩ := hh.register_stands slot
    rcases hr : s.tracker.register slot with ⟨handle, tracker⟩
    rw [hr] at hfst hfated hstands
    rw [step, hr] at hs
    cases hs
    cases hfst
    refine ⟨⟨?_, ?_, trivial⟩, rfl, rfl, by rintro w ⟨⟩, fun hf => .inl hf, rfl, rfl, rfl⟩
    · rintro w ⟨⟩
      exact hstands
    · rintro w ⟨⟩
      exact ⟨_, hfated⟩
  | testing handle timeout =>
    rw [step] at hs
    split at hs
    · cases hs
      exact ⟨⟨hm.stands, hm.fated, rfl⟩, rfl, rfl, fun _ h => h, fun _ => trivial, rfl, rfl, rfl⟩
    · next hn =>
      cases hs
      exact ⟨⟨hm.stands, hm.fated, trivial⟩, rfl, rfl, fun _ h => h,
        fun hf => hf.resolve_left hn, rfl, rfl, rfl⟩
  | awaiting stopped stage =>
    rcases Move.within_next hs with ⟨stage', hstep, rfl⟩ | ⟨_, _, -, hfin⟩
    · cases stage with
      | arriving handle timeout =>
        cases hstep
        refine ⟨⟨hm.stands, hm.fated, ?_⟩, rfl, rfl, fun _ h => h, ?_, rfl, rfl, rfl⟩
        · cases stopped with
          | true =>
            have hp : timeout = 0 := hm.prompt
            rw [hp]
            exact Nat.le_refl _
          | false => trivial
        · cases stopped <;> exact id
      | waiting handle deadline =>
        rw [Awaiting.step.eq_def] at hstep
        simp only at hstep
        split at hstep
        · cases hstep
        · cases hstep
        · split at hstep <;> cases hstep
    · cases hfin

theorem Following.step_ends (hm : stage.Minds s published) (hfree : stage.Free s) :
    (∃ s' stage', stage.step s = .next s' stage') ∨
      ∃ s' r, stage.step s = .done s' r ∧ stage.left = 1 ∧ s'.now = s.now ∧ s'.log = s.log ∧
        s'.node = s.node ∧ Reply.Parts published stage.slot (r.map .status) ∧
        ∀ w, stage.waiter? = some w → ∃ v, v ≠ .pending ∧ s'.tracker.Fated ⟨stage.slot, w⟩ v := by
  cases stage with
  | registering slot timeout => exact .inl ⟨_, _, rfl⟩
  | testing handle timeout =>
    rw [step]
    split <;> exact .inl ⟨_, _, rfl⟩
  | awaiting stopped stage =>
    cases stage with
    | arriving handle timeout => exact .inl ⟨_, _, rfl⟩
    | waiting handle deadline =>
      obtain ⟨v, hv⟩ := hm.fated rfl
      have ho : s.tracker.outcome handle = v := hv.outcome
      refine .inr ?_
      rw [step, Awaiting.step, ho]
      cases v with
      | resolved status =>
        obtain ⟨hp, ht⟩ := (hm.stands rfl).outcome ho
        refine ⟨_, _, rfl, rfl, rfl, rfl, rfl, .inl ⟨status, rfl, ht, hp⟩, ?_⟩
        rintro w ⟨⟩
        exact ⟨_, by simp, hv⟩
      | dropped =>
        refine ⟨_, _, rfl, rfl, rfl, rfl, rfl, .inr rfl, ?_⟩
        rintro w ⟨⟩
        exact ⟨_, by simp, hv⟩
      | pending =>
        -- Only a wait without patience is free while nothing has come of it.
        cases stopped with
        | false => exact absurd ho hfree
        | true =>
          have hdue : deadline ≤ s.now := hm.prompt
          simp only [if_pos hdue]
          refine ⟨_, _, rfl, rfl, rfl, rfl, rfl, .inr rfl, ?_⟩
          rintro w ⟨⟩
          have he := hv.evict handle
          rw [if_pos ⟨rfl, rfl⟩] at he
          exact ⟨_, by simp, he⟩

end

theorem Following.Minds.registering (s : Site μ κ ε) (published : List (Slot × Status)) (slot : Slot)
    (timeout : Nat) : (Following.registering slot timeout).Minds s published :=
  ⟨nofun, nofun, trivial⟩

theorem Tracker.close_outcome (t : Tracker) (h : StatusHandle) : t.close.outcome h ≠ .pending := by
  unfold outcome
  split
  · simp
  · rw [if_neg]
    · simp
    · simp [waitersOf, close]

namespace Activity

theorem IsCall.wait?_eq {a : Activity} {stage : Following} (h : a.IsCall)
    (hw : a.wait? = some stage) : ∃ slot timeout, stage = .registering slot timeout := by
  cases a with
  | following stage' =>
    cases hw
    cases stage with
    | registering slot timeout => exact ⟨slot, timeout, rfl⟩
    | _ => exact h.elim
  | executing stage' =>
    cases stage' with
    | submitting _ _ => cases hw
    | following _ => exact h.elim
  | _ => cases hw

variable [CommandLog μ κ] [Executor ε] {a : Activity} {stage : Following}

theorem step_of_wait? (h : a.wait? = some stage) (task : Nat) (s : Site μ κ ε) :
    ∃ wrap : Following → Activity, (∀ stage', (wrap stage').wait? = some stage') ∧
      a.step task s = (stage.step s).within wrap (answer .status) := by
  cases a with
  | following stage' =>
    cases h
    exact ⟨following, fun _ => rfl, rfl⟩
  | executing stage' =>
    cases stage' with
    | submitting _ _ => cases h
    | following stage' =>
      cases h
      refine ⟨fun stage' => executing (.following stage'), fun _ => rfl, ?_⟩
      rw [step, Executing.step]
      cases stage.step s <;> rfl
  | _ => cases h

theorem wait?_next {s s' : Site μ κ ε} {a' : Activity} {stage' : Following} {task : Nat}
    (hc : a.Calls) (h : a.step task s = .next s' a') (hw : a'.wait? = some stage') :
    (∃ stage, a.wait? = some stage ∧ stage.step s = .next s' stage') ∨
      ∃ slot timeout, stage' = .registering slot timeout := by
  cases a with
  | following stage =>
    rcases Move.within_next h with ⟨stage'', hm, rfl⟩ | ⟨_, _, -, h⟩
    · cases hw
      exact .inl ⟨stage, rfl, hm⟩
    · cases h
  | executing stage =>
    rcases Move.within_next h with ⟨stage'', hm, rfl⟩ | ⟨_, _, -, h⟩
    · cases stage with
      | submitting stage timeout =>
        rcases Move.within_next hm with ⟨_, -, rfl⟩ | ⟨_, r, -, hm⟩
        · cases hw
        · cases r <;> cases hm
          cases hw
          exact .inr ⟨_, _, rfl⟩
      | following stage =>
        rcases Move.within_next hm with ⟨_, hinner, rfl⟩ | ⟨_, _, -, hm⟩
        · cases hw
          exact .inl ⟨stage, rfl, hinner⟩
        · cases hm
    · cases h
  | submitting stage | terminating stage | closing stage | retiring stage =>
    rcases Move.within_next h with ⟨_, -, rfl⟩ | ⟨_, _, -, h⟩
    · cases hw
    · cases h
  | probing => cases h
  | watching state =>
    rw [step] at h
    split at h
    · cases h
    · split at h <;> cases h
  | sleeping wake =>
    rw [step] at h
    split at h <;> cases h
  | _ => exact hc.elim

end Activity

namespace Station

variable [CommandLog μ κ] [LawfulLog μ] [WritableLog μ] [Executor ε] {x y z : Station μ κ ε}

theorem step_caller (hx : x.Sound) (h : Step x y) {i : Nat} {c : Caller}
    (hc : y.callers[i]? = some c) :
    x.callers[i]? = some c ∨ (∃ call, call.IsCall ∧ c = .ofCall call ∧ x.callers[i]? = none) ∨
      ∃ d a, x.callers[i]? = some d ∧ d.progress = .busy a ∧ a.Calls ∧
        y.life.published = x.life.published ∧
        ((∃ a', a.step i x.site = .next y.site a' ∧ c = d.goOn a') ∨
          ∃ reply, a.step i x.site = .done y.site reply ∧ c = d.answer reply) := by
  cases h with
  | own h _ =>
    rw [(advance?_cases hx.synchronous h).1] at hc
    exact .inl hc
  | @call call hcall =>
    rw [accept, List.getElem?_append] at hc
    split at hc
    · exact .inl hc
    · next hlt =>
      refine .inr (.inl ⟨call, hcall, ?_, List.getElem?_eq_none (Nat.le_of_not_lt hlt)⟩)
      exact List.mem_singleton.1 (List.mem_of_getElem? hc)
  | serve j h _ =>
    obtain ⟨d, d', hd, hcs, -, hl, -, -, a, ha, hstep⟩ := serve?_bears hx h
    rw [hcs] at hc
    by_cases hj : j = i
    · cases hj
      rw [List.getElem?_set_self (List.getElem?_eq_some_iff.1 hd).1] at hc
      cases hc
      have hcall := hx.calls d (List.mem_of_getElem? hd) a ha
      refine .inr (.inr ⟨d, a, hd, ha, hcall, by rw [hl], ?_⟩)
      rcases hstep with ⟨a', hm, he, -⟩ | hdone
      · exact .inl ⟨a', hm, he⟩
      · exact .inr hdone
    · rw [List.getElem?_set_ne hj] at hc
      exact .inl hc
  | abroad _ => exact .inl hc

theorem step_tracker (hx : x.Sound) (h : Step x y) :
    (y.life.published = x.life.published ∧ Tracker.Use x.site.tracker y.site.tracker) ∨
      ∃ ps, y.life.published = ps ++ x.life.published ∧
        y.site.tracker = ps.foldr (fun p t => t.publish p.1 p.2) x.site.tracker := by
  cases h with
  | own h hb =>
    obtain ⟨-, -, hl | ⟨hl, hs | ⟨-, hs⟩⟩⟩ := advance?_cases hx.synchronous h
    · exact .inr (Lifetime.advance?_published hl)
    · exact .inl ⟨by rw [hl], (hs hb).tracker⟩
    · refine .inl ⟨by rw [hl], ?_⟩
      rw [hs]
      exact .none _
  | call _ => exact .inl ⟨rfl, .none _⟩
  | serve i h hb =>
    obtain ⟨-, -, -, -, -, hl, -, hs, -⟩ := serve?_bears hx h
    exact .inl ⟨by rw [hl], (hs hb).tracker⟩
  | abroad h =>
    refine .inl ⟨rfl, ?_⟩
    have ht : (x.move _).site.tracker = x.site.tracker := h.tracker
    rw [ht]
    exact .none _

theorem reaches_heard (hx : x.Sound) (h : Reaches x y) : ∃ ps,
    y.life.published = ps ++ x.life.published ∧
      Tracker.Hears ps x.site.tracker y.site.tracker := by
  induction h with
  | refl => exact ⟨[], rfl, .refl _⟩
  | tail hr hs ih =>
    obtain ⟨ps, hp, ht⟩ := ih
    rcases step_tracker (life_reaches hx hr).1 hs with ⟨hq, hu⟩ | ⟨more, hq, hu⟩
    · exact ⟨ps, hq.trans hp, ht.use hu⟩
    · refine ⟨more ++ ps, ?_, ?_⟩
      · rw [hq, hp, List.append_assoc]
      · rw [hu]
        exact ht.publish_all more

omit [WritableLog μ] in
theorem step_bounded (h : Step x y) (hb : LawfulLog.size x.site.log ≤ Word.max) :
    LawfulLog.size y.site.log ≤ Word.max := by
  cases h with
  | own _ hb => exact hb
  | call _ => exact hb
  | serve _ _ hb => exact hb
  | abroad h => exact h.log.bounded

/-- A step in which the clock does not go back and the queue goes on looking at the runner. -/
structure Tick (x y : Station μ κ ε) : Prop where
  step : Step x y
  now : x.site.now ≤ y.site.now
  follows : x.site.node.queue.followsRunner = true → y.site.node.queue.followsRunner = true

def Lasts : Station μ κ ε → Station μ κ ε → Prop :=
  Relation.ReflTransGen Tick

omit [WritableLog μ] in
theorem Lasts.reaches (h : Lasts x y) : Reaches x y :=
  Relation.ReflTransGen.mono (fun _ _ ht => ht.step) _ _ h

structure Heeded (x : Station μ κ ε) : Prop where
  honest : x.site.tracker.Honest x.life.published
  bounded : LawfulLog.size x.site.log ≤ Word.max
  minds {i : Nat} {c : Caller} {a : Activity} {stage : Following} : x.callers[i]? = some c →
    c.progress = .busy a → a.wait? = some stage → stage.Minds x.site x.life.published

structure Leaves (x y : Station μ κ ε) : Prop where
  honest : y.site.tracker.Honest y.life.published
  stands : ∀ w slot, x.site.tracker.Stands x.life.published w slot →
    y.site.tracker.Stands y.life.published w slot
  furthers : x.site.tracker.Furthers y.site.tracker

theorem Heeded.leaves (h : x.Heeded) (hx : x.Sound) (hs : Step x y) : x.Leaves y := by
  rcases step_tracker hx hs with ⟨hp, hu⟩ | ⟨ps, hp, ht⟩
  · refine ⟨?_, ?_, hu.furthers⟩
    · rw [hp]
      exact hu.honest h.honest
    · rw [hp]
      exact fun _ _ => hu.stands
  · refine ⟨?_, ?_, ?_⟩
    · rw [hp, ht]
      exact h.honest.publish_all ps
    · rw [hp, ht]
      exact fun _ _ hst => hst.publish_all ps
    · rw [ht]
      exact Tracker.publish_all_furthers _ ps

theorem step_wait (hx : x.Sound) (h : Step x y) {i : Nat} {c : Caller} {a : Activity}
    {stage : Following} (hc : y.callers[i]? = some c) (ha : c.progress = .busy a)
    (hw : a.wait? = some stage) :
    x.callers[i]? = some c ∨ (∃ slot timeout, stage = .registering slot timeout) ∨
      ∃ d b stage₀, x.callers[i]? = some d ∧ d.progress = .busy b ∧ b.wait? = some stage₀ ∧
        stage₀.step x.site = .next y.site stage ∧ y.life.published = x.life.published := by
  rcases step_caller hx h hc with hc | ⟨call, hcall, rfl, -⟩ |
    ⟨d, b, hd, hb, hcall, hp, ⟨a', hm, rfl⟩ | ⟨reply, -, rfl⟩⟩
  · exact .inl hc
  · cases ha
    exact .inr (.inl (hcall.wait?_eq hw))
  · cases ha
    rcases Activity.wait?_next hcall hm hw with ⟨stage₀, hw₀, hs⟩ | hr
    · exact .inr (.inr ⟨d, b, stage₀, hd, hb, hw₀, hs, hp⟩)
    · exact .inr (.inl hr)
  · cases ha

theorem Heeded.tick (h : x.Heeded) (hx : x.Sound) (ht : Tick x y) : y.Heeded := by
  have hl := h.leaves hx ht.step
  refine ⟨hl.honest, step_bounded ht.step h.bounded, fun hc ha hw => ?_⟩
  rcases step_wait hx ht.step hc ha hw with hc | ⟨slot, timeout, rfl⟩ |
    ⟨d, b, stage₀, hd, hb, hw₀, hs, hp⟩
  · exact (h.minds hc ha hw).mono ht.now hl.stands hl.furthers
  · exact .registering ..
  · rw [hp]
    exact (Following.step_next h.honest (h.minds hd hb hw₀) hs).1

theorem Heeded.lasts (h : x.Heeded) (hx : x.Sound) (hr : Lasts x y) : y.Heeded := by
  induction hr with
  | refl => exact h
  | tail hr ht ih => exact ih.tick (life_reaches hx (Lasts.reaches hr)).1 ht

omit [WritableLog μ] [Executor ε] in
theorem Fresh.heeded (h : x.Fresh) : x.Heeded where
  honest := h.attended.tracker
  bounded := h.site.bounded
  minds hc := by
    rw [h.callers] at hc
    cases hc

structure Still (x : Station μ κ ε) : Prop where
  halted : x.life.Halted
  follows : x.site.node.queue.followsRunner = true

omit [LawfulLog μ] [WritableLog μ] [CommandLog μ κ] [Executor ε] in
theorem Still.stopped (h : x.Still) : x.site.node.runnerStopped = true := by
  have hs : x.site.node.runner.state = .stopped := h.halted.1
  simp [Node.runnerStopped, h.follows, hs]

theorem Still.tick (h : x.Still) (hx : x.Sound) (ht : Tick x y) :
    y.Still ∧ y.life.published = x.life.published := by
  rcases life_step hx ht.step with he | hs
  · exact ⟨⟨by rw [he]; exact h.halted, ht.follows h.follows⟩, by rw [he]⟩
  · obtain ⟨hh, hp⟩ := h.halted.step hs
    exact ⟨⟨hh, ht.follows h.follows⟩, hp⟩

theorem Still.lasts (h : x.Still) (hx : x.Sound) (hr : Lasts x y) :
    y.Still ∧ y.life.published = x.life.published := by
  induction hr with
  | refl => exact ⟨h, rfl⟩
  | tail hr ht ih =>
    obtain ⟨hy, hp⟩ := ih.1.tick (life_reaches hx (Lasts.reaches hr)).1 ht
    exact ⟨hy, hp.trans ih.2⟩

def Freed (x : Station μ κ ε) : Prop :=
  ∀ (i : Nat) (c : Caller) (a : Activity) (stage : Following), x.callers[i]? = some c →
    c.progress = .busy a → a.wait? = some stage → stage.Free x.site

theorem Freed.tick (h : x.Freed) (hx : x.Sound) (hm : x.Heeded) (ht : Tick x y) (hy : y.Still) :
    y.Freed := by
  intro i c a stage hc ha hw
  rcases step_wait hx ht.step hc ha hw with hc | ⟨slot, timeout, rfl⟩ |
    ⟨d, b, stage₀, hd, hb, hw₀, hs, -⟩
  · exact (h i c a stage hc ha hw).mono (hm.minds hc ha hw) (fun _ => hy.stopped)
      (hm.leaves hx ht.step).furthers
  · exact hy.stopped
  · obtain ⟨-, -, -, -, hfree, -⟩ := Following.step_next hm.honest (hm.minds hd hb hw₀) hs
    exact hfree (h i d b stage₀ hd hb hw₀)

theorem Freed.lasts (h : x.Freed) (hx : x.Sound) (hm : x.Heeded) (hs : x.Still) (hr : Lasts x y) :
    y.Freed := by
  induction hr with
  | refl => exact h
  | tail hr ht ih =>
    have hz := (life_reaches hx (Lasts.reaches hr)).1
    exact ih.tick hz (hm.lasts hx hr) ht ((hs.lasts hx hr).1.tick hz ht).1

omit [LawfulLog μ] [WritableLog μ] in
theorem serve?_next {i : Nat} {c : Caller} {a a' : Activity} {s : Site μ κ ε}
    (hc : x.callers[i]? = some c) (ha : c.progress = .busy a)
    (hm : a.step i x.site = .next s a') : x.serve? i = some (x.put s i (c.goOn a')) := by
  simp [serve?, hc, ha, Progress.activity?, hm]

omit [LawfulLog μ] [WritableLog μ] in
theorem serve?_done {i : Nat} {c : Caller} {a : Activity} {s : Site μ κ ε} {reply : Reply}
    (hc : x.callers[i]? = some c) (ha : c.progress = .busy a)
    (hm : a.step i x.site = .done s reply) : x.serve? i = some (x.put s i (c.answer reply)) := by
  simp [serve?, hc, ha, Progress.activity?, hm]

omit [LawfulLog μ] [WritableLog μ] in
theorem freed_of_close (hs : y.Still) {j : Nat} {d : Caller} (hd : x.callers[j]? = some d)
    (hp : d.progress = .busy (.retiring .closingTracker)) (hy : x.serve? j = some y) : y.Freed := by
  have hsite : y.site = x.site.closeTracker := by
    have hm : (Activity.retiring .closingTracker).step j x.site =
        .done x.site.closeTracker (.ok .done) := rfl
    cases (serve?_done hd hp hm).symm.trans hy
    rfl
  have hclosed (h : StatusHandle) : y.site.tracker.outcome h ≠ .pending := by
    rw [hsite]
    exact Tracker.close_outcome _ h
  intro i c a stage _ _ _
  cases stage with
  | registering slot timeout => exact hs.stopped
  | testing handle timeout => exact .inl hs.stopped
  | awaiting stopped stage =>
    cases stopped with
    | true => trivial
    | false => cases stage <;> exact hclosed _

theorem serves?_answers {i : Nat} {c : Caller} {a : Activity} {stage : Following} (hx : x.Sound)
    (hm : x.Heeded) (hc : x.callers[i]? = some c) (ha : c.progress = .busy a)
    (hw : a.wait? = some stage) (hfree : stage.Free x.site) :
    ∃ y d reply, serves? i stage.left x = some y ∧ y.site.now = x.site.now ∧
      y.callers[i]? = some d ∧ d.progress = .answered reply := by
  generalize hn : stage.left = n
  induction n generalizing x c a stage with
  | zero => cases stage <;> first | cases hn | (rename_i inner; cases inner <;> cases hn)
  | succ n ih =>
    have hlt : i < x.callers.length := (List.getElem?_eq_some_iff.1 hc).1
    obtain ⟨wrap, hwrap, hstep⟩ := Activity.step_of_wait? hw i x.site
    have hminds := hm.minds hc ha hw
    rcases Following.step_ends hminds hfree with ⟨s, stage', hs⟩ | ⟨s, r, hs, hl, hnow, hlog, -⟩
    · obtain ⟨-, -, hl, -, hfree', hnow, hlog, hnode⟩ := Following.step_next hm.honest hminds hs
      rw [hs] at hstep
      have hserve := serve?_next hc ha hstep
      have hb : LawfulLog.size (x.put s i (c.goOn (wrap stage'))).site.log ≤ Word.max := by
        have he : (x.put s i (c.goOn (wrap stage'))).site.log = x.site.log := hlog
        rw [he]
        exact hm.bounded
      have htick : Tick x (x.put s i (c.goOn (wrap stage'))) := by
        refine ⟨.serve i hserve hb, Nat.le_of_eq hnow.symm, fun hf => ?_⟩
        show s.node.queue.followsRunner = true
        rw [hnode]
        exact hf
      obtain ⟨y, d, reply, hy, hnow', hd, hr⟩ := ih (hx.step htick.step) (hm.tick hx htick)
        (List.getElem?_set_self hlt) rfl (hwrap stage') (hfree' hfree)
        (Nat.succ.inj (hl.trans hn))
      refine ⟨y, d, reply, ?_, hnow'.trans hnow, hd, hr⟩
      rw [serves?, hserve, Option.bind_some, if_pos hb]
      exact hy
    · rw [hs] at hstep
      have hserve := serve?_done hc ha hstep
      have hb : LawfulLog.size (x.put s i (c.answer (r.map .status))).site.log ≤ Word.max := by
        have he : (x.put s i (c.answer (r.map .status))).site.log = x.site.log := hlog
        rw [he]
        exact hm.bounded
      obtain rfl : n = 0 := by omega
      refine ⟨x.put s i (c.answer (r.map .status)), c.answer (r.map .status), r.map .status, ?_,
        hnow, List.getElem?_set_self hlt, rfl⟩
      rw [serves?, hserve, Option.bind_some, if_pos hb, serves?]

def Parting (x : Station μ κ ε) (i : Nat) (slot : Slot) (number : Option Nat) : Prop :=
  ∃ c, x.callers[i]? = some c ∧
    ((∃ a stage, c.progress = .busy a ∧ a.wait? = some stage ∧ stage.slot = slot ∧
        (∀ w, number = some w → stage.waiter? = some w) ∧ stage.Free x.site) ∨
      ∃ reply, c.progress = .answered reply ∧ reply.Parts x.life.published slot ∧
        ∀ w, number = some w → ∃ v, v ≠ .pending ∧ x.site.tracker.Fated ⟨slot, w⟩ v)

theorem step_remains (hx : x.Sound) (h : Step x y) {i : Nat} {c : Caller}
    (hc : x.callers[i]? = some c) : ∃ d, y.callers[i]? = some d := by
  have hlt : i < x.callers.length := (List.getElem?_eq_some_iff.1 hc).1
  cases h with
  | own h _ => exact ⟨c, (advance?_cases hx.synchronous h).1 ▸ hc⟩
  | call _ => exact ⟨c, (List.getElem?_append_left hlt).trans hc⟩
  | serve j h _ =>
    obtain ⟨-, d', -, hcs, -⟩ := serve?_bears hx h
    rw [hcs]
    exact ⟨_, List.getElem?_eq_getElem (by rw [List.length_set]; exact hlt)⟩
  | abroad _ => exact ⟨c, hc⟩

theorem Parting.tick {i : Nat} {slot : Slot} {number : Option Nat} (h : x.Parting i slot number)
    (hx : x.Sound) (hm : x.Heeded) (hs : x.Still) (ht : Tick x y) : y.Parting i slot number := by
  obtain ⟨c, hc, hwait⟩ := h
  obtain ⟨hy, hpub⟩ := hs.tick hx ht
  have hleaves := hm.leaves hx ht.step
  obtain ⟨d, hd⟩ := step_remains hx ht.step hc
  refine ⟨d, hd, ?_⟩
  rcases step_caller hx ht.step hd with he | ⟨_, -, -, hnone⟩ | ⟨c', b, hc', hb, -, -, hstep⟩
  · cases hc.symm.trans he
    refine hwait.imp ?_ ?_
    · rintro ⟨a, stage, ha, hw, hslot, hnum, hfree⟩
      exact ⟨a, stage, ha, hw, hslot, hnum, hfree.mono (hm.minds hc ha hw) (fun _ => hy.stopped)
        hleaves.furthers⟩
    · rintro ⟨reply, ha, hp, hnum⟩
      refine ⟨reply, ha, hpub ▸ hp, fun w hw => ?_⟩
      obtain ⟨v, hne, hv⟩ := hnum w hw
      obtain ⟨v', hv', hkeep⟩ := hleaves.furthers _ _ hv
      exact ⟨v', (hkeep hne).symm ▸ hne, hv'⟩
  · rw [hc] at hnone
    cases hnone
  · cases hc.symm.trans hc'
    rcases hwait with ⟨a, stage, ha, hw, hslot, hnum, hfree⟩ | ⟨reply, ha, -⟩
    · cases ha.symm.trans hb
      obtain ⟨wrap, hwrap, he⟩ := Activity.step_of_wait? hw i x.site
      have hminds := hm.minds hc ha hw
      rcases Following.step_ends hminds hfree with
        ⟨s, stage', hs'⟩ | ⟨s, r, hs', -, -, -, -, hp, hf⟩
      · obtain ⟨-, hslot', -, hnum', hfree', -⟩ := Following.step_next hm.honest hminds hs'
        rw [hs'] at he
        rcases hstep with ⟨a', hm', rfl⟩ | ⟨reply, hm', rfl⟩
        · cases he.symm.trans hm'
          exact .inl ⟨_, stage', rfl, hwrap stage', hslot'.trans hslot,
            fun w hw => hnum' w (hnum w hw), hfree' hfree⟩
        · cases he.symm.trans hm'
      · rw [hs'] at he
        rcases hstep with ⟨a', hm', rfl⟩ | ⟨reply, hm', rfl⟩
        · cases he.symm.trans hm'
        · cases he.symm.trans hm'
          rw [hslot] at hp hf
          exact .inr ⟨_, rfl, hpub ▸ hp, fun w hw => hf w (hnum w hw)⟩
    · rw [ha] at hb
      cases hb

theorem Parting.lasts {i : Nat} {slot : Slot} {number : Option Nat} (h : x.Parting i slot number)
    (hx : x.Sound) (hm : x.Heeded) (hs : x.Still) (hr : Lasts x y) : y.Parting i slot number := by
  induction hr with
  | refl => exact h
  | tail hr ht ih =>
    exact ih.tick (life_reaches hx (Lasts.reaches hr)).1 (hm.lasts hx hr) (hs.lasts hx hr).1 ht

def Shut (x z : Station μ κ ε) : Prop :=
  ∃ y y' j d, Lasts x y ∧ y.callers[j]? = some d ∧
    d.progress = .busy (.retiring .closingTracker) ∧ y.serve? j = some y' ∧ Lasts y' z

theorem Shut.freed (h : Shut x z) (hx : x.Sound) (hm : x.Heeded) (hs : x.Still) : z.Freed := by
  obtain ⟨y, y', j, d, hxy, hd, hp, hy, hyz⟩ := h
  have hsound := (life_reaches hx (Lasts.reaches hxy)).1
  have hheeded := hm.lasts hx hxy
  have hstill := (hs.lasts hx hxy).1
  have hsite : y' = y.put y.site.closeTracker j (d.answer (.ok .done)) := by
    have hstep : (Activity.retiring .closingTracker).step j y.site =
        .done y.site.closeTracker (.ok .done) := rfl
    exact (Option.some.inj ((serve?_done hd hp hstep).symm.trans hy)).symm
  have htick : Tick y y' := by
    refine ⟨.serve j hy ?_, ?_, ?_⟩
    · rw [hsite]
      exact hheeded.bounded
    · rw [hsite]
      exact Nat.le_refl _
    · rw [hsite]
      exact id
  have hstill' := (hstill.tick hsound htick).1
  exact (freed_of_close hstill' hd hp hy).lasts (hsound.step htick.step)
    (hheeded.tick hsound htick) hstill' hyz

/-- A runner has stopped at `w`. From when the closer has closed the tracker every wait, and before
that every wait that has not found the runner still at work, is a few steps of its own away from its
answer, at any time and with no time passing; the answer is a final status that was published for its
slot before the stop, or that the runner has stopped, and the tracker does not know the wait
afterwards. -/
theorem no_wait_outlives_runner {w : Station μ κ ε} (hfresh : x.Fresh)
    (hfollows : x.site.node.queue.followsRunner = true) (hxw : Lasts x w)
    (hstop : w.site.node.runner.state = .stopped) (hwz : Lasts w z) {i : Nat} {c : Caller}
    {a : Activity} {stage : Following} (hi : z.callers[i]? = some c) (ha : c.progress = .busy a)
    (hwait : a.wait? = some stage) (hfree : Shut w z ∨ stage.found? ≠ some false) :
    (∃ z' d reply, serves? i stage.left z = some z' ∧ z'.site.now = z.site.now ∧
        z'.callers[i]? = some d ∧ d.progress = .answered reply) ∧
      ∀ z' d reply, Lasts z z' → z'.callers[i]? = some d → d.progress = .answered reply →
        reply.Parts w.life.published stage.slot ∧
          ∀ n, stage.waiter? = some n → ∀ slot, n ∉ z'.site.tracker.waitersOf slot := by
  obtain ⟨hsound, hlife⟩ := life_reaches hfresh.sound (Lasts.reaches hxw)
  have hheeded := hfresh.heeded.lasts hfresh.sound hxw
  have hstill : w.Still := by
    obtain ⟨task, hl⟩ := hfresh.life
    rw [hl] at hlife
    refine ⟨Lifetime.halted_of_stopped hfresh.site hlife hstop, ?_⟩
    have hkeep : ∀ u, Lasts x u → u.site.node.queue.followsRunner = true := by
      intro u hu
      induction hu with
      | refl => exact hfollows
      | tail _ ht ih => exact ht.follows ih
    exact hkeep w hxw
  have hsound' := (life_reaches hsound (Lasts.reaches hwz)).1
  have hheeded' := hheeded.lasts hsound hwz
  obtain ⟨hstill', hpub⟩ := hstill.lasts hsound hwz
  -- one that has found the runner at work needs the tracker closed, others find it stopped
  have hstage : stage.Free z.site := by
    rcases hfree with hshut | hfound
    · exact hshut.freed hsound hheeded hstill i c a stage hi ha hwait
    · cases stage with
      | registering slot timeout => exact hstill'.stopped
      | testing handle timeout => exact .inl hstill'.stopped
      | awaiting stopped inner =>
        cases stopped with
        | true => trivial
        | false => exact absurd rfl hfound
  refine ⟨serves?_answers hsound' hheeded' hi ha hwait hstage, ?_⟩
  intro z' d reply hz' hd hreply
  have hparting : z.Parting i stage.slot stage.waiter? :=
    ⟨c, hi, .inl ⟨a, stage, ha, hwait, rfl, fun _ h => h, hstage⟩⟩
  obtain ⟨d', hd', hends⟩ := hparting.lasts hsound' hheeded' hstill' hz'
  cases hd.symm.trans hd'
  rcases hends with ⟨a', -, ha', -⟩ | ⟨reply', hr, hp, hnum⟩
  · rw [ha'] at hreply
    cases hreply
  · rw [hr] at hreply
    cases hreply
    refine ⟨?_, fun n hn slot hmem => ?_⟩
    · rw [← hpub, ← (hstill'.lasts hsound' hz').2]
      exact hp
    · obtain ⟨v, hne, hv⟩ := hnum n hn
      have hcount := hv.listed slot
      rw [if_neg fun he => hne he.1] at hcount
      exact List.count_eq_zero.1 hcount hmem

omit [WritableLog μ] in
def paces? (next : Station μ κ ε → Option (Station μ κ ε)) :
    Nat → Station μ κ ε → Option (Station μ κ ε)
  | 0, x => some x
  | n + 1, x => (next x).bind fun y =>
    if LawfulLog.size y.site.log ≤ Word.max ∧ x.site.now ≤ y.site.now ∧
        y.site.node.queue.followsRunner = true then paces? next n y else none

omit [WritableLog μ] in
theorem paces?_lasts {next : Station μ κ ε → Option (Station μ κ ε)}
    (hnext : ∀ x y, next x = some y → LawfulLog.size y.site.log ≤ Word.max → Step x y) {n : Nat}
    (h : paces? next n x = some y) : Lasts x y := by
  induction n generalizing x with
  | zero =>
    cases h
    exact .refl
  | succ n ih =>
    obtain ⟨z, hz, hy⟩ := Option.bind_eq_some_iff.1 h
    split at hy
    · next hb => exact .head ⟨hnext x z hz hb.1, hb.2.1, fun _ => hb.2.2⟩ (ih hy)
    · cases hy

omit [WritableLog μ] [Executor ε] in
theorem of_paces?_one {next : Station μ κ ε → Option (Station μ κ ε)}
    (h : paces? next 1 x = some y) : next x = some y := by
  obtain ⟨z, hz, hy⟩ := Option.bind_eq_some_iff.1 h
  split at hy <;> cases hy
  exact hz

omit [WritableLog μ] in
theorem advance_lasts {n : Nat} (h : paces? advance? n x = some y) : Lasts x y :=
  paces?_lasts (fun _ _ => .own) h

omit [WritableLog μ] in
theorem serve_lasts {i n : Nat} (h : paces? (serve? · i) n x = some y) : Lasts x y :=
  paces?_lasts (fun _ _ => .serve i) h

omit [WritableLog μ] in
theorem accept_lasts (x : Station μ κ ε) (call : Activity) (h : call.IsCall) :
    Lasts x (x.accept call) :=
  .single ⟨.call h, Nat.le_refl _, id⟩

end Station

def Station.standing? (x : Station μ κ ε) (i : Nat) : Option Activity :=
  (x.callers[i]?).bind fun c => c.progress.activity?

theorem Station.caller_of_standing? {x : Station μ κ ε} {i : Nat} {a : Activity}
    (h : x.standing? i = some a) : ∃ c, x.callers[i]? = some c ∧ c.progress = .busy a := by
  obtain ⟨c, hc, ha⟩ := Option.bind_eq_some_iff.1 h
  refine ⟨c, hc, ?_⟩
  cases hp : c.progress with
  | busy a' =>
    rw [hp] at ha
    cases ha
    rfl
  | answered reply =>
    rw [hp] at ha
    cases ha

theorem Station.answered_of_standing? {x : Station μ κ ε} {i : Nat} {c : Caller}
    (hc : x.callers[i]? = some c) (h : x.standing? i = none) :
    ∃ reply, c.progress = .answered reply := by
  rw [standing?, hc, Option.bind_some] at h
  cases hp : c.progress with
  | busy a =>
    rw [hp] at h
    cases h
  | answered reply => exact ⟨reply, rfl⟩

def Activity.isClosingTracker : Activity → Bool
  | retiring .closingTracker => true
  | _ => false

theorem Activity.of_isClosingTracker {a : Activity} (h : a.isClosingTracker = true) :
    a = .retiring .closingTracker := by
  unfold isClosingTracker at h
  split at h
  · rfl
  · cases h

namespace Station

def unwritten : Slot :=
  ⟨⟨.stream, "A", .create⟩, 0⟩

def closed? : Option (Station Tape TapeClient Engine) :=
  (paces? advance? 13 (onTape [] {} {})).bind fun x =>
    (paces? (serve? · 0) 3 (x.accept (.following (.registering unwritten 100)))).bind fun x =>
      (paces? (serve? · 1) 2 (x.accept (.closing .closingQueue))).bind fun x =>
        paces? advance? 2 x

theorem closed?_lasts {w : Station Tape TapeClient Engine} (h : closed? = some w) :
    Lasts (onTape [] {} {}) w := by
  obtain ⟨x₁, h₁, h⟩ := Option.bind_eq_some_iff.1 h
  obtain ⟨x₂, h₂, h⟩ := Option.bind_eq_some_iff.1 h
  obtain ⟨x₃, h₃, h⟩ := Option.bind_eq_some_iff.1 h
  have hfollow := x₁.accept_lasts (.following (.registering unwritten 100)) trivial
  have hclose := x₂.accept_lasts (.closing .closingQueue) trivial
  exact ((((advance_lasts h₁).trans hfollow).trans (serve_lasts h₂)).trans
    (hclose.trans (serve_lasts h₃))).trans (advance_lasts h)

set_option maxRecDepth 10000 in
theorem no_wait_outlives_runner_closed :
    ∃ (w z z' : Station Tape TapeClient Engine) (d : Caller) (reply : Reply),
      Lasts (onTape [] {} {}) w ∧ w.site.node.runner.state = .stopped ∧ Shut w z ∧
        Lasts z z' ∧ z'.callers[0]? = some d ∧ d.progress = .answered reply ∧
        reply.Parts w.life.published unwritten := by
  have hrun : (closed?.bind fun w =>
      (paces? (serve? · 2) 2 (w.accept (.retiring .watching))).bind fun y =>
        (paces? (serve? · 2) 1 y).bind fun z => (paces? (serve? · 0) 1 z).map fun z' =>
          decide (w.site.node.runner.state = .stopped ∧
            (y.standing? 2).map Activity.isClosingTracker = some true ∧
            ((z.standing? 0).bind Activity.wait?).map Following.slot = some unwritten ∧
            (z'.callers[0]?).isSome = true ∧ (z'.standing? 0).isNone = true)) = some true := by
    decide +kernel
  obtain ⟨w, hw, hrun⟩ := Option.bind_eq_some_iff.1 hrun
  obtain ⟨y, hy, hrun⟩ := Option.bind_eq_some_iff.1 hrun
  obtain ⟨z, hz, hrun⟩ := Option.bind_eq_some_iff.1 hrun
  obtain ⟨z', hz', hrun⟩ := Option.map_eq_some_iff.1 hrun
  obtain ⟨hstop, hclosing, hwait, hsome, hnone⟩ := of_decide_eq_true hrun
  have hxw := closed?_lasts hw
  have hwy : Lasts w y :=
    (w.accept_lasts (.retiring .watching) trivial).trans (serve_lasts hy)
  obtain ⟨closer, hstanding, hclosing⟩ := Option.map_eq_some_iff.1 hclosing
  obtain ⟨d, hd, hp⟩ := caller_of_standing? hstanding
  rw [Activity.of_isClosingTracker hclosing] at hp
  have hshut : Shut w z := ⟨y, z, 2, d, hwy, hd, hp, of_paces?_one hz, .refl⟩
  obtain ⟨stage, hwait, hslot⟩ := Option.map_eq_some_iff.1 hwait
  obtain ⟨a, hstanding, hwait⟩ := Option.bind_eq_some_iff.1 hwait
  obtain ⟨c, hc, ha⟩ := caller_of_standing? hstanding
  obtain ⟨c', hc'⟩ := Option.isSome_iff_exists.1 hsome
  obtain ⟨reply, hreply⟩ := answered_of_standing? hc' (Option.isNone_iff_eq_none.1 hnone)
  have hfresh : (onTape [] {} ({} : Engine)).Fresh := onTape_fresh (by decide) _ _
  have hparts := ((no_wait_outlives_runner hfresh rfl hxw hstop (hwy.trans (serve_lasts hz)) hc ha
    hwait (.inl hshut)).2 z' c' reply (serve_lasts hz') hc' hreply).1
  rw [hslot] at hparts
  exact ⟨w, z, z', c', reply, hxw, hstop, hshut, serve_lasts hz', hc', hreply, hparts⟩

end Station

end StatementLog
