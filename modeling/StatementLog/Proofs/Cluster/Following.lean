import StatementLog.Proofs.Cluster.Likeness
import StatementLog.Proofs.Node.Station

namespace StatementLog

variable {μ κ ε : Type}

section Growth

variable [CommandLog μ κ] [LawfulLog μ] [Executor ε] {s s' : Site μ κ ε}

def Site.Grows (s s' : Site μ κ ε) : Prop :=
  LawfulLog.size s'.log ≤ Word.max → StatementLog.Grows s.log s'.log

namespace Lifetime

theorem advance?_grows {x y : Lifetime μ κ ε} (h : x.advance? = some y) : x.site.Grows y.site := by
  obtain ⟨hview, hsize, -⟩ := advance?_view h
  exact fun hb => ⟨Nat.le_of_eq hsize.symm, fun _ => congrFun hview _, hb⟩

omit [CommandLog μ κ] [LawfulLog μ] in
theorem holds_of_enter {π α : Type} (x : Lifetime μ κ ε) {m : Move (Site μ κ ε) π α}
    {next : π → Phase} {done : α → Phase} {good : Site μ κ ε → Prop}
    (h : ∀ y, x.enter m next done = some y → good y.site) : m.Holds good := by
  cases m with
  | wait => trivial
  | next s stage => exact h _ rfl
  | done s r => exact h _ rfl

end Lifetime

theorem Replaying.step_grows (stage : Replaying) (task : Nat) :
    (stage.step task s).Holds s.Grows := by
  let x : Lifetime μ κ ε := { task, site := s, phase := .replaying stage }
  exact x.holds_of_enter fun y (h : x.advance? = some y) => Lifetime.advance?_grows h

theorem Running.step_grows (stage : Running) (task : Nat) : (stage.step task s).Holds s.Grows := by
  let x : Lifetime μ κ ε := { task, site := s, phase := .running stage }
  exact x.holds_of_enter fun y (h : x.advance? = some y) => Lifetime.advance?_grows h

omit [Executor ε] in
theorem Site.Bears.grows (h : s.Bears s') : s.Grows s' :=
  fun hb => (h hb).log

variable [WritableLog μ]

theorem Starting.step_grows (stage : Starting) (task : Nat) :
    (stage.step task s).Holds s.Grows := by
  by_cases hr : ∃ replaying, stage = .replaying replaying
  · obtain ⟨replaying, rfl⟩ := hr
    rw [step]
    refine (replaying.step_grows task).within fun s' r h => ?_
    rcases r with e | ⟨n⟩ | e | _ <;> exact h
  · by_cases ho : ∃ n, stage = .opening n
    · obtain ⟨n, rfl⟩ := ho
      exact .refl
    · exact (step_bears (fun replaying he => hr ⟨_, he⟩) (fun n he => ho ⟨_, he⟩) task).mono
        fun _ h => h.grows

theorem Activity.Serves.step_grows {a : Activity} (h : a.Serves) (task : Nat) :
    (a.step task s).Holds s.Grows := by
  rcases h.cases with ⟨stage, rfl⟩ | ⟨stage, rfl⟩ | hc
  · exact (stage.step_grows task).within fun _ _ h => h
  · exact (stage.step_grows task).within fun _ _ h => h
  · exact (step_bears hc task).mono fun _ h => h.grows

end Growth

namespace Activity

variable [CommandLog μ κ] [Executor ε] {a a' : Activity} {s s' : Site μ κ ε} {task : Nat}
  {reply : Reply}

omit [CommandLog μ κ] [Executor ε] in
theorem Calls.offspring (h : a.Calls) : a.offspring = [] := by
  cases a with
  | submitting _ | following _ | executing _ | terminating _ | closing _ | probing | watching _
  | sleeping _ | retiring _ => rfl
  | _ => exact h.elim

theorem starting_next {stage : Starting} (h : (starting stage).step task s = .next s' a') :
    ∃ stage', stage.step task s = .next s' stage' ∧ a' = starting stage' := by
  rcases Move.within_next h with h | ⟨s', r, -, h⟩
  · exact h
  · cases h

theorem running_next {stage : Running} (h : (running stage).step task s = .next s' a') :
    ∃ stage', stage.step task s = .next s' stage' ∧ a' = running stage' := by
  rcases Move.within_next h with h | ⟨s', r, -, h⟩
  · exact h
  · cases h

theorem starting_done {stage : Starting} (h : (starting stage).step task s = .done s' reply) :
    ∃ r, stage.step task s = .done s' r := by
  obtain ⟨s', r, hm, h⟩ := Move.within_done h
  cases h
  exact ⟨r, hm⟩

theorem running_done {stage : Running} (h : (running stage).step task s = .done s' reply) :
    ∃ r, stage.step task s = .done s' r := by
  obtain ⟨s', r, hm, h⟩ := Move.within_done h
  cases h
  exact ⟨r, hm⟩

theorem Serves.next (h : a.Serves) (hm : a.step task s = .next s' a') :
    a'.Serves ∧ a.offspring = [] := by
  rcases h.cases with ⟨stage, rfl⟩ | ⟨stage, rfl⟩ | hc
  · obtain ⟨stage', hstage, rfl⟩ := starting_next hm
    cases stage with
    | launching n => cases hstage
    | _ => exact ⟨trivial, rfl⟩
  · obtain ⟨stage', -, rfl⟩ := running_next hm
    exact ⟨trivial, rfl⟩
  · exact ⟨(calls_next hc hm).serves, hc.offspring⟩

omit [CommandLog μ κ] [Executor ε] in
theorem Serves.offspring (h : a.Serves) : ∀ b ∈ a.offspring, b.Serves := by
  rcases h.cases with ⟨stage, rfl⟩ | ⟨stage, rfl⟩ | hc
  · cases stage with
    | launching n =>
      intro b hb
      rcases List.mem_pair.1 hb with rfl | rfl <;> trivial
    | _ => exact fun b hb => nomatch hb
  · exact fun b hb => nomatch hb
  · rw [hc.offspring]
    exact fun b hb => nomatch hb

end Activity

namespace Station

variable [CommandLog μ κ] [Executor ε] {x y : Station μ κ ε} {a a' b : Activity}
  {seat : Option Nat} {s s' : Site μ κ ε} {reply : Reply}

def Has (x : Station μ κ ε) (a : Activity) : Option Nat → Prop
  | none => (∃ stage, a = .starting stage ∧ x.start = some stage) ∨
      ∃ stage, a = .running stage ∧ x.start = none ∧ x.life.phase = .running stage
  | some i => a.Calls ∧ ∃ c, x.callers[i]? = some c ∧ c.progress = .busy a

def number (x : Station μ κ ε) (seat : Option Nat) : Nat :=
  seat.getD x.life.task

omit [CommandLog μ κ] [Executor ε] in
theorem Has.serves (h : x.Has a seat) : a.Serves := by
  cases seat with
  | none => rcases h with ⟨stage, rfl, -⟩ | ⟨stage, rfl, -⟩ <;> trivial
  | some i => exact h.1.serves

omit [CommandLog μ κ] [Executor ε] in
theorem Has.of_callers (h : x.Has a seat) (hs : seat ≠ none) (hc : y.callers = x.callers) :
    y.Has a seat := by
  cases seat with
  | none => exact absurd rfl hs
  | some i => exact ⟨h.1, by rw [hc]; exact h.2⟩

omit [CommandLog μ κ] [Executor ε] in
theorem Has.of_own (h : x.Has a none) (hs : y.start = x.start)
    (hp : y.life.phase = x.life.phase) : y.Has a none := by
  rcases h with ⟨stage, rfl, h⟩ | ⟨stage, rfl, h, h'⟩
  · exact .inl ⟨stage, rfl, hs.trans h⟩
  · exact .inr ⟨stage, rfl, hs.trans h, hp.trans h'⟩

def Keeps (x y : Station μ κ ε) (seat : Option Nat) : Prop :=
  ∀ b other, other ≠ seat → x.Has b other → y.Has b other

omit [CommandLog μ κ] [Executor ε] in
theorem Keeps.of_callers (h : y.callers = x.callers) : x.Keeps y none :=
  fun _ _ hs hb => hb.of_callers hs h

variable [LawfulLog μ]

theorem Has.next (h : x.Has a seat) (hm : a.step (x.number seat) x.site = .next s a')
    (hb : LawfulLog.size s.log ≤ Word.max) :
    ∃ y, Step x y ∧ y.site = s ∧ y.Has a' seat ∧ x.Keeps y seat := by
  cases seat with
  | none =>
    rcases h with ⟨stage, rfl, hs⟩ | ⟨stage, rfl, hs, hp⟩
    · obtain ⟨stage', hstage, rfl⟩ := Activity.starting_next hm
      have hstage : stage.step x.life.task x.site = .next s stage' := hstage
      refine ⟨{ x with life := x.life.take s stage'.phase, start := some stage' }, .own ?_ hb, rfl,
        .inl ⟨stage', rfl, rfl⟩, .of_callers rfl⟩
      rw [advance?, hs]
      simp only [hstage]
    · obtain ⟨stage', hstage, rfl⟩ := Activity.running_next hm
      have hstage : stage.step x.life.task x.life.site = .next s stage' := hstage
      refine ⟨{ x with life := x.life.take s (.running stage') }, .own ?_ hb, rfl,
        .inr ⟨stage', rfl, hs, rfl⟩, .of_callers rfl⟩
      rw [advance?, hs, Lifetime.advance?, hp]
      simp only [hstage]
      rfl
  | some i =>
    obtain ⟨hcalls, c, hc, hbusy⟩ := h
    have hlt := (List.getElem?_eq_some_iff.1 hc).1
    have hm : a.step i x.site = .next s a' := hm
    refine ⟨x.put s i (c.goOn a'), .serve i ?_ hb, rfl, ⟨Activity.calls_next hcalls hm, c.goOn a',
      List.getElem?_set_self hlt, rfl⟩, fun b other ho hother => ?_⟩
    · simp [serve?, hc, hbusy, Progress.activity?, hm]
    · cases other with
      | none => exact hother.of_own rfl rfl
      | some j =>
        have hne : i ≠ j := fun he => ho (he ▸ rfl)
        exact ⟨hother.1, by rw [put]; simpa only [List.getElem?_set_ne hne] using hother.2⟩

theorem Has.done (h : x.Has a seat) (hm : a.step (x.number seat) x.site = .done s reply)
    (hb : LawfulLog.size s.log ≤ Word.max) :
    ∃ y, Step x y ∧ y.site = s ∧ x.Keeps y seat ∧
      (a.offspring = [] ∨ a.offspring = [.running .starting, .retiring .watching] ∧ seat = none ∧
        y.start = none ∧ ∃ n, y.life.phase = .replayed (.ok (.completed n))) := by
  cases seat with
  | none =>
    rcases h with ⟨stage, rfl, hs⟩ | ⟨stage, rfl, hs, hp⟩
    · obtain ⟨r, hstage⟩ := Activity.starting_done hm
      have hstage : stage.step x.life.task x.site = .done s r := hstage
      refine ⟨{ x with life := x.life.take s (stage.last r), start := none }, .own ?_ hb, rfl,
        .of_callers rfl, ?_⟩
      · rw [advance?, hs]
        simp only [hstage]
      · cases stage with
        | launching n => exact .inr ⟨rfl, rfl, rfl, n, rfl⟩
        | _ => exact .inl rfl
    · obtain ⟨r, hstage⟩ := Activity.running_done hm
      have hstage : stage.step x.life.task x.life.site = .done s r := hstage
      refine ⟨{ x with life := x.life.take s (.ended r) }, .own ?_ hb, rfl, .of_callers rfl,
        .inl rfl⟩
      rw [advance?, hs, Lifetime.advance?, hp]
      simp only [hstage]
      rfl
  | some i =>
    obtain ⟨hcalls, c, hc, hbusy⟩ := h
    have hm : a.step i x.site = .done s reply := hm
    refine ⟨x.put s i (c.answer reply), .serve i ?_ hb, rfl, fun b other ho hother => ?_,
      .inl hcalls.offspring⟩
    · simp [serve?, hc, hbusy, Progress.activity?, hm]
    · cases other with
      | none => exact hother.of_own rfl rfl
      | some j =>
        have hne : i ≠ j := fun he => ho (he ▸ rfl)
        exact ⟨hother.1, by rw [put]; simpa only [List.getElem?_set_ne hne] using hother.2⟩

omit [CommandLog μ κ] [Executor ε] [LawfulLog μ] in
theorem Has.move (h : x.Has a seat) (s : Site μ κ ε) : (x.move s).Has a seat := by
  cases seat with
  | none => exact h.of_own rfl rfl
  | some i => exact h.of_callers nofun rfl

variable {earlier : List ExecutorCall}

theorem align (hs : s.Alike earlier x.site) (hb : LawfulLog.size s.log ≤ Word.max)
    (task number : Nat) : ∃ s', Step x (x.move s') ∧ s.Alike earlier s' ∧
      s'.node.hasTurn number = s.node.hasTurn task := by
  have hstep (turns : List Nat) : Step x (x.move
      { s with calls := s.calls ++ earlier, node := { s.node with turns } }) := by
    obtain ⟨before, he⟩ := hs
    refine .abroad ?_
    rw [he]
    exact ⟨⟨.refl hb, rfl, rfl, rfl, rfl, rfl, rfl, rfl, id⟩, id, rfl⟩
  cases hturn : s.node.hasTurn task with
  | true => exact ⟨_, hstep [number], ⟨_, rfl⟩, decide_eq_true rfl⟩
  | false => exact ⟨_, hstep [], ⟨_, rfl⟩, rfl⟩

theorem Has.renders (h : x.Has a seat) (hs : s.Alike earlier x.site)
    (hb : LawfulLog.size s.log ≤ Word.max) (task : Nat) : ∃ s', Step x (x.move s') ∧
      (a.step task s).Renders earlier s (a.step (x.number seat) s') := by
  obtain ⟨s', hstep, halike, hturn⟩ := align hs hb task (x.number seat)
  exact ⟨s', hstep, h.serves.step_renders halike hturn⟩

theorem Has.follow_next {task : Nat} (h : x.Has a seat) (hs : s.Alike earlier x.site)
    (hm : a.step task s = .next s' a') (hb : LawfulLog.size s.log ≤ Word.max)
    (hb' : LawfulLog.size s'.log ≤ Word.max) :
    ∃ y, Reaches x y ∧ s'.Alike earlier y.site ∧ y.Has a' seat ∧ x.Keeps y seat := by
  obtain ⟨s₁, hstep, hr⟩ := h.renders hs hb task
  rw [hm] at hr
  obtain ⟨t, ht, ha⟩ := hr.next
  obtain ⟨y, hy, rfl, hhas, hkeeps⟩ := (h.move s₁).next ht (ha.log ▸ hb')
  exact ⟨y, .head hstep (.single hy), ha, hhas,
    fun b other ho hother => hkeeps b other ho (hother.move s₁)⟩

theorem Has.follow_done {task : Nat} (h : x.Has a seat) (hs : s.Alike earlier x.site)
    (hm : a.step task s = .done s' reply) (hb : LawfulLog.size s.log ≤ Word.max)
    (hb' : LawfulLog.size s'.log ≤ Word.max) :
    ∃ y, Reaches x y ∧ s'.Alike earlier y.site ∧ x.Keeps y seat ∧
      (a.offspring = [] ∨ a.offspring = [.running .starting, .retiring .watching] ∧ seat = none ∧
        y.Has (.running .starting) none) := by
  obtain ⟨s₁, hstep, hr⟩ := h.renders hs hb task
  rw [hm] at hr
  obtain ⟨t, ht, ha⟩ := hr.done
  obtain ⟨y, hy, rfl, hkeeps, hends⟩ := (h.move s₁).done ht (ha.log ▸ hb')
  have hkeeps : x.Keeps y seat := fun b other ho hother => hkeeps b other ho (hother.move s₁)
  have hxy : Reaches x y := .head hstep (.single hy)
  rcases hends with hend | ⟨hlaunch, rfl, hstart, n, hp⟩
  · exact ⟨y, hxy, ha, hkeeps, .inl hend⟩
  · -- the runner goes into service together with the task that is set off for it
    have hyz : Step y { y with life := y.life.take y.site (.running .starting) } := by
      refine .own ?_ (ha.log ▸ hb')
      rw [advance?, hstart, Lifetime.advance?, hp]
      rfl
    exact ⟨_, hxy.tail hyz, ha,
      fun b other ho hother => (hkeeps b other ho hother).of_callers ho rfl,
      .inr ⟨hlaunch, rfl, .inr ⟨.starting, rfl, hstart, rfl⟩⟩⟩

end Station

end StatementLog
