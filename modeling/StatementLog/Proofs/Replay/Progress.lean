import StatementLog.Proofs.Replay.Serving

namespace StatementLog

def Polling.rank : Polling → Nat
  | arriving _ => 5
  | queued _ => 4
  | enlisting _ => 3
  | checking _ _ => 2
  | reading _ _ => 1
  | waiting _ _ _ => 8

def AttemptStage.rank (after : Nat) : AttemptStage → Nat
  | trying => 0
  | announcing => 1
  | pausing _ => 1
  | advancing _ => after + 1
  | reporting _ _ => after + 2

def Replaying.rank : Replaying → Nat
  | starting => 43
  | rewinding .arriving => 42
  | rewinding .queued => 41
  | measuring => 40
  | fetching _ _ => 36
  | polling _ _ stage => 30 + stage.rank
  | sorting _ _ => 30
  | terminating _ _ => 0
  | resuming _ _ => 24
  | applying _ _ a => a.stage.rank 24
  | finishing _ => 23

def Running.rank : Running → Nat
  | starting => 21
  | idle => 16
  | polling stage => 10 + stage.rank
  | batch [] => 17
  | batch (_ :: _) => 6
  | applying _ a => a.stage.rank 17
  | stopping _ => 0

def Phase.rank : Phase → Nat
  | replaying stage => stage.rank
  | replayed _ => 22
  | running stage => stage.rank
  | ended _ => 0

def Phase.alarm : Phase → Option Nat
  | replaying stage => stage.alarm
  | running stage => stage.alarm
  | _ => none

section

variable {μ κ ε : Type}

theorem Polling.proceeds [CommandLog μ κ] [LawfulLog μ] {task : Nat} {s : Site μ κ ε}
    {stage : Polling} (hturn : s.node.turns = [task])
    (hwake : ∀ t, stage.alarm = some t → t ≤ s.now) (hc : s.check = .ok ())
    (hr : ∀ n < LawfulLog.size s.log, (command? s.log n).isSome)
    (hlt : s.position < LawfulLog.size s.log) :
    (∃ s' stage', stage.step task s = .next s' stage' ∧ s'.log = s.log ∧
      s'.position = s.position ∧ stage'.rank < stage.rank) ∨
    ∃ s' cs, stage.step task s = .done s' (.ok cs) ∧ s'.log = s.log ∧
      (s.position < s'.position ∨ cs = [] ∧ s'.position = s.position ∧ stage.rank = 8) := by
  have hgoes {s' : Site μ κ ε} {stage' : Polling} (hs : stage.step task s = .next s' stage')
      (hrank : stage'.rank < stage.rank) :
      ∃ s' stage', stage.step task s = .next s' stage' ∧ s'.log = s.log ∧
        s'.position = s.position ∧ stage'.rank < stage.rank := by
    obtain ⟨hk, hpos⟩ := keeps_next hs
    exact ⟨s', stage', hs, hk.log, hpos, hrank⟩
  cases stage with
  | arriving timeout => exact .inl (hgoes rfl (Nat.lt_succ_self 4))
  | queued timeout =>
    have ht : s.node.hasTurn task = true := by simp [Node.hasTurn, hturn]
    exact .inl (hgoes (if_pos ht) (Nat.lt_succ_self 3))
  | enlisting deadline => exact .inl (hgoes rfl (Nat.lt_succ_self 2))
  | checking deadline epoch =>
    refine .inl (@hgoes s (.reading deadline epoch) ?_ (Nat.lt_succ_self 1))
    rw [step, hc]
  | reading deadline epoch =>
    obtain ⟨c, cs, k, hk⟩ := LawfulLog.read_of_check hc (fun n _ hn => hr n hn) hlt
    have hs : (reading deadline epoch).step task s =
        .done ((s.mapNode fun n => { n with client := k }).mapNode fun n => n.depart task)
          (.ok (c :: cs)) := by
      rw [step, hk]
      rfl
    obtain ⟨hkeep, hread⟩ := keeps_done hs
    refine .inr ⟨_, c :: cs, hs, hkeep.log, .inl ?_⟩
    rw [(hread _ rfl).1, List.length_cons]
    omega
  | waiting deadline epoch look =>
    by_cases he : s.epoch = epoch
    · cases look with
      | none =>
        have ht : deadline ≤ s.now := hwake _ rfl
        refine .inr ⟨s.mapNode fun n => n.depart task, [], ?_, rfl, .inr ⟨rfl, rfl, rfl⟩⟩
        simp only [step, he, ne_eq, not_true_eq_false, if_false, ht, if_true]
        rfl
      | some t =>
        have ht : min t deadline ≤ s.now := hwake _ rfl
        refine .inl (@hgoes s (.enlisting deadline) ?_ (by decide : 3 < 8))
        simp only [step, he, ne_eq, not_true_eq_false, if_false, ht, if_true]
    · exact .inl (hgoes (if_pos he) (by decide : 3 < 8))

theorem Applying.proceeds [Executor ε] {a : Applying} {s : Site μ κ ε}
    (hstop : s.node.runner.stopRequested = false) (hwake : ∀ t, a.alarm = some t → t ≤ s.now)
    (hn : a.stage ≠ .trying) :
    (∃ s' a', a.step s = .next s' a' ∧ ∀ after, a'.stage.rank after < a.stage.rank after) ∨
      ∃ s' c, a.step s = .done s' c ∧ a.stage = .advancing c := by
  cases hst : a.stage with
  | announcing =>
    refine .inl ⟨_, _, by rw [step, hst], ?_⟩
    exact fun after => Nat.zero_lt_one
  | trying => exact absurd hst hn
  | pausing wake =>
    have hw : wake ≤ s.now := hwake wake (by rw [alarm, hst])
    rcases pausing_cases hst s with ⟨ht, -⟩ | ⟨-, -, hs⟩ | ⟨-, hlt, -⟩
    · rw [hstop] at ht
      cases ht
    · exact .inl ⟨_, _, hs, fun after => Nat.zero_lt_one⟩
    · exact absurd hw (Nat.not_le.2 hlt)
  | reporting status conclusion =>
    refine .inl ⟨_, _, by rw [step, hst], ?_⟩
    exact fun after => Nat.lt_succ_self (after + 1)
  | advancing conclusion => exact .inr ⟨_, _, by rw [step, hst], rfl⟩

end

namespace Lifetime

section

variable {μ κ ε : Type} [CommandLog μ κ] [LawfulLog μ]

def unread (x : Lifetime μ κ ε) : Nat :=
  match x.phase with
  | .replaying .starting => LawfulLog.size x.site.log + 1
  | .replaying (.rewinding _) => LawfulLog.size x.site.log + 1
  | .replaying .measuring => LawfulLog.size x.site.log + 1
  | _ => LawfulLog.size x.site.log - x.position

def Nearer (y x : Lifetime μ κ ε) : Prop :=
  y.unread < x.unread ∨ y.unread = x.unread ∧ y.phase.rank < x.phase.rank

def Trying (x : Lifetime μ κ ε) : Prop :=
  ∃ a, x.attempt? = some a ∧ a.stage = .trying

structure Drained (x : Lifetime μ κ ε) : Prop where
  applied : x.applied = LawfulLog.size x.site.log
  phase : x.phase = .running .idle ∨ ∃ stage, x.phase = .running (.polling stage)

structure Roused (x : Lifetime μ κ ε) : Prop where
  turns : x.site.node.turns = [x.task]
  now (t : Nat) : x.phase.alarm = some t → t ≤ x.site.now

def rouse (x : Lifetime μ κ ε) : Lifetime μ κ ε :=
  { x with site :=
    { x.site with
      now := max x.site.now (x.phase.alarm.getD 0)
      node := { x.site.node with turns := [x.task] } } }

omit [CommandLog μ κ] [LawfulLog μ] in
theorem roused_rouse (x : Lifetime μ κ ε) : x.rouse.Roused := by
  refine ⟨rfl, ?_⟩
  intro t ht
  have ht : x.phase.alarm = some t := ht
  show t ≤ max x.site.now (x.phase.alarm.getD 0)
  rw [ht]
  exact Nat.le_max_right ..

theorem Orderly.applied_le {x : Lifetime μ κ ε} (h : x.Orderly) :
    x.applied ≤ LawfulLog.size x.site.log := by
  obtain ⟨_, _, _, hacc, -⟩ := h.2.halting
  cases hn : x.applied with
  | zero => exact Nat.zero_le _
  | succ k =>
    have hk : k < x.applied := by omega
    obtain ⟨c, _, -, hv, -⟩ := hacc.concluded.getElem? hk
    exact LawfulLog.lt_size hv

end

variable {μ κ : Type} [CommandLog μ κ] [LawfulLog μ] {x y : Lifetime μ κ Engine}

omit [LawfulLog μ] in
theorem advance?_replaying {stage : Replaying} (hp : x.phase = .replaying stage) :
    x.advance? = x.enter (stage.step x.task x.site) .replaying .replayed := by
  rw [advance?, hp]

omit [LawfulLog μ] in
theorem advance?_running {stage : Running} (hp : x.phase = .running stage) :
    x.advance? = x.enter (stage.step x.task x.site) .running .ended := by
  rw [advance?, hp]

theorem nearer_take {s : Site μ κ Engine} {p q : Phase} (hp : x.phase = p)
    (hl : s.log = x.site.log) (hpos : s.position = x.site.position)
    (hu : (x.take x.site q).unread = (x.take x.site p).unread) (hr : q.rank < p.rank) :
    Nearer (x.take s q) x := by
  have hs : (x.take s q).unread = (x.take x.site q).unread := by
    simp only [unread, take, position, hl, hpos]
  have hx : (x.take x.site p).unread = x.unread := by
    simp only [unread, take, position, hp]
  refine .inr ⟨hs.trans (hu.trans hx), ?_⟩
  rw [hp]
  exact hr

theorem nearer_read {s : Site μ κ Engine} {p q : Phase} (hp : x.phase = p)
    (hl : s.log = x.site.log) (hlt : x.site.position < LawfulLog.size x.site.log)
    (hpos : x.site.position < s.position)
    (hu : (x.take x.site p).unread = LawfulLog.size x.site.log - x.site.position)
    (hq : (x.take s q).unread = LawfulLog.size s.log - s.position) :
    Nearer (x.take s q) x := by
  have hx : (x.take x.site p).unread = x.unread := by
    simp only [unread, take, position, hp]
  refine .inl ?_
  rw [hq, ← hx, hu, hl]
  omega

theorem Serving.polling_proceeds (h : x.Serving) (hr : x.Roused) {limit : Nat}
    {backlog : List Command} {stage : Polling}
    (hp : x.phase = .replaying (.polling limit backlog stage)) :
    ∃ y, x.advance? = some y ∧ y.phase.InService ∧ Nearer y x := by
  have hat := h.orderly.2
  rw [hp] at hat
  obtain ⟨hstock, -, hlt⟩ := hat
  have hlt : x.site.position < LawfulLog.size x.site.log := Nat.lt_of_lt_of_le hlt hstock.bounded
  have hwake (t : Nat) (ht : stage.alarm = some t) : t ≤ x.site.now :=
    hr.now t (by rw [hp]; exact ht)
  rw [advance?_replaying hp, Replaying.step]
  rcases Polling.proceeds hr.turns hwake h.check h.readable hlt with
    ⟨s, stage', hs, hl, hpos, hrank⟩ | ⟨s, cs, hs, hl, hread⟩
  · rw [hs]
    exact ⟨_, rfl, trivial, nearer_take hp hl hpos rfl (Nat.add_lt_add_left hrank 30)⟩
  · rw [hs]
    refine ⟨_, rfl, trivial, ?_⟩
    rcases hread with hpos | ⟨rfl, hpos, hrank⟩
    · exact nearer_read hp hl hlt hpos rfl rfl
    · refine nearer_take hp hl hpos rfl ?_
      show 36 < 30 + stage.rank
      rw [hrank]
      decide

theorem Serving.attempt_proceeds (h : x.Serving) (hr : x.Roused) {a : Applying}
    (hx : x.attempt? = some a) (hn : a.stage ≠ .trying)
    (ha : ∀ t, a.alarm = some t → x.phase.alarm = some t) :
    (∃ s a', a.step x.site = .next s a' ∧ s.log = x.site.log ∧ s.position = x.site.position ∧
      ∀ after, a'.stage.rank after < a.stage.rank after) ∨
    ∃ s c, a.step x.site = .done s c ∧ a.stage = .advancing c ∧ c ≠ .interrupted ∧
      s.log = x.site.log ∧ s.position = x.site.position := by
  rcases Applying.proceeds h.stop (fun t ht => hr.now t (ha t ht)) hn with
    ⟨s, a', hs, hrank⟩ | ⟨s, c, hs, hst⟩
  · have ho := Applying.step_next hs
    refine .inl ⟨s, a', hs, ho.log, ?_, hrank⟩
    rw [Site.position, ho.client]
    rfl
  · obtain ⟨limit, mode, rest, hh⟩ := h.orderly.handling (phase_attempt? hx)
    have hu := hh.underway
    rw [Underway, hst] at hu
    rcases Applying.step_done hs with ⟨_, hp, -⟩ | ⟨-, rfl⟩
    · rw [hst] at hp
      cases hp
    · exact .inr ⟨_, c, hs, hst, hu.2, rfl, rfl⟩

theorem Serving.replaying_proceeds (h : x.Serving) (hr : x.Roused) (ht : ¬ x.Trying)
    {stage : Replaying} (hp : x.phase = .replaying stage) :
    ∃ y, x.advance? = some y ∧ y.phase.InService ∧ Nearer y x := by
  have hat := h.orderly.2
  rw [hp] at hat
  cases stage with
  | starting =>
    rw [advance?_replaying hp]
    exact ⟨_, rfl, trivial, nearer_take hp rfl rfl rfl (Nat.lt_succ_self 42)⟩
  | rewinding stage =>
    rw [advance?_replaying hp]
    cases stage with
    | arriving =>
      rw [Replaying.step, Rewinding.step, h.check]
      exact ⟨_, rfl, trivial, nearer_take hp rfl rfl rfl (Nat.lt_succ_self 41)⟩
    | queued =>
      have hturn : x.site.node.hasTurn x.task = true := by simp [Node.hasTurn, hr.turns]
      rw [Replaying.step, Rewinding.step, if_pos hturn]
      -- the cursor moves here, but counts only once the end has been measured
      refine ⟨_, rfl, trivial, .inr ⟨?_, ?_⟩⟩
      · rw [unread, unread, hp]
        rfl
      · rw [hp]
        exact Nat.lt_succ_self 40
  | measuring =>
    have he := LawfulLog.endPosition_of_check h.check
    have hs : x.site.endPosition = (.ok (LawfulLog.size x.site.log), x.site.endPosition.2) :=
      Prod.ext he rfl
    rw [advance?_replaying hp, Replaying.step, hs]
    refine ⟨_, rfl, trivial, .inl ?_⟩
    have hx : x.unread = LawfulLog.size x.site.log + 1 := by rw [unread, hp]
    have hsize : LawfulLog.size x.site.endPosition.2.log = LawfulLog.size x.site.log :=
      LawfulLog.size_endPosition ..
    rw [hx]
    exact Nat.lt_succ_of_le (Nat.le_trans (Nat.sub_le _ _) (Nat.le_of_eq hsize))
  | fetching limit backlog =>
    rw [advance?_replaying hp, Replaying.step]
    by_cases hlt : x.site.position < limit
    · rw [if_pos hlt, h.stop]
      exact ⟨_, rfl, trivial, nearer_take hp rfl rfl rfl (Nat.lt_succ_self 35)⟩
    · rw [if_neg hlt]
      exact ⟨_, rfl, trivial, nearer_take hp rfl rfl rfl (by decide : 30 < 36)⟩
  | polling limit backlog stage => exact h.polling_proceeds hr hp
  | sorting limit backlog =>
    have hf := hat.1.findTermination_none (unterminated_of_written h.written)
    rw [advance?_replaying hp, Replaying.step, hf]
    exact ⟨_, rfl, trivial, nearer_take hp rfl rfl rfl (by decide : 24 < 30)⟩
  | terminating limit a => exact hat.elim
  | resuming rest n =>
    rw [advance?_replaying hp]
    cases rest with
    | nil =>
      exact ⟨_, rfl, trivial, nearer_take hp rfl rfl rfl (Nat.lt_succ_self 23)⟩
    | cons c rest =>
      exact ⟨_, rfl, trivial, nearer_take hp rfl rfl rfl (by decide : 1 < 24)⟩
  | applying rest n a =>
    have hx : x.attempt? = some a := by rw [attempt?, hp]
    rw [advance?_replaying hp, Replaying.step]
    rcases h.attempt_proceeds hr hx (fun hst => ht ⟨a, hx, hst⟩) (fun t ht => by rw [hp]; exact ht)
      with ⟨s, a', hs, hl, hpos, hrank⟩ | ⟨s, c, hs, hst, hc, hl, hpos⟩
    · rw [hs]
      exact ⟨_, rfl, trivial, nearer_take hp hl hpos rfl (hrank 24)⟩
    · rw [hs]
      refine ⟨x.take s (.replaying (.resuming rest (n + 1))), ?_, trivial,
        nearer_take hp hl hpos rfl ?_⟩
      · cases c <;> first | rfl | exact absurd rfl hc
      · show 24 < a.stage.rank 24
        rw [hst]
        exact Nat.lt_succ_self 24
  | finishing n =>
    rw [advance?_replaying hp]
    exact ⟨_, rfl, trivial, nearer_take hp rfl rfl rfl (Nat.lt_succ_self 22)⟩

theorem Serving.receiving_proceeds (h : x.Serving) (hr : x.Roused) (hd : ¬ x.Drained)
    {stage : Polling} (hp : x.phase = .running (.polling stage)) :
    ∃ y, x.advance? = some y ∧ y.phase.InService ∧ Nearer y x := by
  have hat := h.orderly.2
  rw [hp] at hat
  obtain ⟨limit, hsup, -, hpend⟩ := hat
  have happ : x.applied ≠ LawfulLog.size x.site.log := fun ha => hd ⟨ha, .inr ⟨stage, hp⟩⟩
  have hpos : x.site.position = x.applied := by
    have hpos := hsup.position
    rw [hpend] at hpos
    exact hpos
  have hlt : x.site.position < LawfulLog.size x.site.log := by
    rw [hpos]
    exact Nat.lt_of_le_of_ne h.orderly.applied_le happ
  have hwake (t : Nat) (ht : stage.alarm = some t) : t ≤ x.site.now :=
    hr.now t (by rw [hp]; exact ht)
  have hab : ¬ x.site.node.runner.aborted = true := by simp [h.aborted]
  have hstop : ¬ x.site.node.runner.stopRequested = true := by simp [h.stop]
  rw [advance?_running hp, Running.step, if_neg hab]
  simp only [if_neg hstop]
  rcases Polling.proceeds hr.turns hwake h.check h.readable hlt with
    ⟨s, stage', hs, hl, hpos, hrank⟩ | ⟨s, cs, hs, hl, hread⟩
  · rw [hs]
    exact ⟨_, rfl, trivial, nearer_take hp hl hpos rfl (Nat.add_lt_add_left hrank 10)⟩
  · rw [hs]
    refine ⟨_, rfl, trivial, ?_⟩
    rcases hread with hpos | ⟨rfl, hpos, hrank⟩
    · exact nearer_read hp hl hlt hpos rfl rfl
    · refine nearer_take hp hl hpos rfl ?_
      show 17 < 10 + stage.rank
      rw [hrank]
      decide

theorem Serving.live_proceeds (h : x.Serving) (hr : x.Roused) (ht : ¬ x.Trying)
    {rest : List Command} {a : Applying} (hp : x.phase = .running (.applying rest a)) :
    ∃ y, x.advance? = some y ∧ y.phase.InService ∧ Nearer y x := by
  have hab : ¬ x.site.node.runner.aborted = true := by simp [h.aborted]
  have hx : x.attempt? = some a := by
    rw [attempt?, hp]
    exact if_neg hab
  rw [advance?_running hp, Running.step, if_neg hab]
  rcases h.attempt_proceeds hr hx (fun hst => ht ⟨a, hx, hst⟩) (fun t ht => by rw [hp]; exact ht)
    with ⟨s, a', hs, hl, hpos, hrank⟩ | ⟨s, c, hs, hst, hc, hl, hpos⟩
  · rw [hs]
    exact ⟨_, rfl, trivial, nearer_take hp hl hpos rfl (hrank 17)⟩
  · rw [hs]
    refine ⟨x.take s (.running (.batch rest)), ?_, trivial, nearer_take hp hl hpos rfl ?_⟩
    · cases c with
      | applied e =>
        have he : e.shutdown = false :=
          h.enduring.effects a e (by rw [hp]; rfl) (by rw [Applying.effect?, hst])
        simp only [Move.within, he, Bool.false_eq_true, if_false]
        rfl
      | failed f => rfl
      | interrupted => exact absurd rfl hc
    · show (Running.batch rest).rank < a.stage.rank 17
      rw [hst]
      cases rest with
      | nil => exact Nat.lt_succ_self 17
      | cons c rest => exact (by decide : 6 < 18)

theorem Serving.running_proceeds (h : x.Serving) (hr : x.Roused) (ht : ¬ x.Trying)
    (hd : ¬ x.Drained) {stage : Running} (hp : x.phase = .running stage) :
    ∃ y, x.advance? = some y ∧ y.phase.InService ∧ Nearer y x := by
  have hab : ¬ x.site.node.runner.aborted = true := by simp [h.aborted]
  have hstop : ¬ x.site.node.runner.stopRequested = true := by simp [h.stop]
  cases stage with
  | starting =>
    have hterm : ¬ x.site.node.runner.terminated = true := by simp [h.enduring.terminated]
    rw [advance?_running hp, Running.step, if_neg hab]
    simp only [if_neg hterm]
    exact ⟨_, rfl, trivial, nearer_take hp rfl rfl rfl (by decide : 16 < 21)⟩
  | idle =>
    rw [advance?_running hp, Running.step, if_neg hab]
    simp only [if_neg hstop]
    cases hpend : x.site.node.runner.pending with
    | nil =>
      exact ⟨_, rfl, trivial, nearer_take hp rfl rfl rfl (Nat.lt_succ_self 15)⟩
    | cons c cs =>
      exact ⟨_, rfl, trivial, nearer_take hp rfl rfl rfl (by decide : 6 < 16)⟩
  | polling stage => exact h.receiving_proceeds hr hd hp
  | batch rest =>
    cases rest with
    | nil =>
      rw [advance?_running hp, Running.step, if_neg hab]
      exact ⟨_, rfl, trivial, nearer_take hp rfl rfl rfl (Nat.lt_succ_self 16)⟩
    | cons c rest =>
      have hat := h.orderly.2
      rw [hp] at hat
      obtain ⟨limit, hsup, -, -⟩ := hat
      have ho : c.offset = x.site.node.runner.applied := LawfulLog.offset_eq hsup.segment.1
      have hlt : ¬ c.offset < x.site.node.runner.applied := by
        rw [ho]
        exact Nat.lt_irrefl _
      rw [advance?_running hp, Running.step, if_neg hab]
      simp only [if_neg hlt]
      exact ⟨_, rfl, trivial, nearer_take hp rfl rfl rfl (by decide : 1 < 6)⟩
  | applying rest a => exact h.live_proceeds hr ht hp
  | stopping r =>
    have hs := h.phase
    rw [hp] at hs
    exact hs.elim

theorem Serving.proceeds (h : x.Serving) (hr : x.Roused) (ht : ¬ x.Trying) (hd : ¬ x.Drained) :
    ∃ y, x.advance? = some y ∧ y.phase.InService ∧ Nearer y x := by
  cases hp : x.phase with
  | replaying stage => exact h.replaying_proceeds hr ht hp
  | replayed r =>
    have hs := h.phase
    rw [hp] at hs
    rcases r with e | ⟨n⟩ | e | _
    · exact hs.elim
    · rw [advance?, hp]
      exact ⟨_, rfl, trivial, nearer_take hp rfl rfl rfl (Nat.lt_succ_self 21)⟩
    · exact hs.elim
    · exact hs.elim
  | running stage => exact h.running_proceeds hr ht hd hp
  | ended r =>
    have hs := h.phase
    rw [hp] at hs
    exact hs.elim

end Lifetime

end StatementLog
