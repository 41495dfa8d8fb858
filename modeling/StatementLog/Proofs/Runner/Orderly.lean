import StatementLog.Proofs.Runner.Handing

namespace StatementLog

variable {μ κ ε : Type} [CommandLog μ κ] [LawfulLog μ]

namespace Lifetime

def view (x : Lifetime μ κ ε) : Nat → Option Command :=
  command? x.site.log

def limit (x : Lifetime μ κ ε) : Nat :=
  x.captured.getD 0

def position (x : Lifetime μ κ ε) : Nat :=
  x.site.position

omit [CommandLog μ κ] [LawfulLog μ] in
theorem limit_take [Executor ε] {x : Lifetime μ κ ε} {l : Nat} (h : x.captured = some l)
    (s : Site μ κ ε) (p : Phase) : (x.take s p).limit = x.limit := by
  rw [limit, limit, captured_take h, h]

structure Account (x : Lifetime μ κ ε) (handed settled reported : Nat) : Prop where
  measured : x.captured = none → x.site.calls = []
  handed : Handed x.view x.limit x.site.calls handed
  settled : Ledger x.view (·.isTerminal = true) x.settled settled
  reported : Reported x.settled x.published reported
  concluded : Ledger x.view (· ≠ .interrupted) x.concluded x.applied

def Resting (x : Lifetime μ κ ε) : Prop :=
  x.Account x.applied x.applied x.applied

def Halting (x : Lifetime μ κ ε) : Prop :=
  ∃ handed settled reported, x.Account handed settled reported ∧
    x.applied ≤ reported ∧ reported ≤ settled ∧ settled ≤ handed ∧ handed ≤ x.applied + 1

structure Blank (x : Lifetime μ κ ε) : Prop where
  calls : x.site.calls = []
  settled : x.settled = []
  published : x.published = []
  concluded : x.concluded = []
  applied : x.applied = 0
  pending : x.pending = []

structure Stock (x : Lifetime μ κ ε) (limit : Nat) (mode : Mode) (hand : List Command) : Prop where
  captured : x.captured = some limit
  bounded : limit ≤ LawfulLog.size x.site.log
  segment : Segment x.view x.applied (hand ++ x.pending)
  position : x.position = x.applied + (hand ++ x.pending).length
  mode_eq : ∀ c ∈ hand, Mode.at limit c.offset = mode
  beyond : ∀ c ∈ x.pending, limit ≤ c.offset

structure Supply (x : Lifetime μ κ ε) (limit : Nat) (mode : Mode) (hand : List Command) : Prop
    extends x.Stock limit mode hand where
  enough : limit ≤ x.position

def Underway (x : Lifetime μ κ ε) (a : Applying) : Prop :=
  match a.stage with
  | .announcing | .trying | .pausing _ =>
    x.Resting ∨ x.Account (x.applied + 1) x.applied x.applied ∧
      ∃ f calls, x.site.calls = .apply a.command a.mode (.error f) :: calls ∧ f.kind ≠ .fatal
  | .reporting status conclusion =>
    x.Account (x.applied + 1) (x.applied + 1) x.applied ∧ conclusion ≠ .interrupted ∧
      status.isTerminal = true ∧ ∃ entries, x.settled = (a.command, status) :: entries
  | .advancing conclusion =>
    x.Account (x.applied + 1) (x.applied + 1) (x.applied + 1) ∧ conclusion ≠ .interrupted

structure Handling (x : Lifetime μ κ ε) (limit : Nat) (mode : Mode) (rest : List Command)
    (a : Applying) : Prop where
  supply : x.Supply limit mode (a.command :: rest)
  mode : a.mode = mode
  underway : x.Underway a

def Ready (x : Lifetime μ κ ε) : Prop :=
  (∃ limit, x.Supply limit .live [] ∧ x.Resting) ∨
    x.Halting ∧ x.site.node.runner.stopRequested = true

def AtReplaying (x : Lifetime μ κ ε) : Replaying → Prop
  | .starting => x.Blank ∧ x.captured = none
  | .rewinding _ => x.Blank ∧ x.captured = none
  | .measuring => x.Blank ∧ x.captured = none ∧ x.position = 0
  | .fetching limit backlog => x.Stock limit .replay backlog ∧ x.Resting
  | .polling limit backlog _ => x.Stock limit .replay backlog ∧ x.Resting ∧ x.position < limit
  | .sorting limit backlog => x.Supply limit .replay backlog ∧ x.Resting
  | .terminating _ _ => False
  | .resuming rest _ => ∃ limit, x.Supply limit .replay rest ∧ x.Resting
  | .applying rest _ a => ∃ limit, x.Handling limit .replay rest a
  | .finishing _ => ∃ limit, x.Supply limit .live [] ∧ x.Resting

def AtReplayed (x : Lifetime μ κ ε) : Except Error ReplayOutcome → Prop
  | .ok (.completed _) => ∃ limit, x.Supply limit .live [] ∧ x.Resting
  | .ok .interrupted => x.Halting ∧ x.site.node.runner.stopRequested = true
  | .ok (.terminated _) => False
  | .error _ => x.Halting

def AtRunning (x : Lifetime μ κ ε) : Running → Prop
  | .starting => x.Ready
  | .idle => x.Ready
  | .polling _ => ∃ limit, x.Supply limit .live [] ∧ x.Resting ∧ x.pending = []
  | .batch rest => ∃ limit, x.Supply limit .live rest ∧ x.Resting ∧ x.pending = []
  | .applying rest a => ∃ limit, x.Handling limit .live rest a ∧ x.pending = []
  | .stopping _ => x.Halting

def At (x : Lifetime μ κ ε) : Phase → Prop
  | .replaying stage => x.AtReplaying stage
  | .replayed result => x.AtReplayed result
  | .running stage => x.AtRunning stage
  | .ended _ => x.Halting

def Orderly (x : Lifetime μ κ ε) : Prop :=
  LawfulLog.size x.site.log ≤ Word.max ∧ x.At x.phase

/-- No request to terminate the cluster stands in the part of the log that is replayed. -/
def Unterminated (x : Lifetime μ κ ε) : Prop :=
  ∀ limit, x.captured = some limit → ∀ n < limit, ∀ c, x.view n = some c →
    c.id.isClusterTerminate = false

theorem below_append_beyond {view : Nat → Option Command}
    (ho : ∀ n c, view n = some c → c.offset = n) {n limit : Nat} {cs : List Command}
    (h : Segment view n cs) :
    Replaying.below limit cs ++ Replaying.beyond limit cs = cs := by
  induction cs generalizing n with
  | nil => rfl
  | cons c cs ih =>
    rcases Nat.lt_or_ge c.offset limit with hc | hc
    · have hn : ¬ limit ≤ c.offset := Nat.not_le.2 hc
      have ih := ih h.2
      simp only [Replaying.below, Replaying.beyond] at ih
      simp [Replaying.below, Replaying.beyond, hc, hn, ih]
    · have hle : ∀ d ∈ c :: cs, limit ≤ d.offset := by
        intro d hd
        have hd := h.le_offset ho d hd
        rw [← ho n c h.1] at hd
        exact Nat.le_trans hc hd
      have hb : Replaying.below limit (c :: cs) = [] :=
        List.filter_eq_nil_iff.2 fun d hd => by simpa using hle d hd
      have hy : Replaying.beyond limit (c :: cs) = c :: cs :=
        List.filter_eq_self.2 fun d hd => by simpa using hle d hd
      rw [hb, hy, List.nil_append]

theorem below_append_pending {view : Nat → Option Command}
    (ho : ∀ n c, view n = some c → c.offset = n) {n limit : Nat} {ps cs : List Command}
    (h : Segment view n (ps ++ cs)) (hp : ∀ c ∈ ps, limit ≤ c.offset) :
    Replaying.below limit cs ++ (ps ++ Replaying.beyond limit cs) = ps ++ cs := by
  cases ps with
  | nil => exact below_append_beyond ho h
  | cons p ps =>
    have hn : limit ≤ n := by
      rw [← ho n p h.1]
      exact hp p (List.mem_cons_self ..)
    have hle : ∀ c ∈ cs, limit ≤ c.offset := fun c hc =>
      Nat.le_trans hn (h.le_offset ho c (List.mem_append_right _ hc))
    have hb : Replaying.below limit cs = [] :=
      List.filter_eq_nil_iff.2 fun d hd => by simpa using hle d hd
    have hy : Replaying.beyond limit cs = cs :=
      List.filter_eq_self.2 fun d hd => by simpa using hle d hd
    rw [hb, hy, List.nil_append]

theorem Resting.halting {x : Lifetime μ κ ε} (h : x.Resting) : x.Halting :=
  ⟨_, _, _, h, Nat.le_refl _, Nat.le_refl _, Nat.le_refl _, Nat.le_succ _⟩

theorem Blank.resting {x : Lifetime μ κ ε} (h : x.Blank) : x.Resting := by
  rw [Resting, h.applied]
  refine ⟨fun _ => h.calls, ?_, ?_, ?_, ?_⟩
  · rw [h.calls]
    exact .nil
  · rw [h.settled]
    exact .nil
  · rw [h.published]
    exact .nil
  · rw [h.concluded, h.applied]
    exact .nil

theorem Underway.halting {x : Lifetime μ κ ε} {a : Applying} (h : x.Underway a) : x.Halting := by
  unfold Underway at h
  split at h
  case h_4 =>
    exact ⟨_, _, _, h.1, Nat.le_refl _, Nat.le_succ _, Nat.le_refl _, Nat.le_refl _⟩
  case h_5 =>
    exact ⟨_, _, _, h.1, Nat.le_succ _, Nat.le_refl _, Nat.le_refl _, Nat.le_refl _⟩
  all_goals
    rcases h with h | ⟨h, -⟩
    · exact h.halting
    · exact ⟨_, _, _, h, Nat.le_refl _, Nat.le_refl _, Nat.le_succ _, Nat.le_refl _⟩

theorem Ready.halting {x : Lifetime μ κ ε} (h : x.Ready) : x.Halting := by
  rcases h with ⟨_, -, h⟩ | ⟨h, -⟩
  · exact h.halting
  · exact h

theorem AtReplaying.halting {x : Lifetime μ κ ε} {stage : Replaying} (h : x.AtReplaying stage) :
    x.Halting := by
  cases stage with
  | starting => exact h.1.resting.halting
  | rewinding _ => exact h.1.resting.halting
  | measuring => exact h.1.resting.halting
  | fetching _ _ => exact h.2.halting
  | polling _ _ _ => exact h.2.1.halting
  | sorting _ _ => exact h.2.halting
  | terminating _ _ => exact h.elim
  | resuming _ _ =>
    obtain ⟨_, -, h⟩ := h
    exact h.halting
  | applying _ _ _ =>
    obtain ⟨_, h⟩ := h
    exact h.underway.halting
  | finishing _ =>
    obtain ⟨_, -, h⟩ := h
    exact h.halting

theorem AtReplayed.halting {x : Lifetime μ κ ε} {r : Except Error ReplayOutcome}
    (h : x.AtReplayed r) : x.Halting := by
  cases r with
  | error _ => exact h
  | ok outcome =>
    cases outcome with
    | completed _ =>
      obtain ⟨_, -, h⟩ := h
      exact h.halting
    | terminated _ => exact h.elim
    | interrupted => exact h.1

theorem AtRunning.halting {x : Lifetime μ κ ε} {stage : Running} (h : x.AtRunning stage) :
    x.Halting := by
  cases stage with
  | starting => exact Ready.halting h
  | idle => exact Ready.halting h
  | polling _ =>
    obtain ⟨_, -, h, -⟩ := h
    exact h.halting
  | batch _ =>
    obtain ⟨_, -, h, -⟩ := h
    exact h.halting
  | applying _ _ =>
    obtain ⟨_, h, -⟩ := h
    exact h.underway.halting
  | stopping _ => exact h

theorem At.halting {x : Lifetime μ κ ε} {p : Phase} (h : x.At p) : x.Halting := by
  cases p with
  | replaying _ => exact AtReplaying.halting h
  | replayed _ => exact AtReplayed.halting h
  | running _ => exact AtRunning.halting h
  | ended _ => exact h

structure Books (x y : Lifetime μ κ ε) : Prop where
  view (n : Nat) (c : Command) : x.view n = some c → y.view n = some c
  captured : y.captured = x.captured
  calls : y.site.calls = x.site.calls
  settled : y.settled = x.settled
  published : y.published = x.published
  concluded : y.concluded = x.concluded
  applied : y.applied = x.applied

structure Stores (x y : Lifetime μ κ ε) : Prop where
  view (n : Nat) (c : Command) : x.view n = some c → y.view n = some c
  size : LawfulLog.size x.site.log ≤ LawfulLog.size y.site.log
  captured : y.captured = x.captured
  applied : y.applied = x.applied
  pending : y.pending = x.pending
  position : y.position = x.position

section

variable {x y : Lifetime μ κ ε} {limit : Nat} {mode : Mode} {hand rest : List Command}
  {a : Applying}

theorem Account.books {handed settled reported : Nat} (h : x.Account handed settled reported)
    (hb : Books x y) : y.Account handed settled reported := by
  obtain ⟨hm, hh, hs, hr, hc⟩ := h
  refine ⟨?_, ?_, ?_, ?_, ?_⟩
  · rw [hb.captured, hb.calls]
    exact hm
  · rw [limit, hb.captured, hb.calls]
    exact hh.mono hb.view
  · rw [hb.settled]
    exact hs.mono hb.view
  · rw [hb.settled, hb.published]
    exact hr
  · rw [hb.concluded, hb.applied]
    exact hc.mono hb.view

theorem Resting.books (h : x.Resting) (hb : Books x y) : y.Resting := by
  rw [Resting, hb.applied]
  exact Account.books h hb

theorem Halting.books (h : x.Halting) (hb : Books x y) : y.Halting := by
  obtain ⟨handed, settled, reported, h, hle⟩ := h
  rw [Halting, hb.applied]
  exact ⟨handed, settled, reported, h.books hb, hle⟩

theorem Stock.stores (h : x.Stock limit mode hand) (hs : Stores x y) :
    y.Stock limit mode hand where
  captured := by rw [hs.captured, h.captured]
  bounded := Nat.le_trans h.bounded hs.size
  segment := by
    rw [hs.applied, hs.pending]
    exact h.segment.mono hs.view
  position := by rw [hs.position, hs.applied, hs.pending, h.position]
  mode_eq := h.mode_eq
  beyond := by
    rw [hs.pending]
    exact h.beyond

theorem Supply.stores (h : x.Supply limit mode hand) (hs : Stores x y) :
    y.Supply limit mode hand where
  toStock := h.toStock.stores hs
  enough := by
    rw [hs.position]
    exact h.enough

theorem Underway.books (h : x.Underway a) (hb : Books x y) : y.Underway a := by
  unfold Underway at h ⊢
  split at h
  case h_4 =>
    rw [hb.applied, hb.settled]
    exact ⟨h.1.books hb, h.2⟩
  case h_5 =>
    rw [hb.applied]
    exact ⟨h.1.books hb, h.2⟩
  all_goals
    rcases h with h | ⟨h, hf⟩
    · exact .inl (h.books hb)
    · rw [hb.applied, hb.calls]
      exact .inr ⟨h.books hb, hf⟩

theorem Handling.drift (h : x.Handling limit mode rest a) (hb : Books x y) (hs : Stores x y) :
    y.Handling limit mode rest a :=
  ⟨h.supply.stores hs, h.mode, h.underway.books hb⟩

theorem Blank.books (h : x.Blank) (hb : Books x y) (hp : y.pending = x.pending) : y.Blank where
  calls := by rw [hb.calls, h.calls]
  settled := by rw [hb.settled, h.settled]
  published := by rw [hb.published, h.published]
  concluded := by rw [hb.concluded, h.concluded]
  applied := by rw [hb.applied, h.applied]
  pending := by rw [hp, h.pending]

theorem Ready.drift (h : x.Ready) (hb : Books x y) (hs : Stores x y)
    (ht : x.site.node.runner.stopRequested = true → y.site.node.runner.stopRequested = true) :
    y.Ready := by
  rcases h with ⟨limit, h, hr⟩ | ⟨h, hr⟩
  · exact .inl ⟨limit, h.stores hs, hr.books hb⟩
  · exact .inr ⟨h.books hb, ht hr⟩

end

section

variable {x y : Lifetime μ κ ε} (hb : Books x y) (hs : Stores x y)
  (ht : x.site.node.runner.stopRequested = true → y.site.node.runner.stopRequested = true)

include hb hs in
theorem AtReplaying.drift {stage : Replaying} (h : x.AtReplaying stage) :
    y.AtReplaying stage := by
  cases stage with
  | starting => exact ⟨h.1.books hb hs.pending, hb.captured.trans h.2⟩
  | rewinding _ => exact ⟨h.1.books hb hs.pending, hb.captured.trans h.2⟩
  | measuring =>
    exact ⟨h.1.books hb hs.pending, hb.captured.trans h.2.1, hs.position.trans h.2.2⟩
  | fetching _ _ => exact ⟨h.1.stores hs, h.2.books hb⟩
  | polling _ _ _ =>
    refine ⟨h.1.stores hs, h.2.1.books hb, ?_⟩
    rw [hs.position]
    exact h.2.2
  | sorting _ _ => exact ⟨h.1.stores hs, h.2.books hb⟩
  | terminating _ _ => exact h.elim
  | resuming _ _ =>
    obtain ⟨limit, h, hr⟩ := h
    exact ⟨limit, h.stores hs, hr.books hb⟩
  | applying _ _ _ =>
    obtain ⟨limit, h⟩ := h
    exact ⟨limit, h.drift hb hs⟩
  | finishing _ =>
    obtain ⟨limit, h, hr⟩ := h
    exact ⟨limit, h.stores hs, hr.books hb⟩

include hb hs ht

theorem AtReplayed.drift {r : Except Error ReplayOutcome} (h : x.AtReplayed r) :
    y.AtReplayed r := by
  cases r with
  | error _ => exact Halting.books h hb
  | ok outcome =>
    cases outcome with
    | completed _ =>
      obtain ⟨limit, h, hr⟩ := h
      exact ⟨limit, h.stores hs, hr.books hb⟩
    | terminated _ => exact h.elim
    | interrupted => exact ⟨h.1.books hb, ht h.2⟩

theorem AtRunning.drift {stage : Running} (h : x.AtRunning stage) : y.AtRunning stage := by
  cases stage with
  | starting => exact Ready.drift h hb hs ht
  | idle => exact Ready.drift h hb hs ht
  | polling _ =>
    obtain ⟨limit, h, hr, hp⟩ := h
    exact ⟨limit, h.stores hs, hr.books hb, hs.pending.trans hp⟩
  | batch _ =>
    obtain ⟨limit, h, hr, hp⟩ := h
    exact ⟨limit, h.stores hs, hr.books hb, hs.pending.trans hp⟩
  | applying _ _ =>
    obtain ⟨limit, h, hp⟩ := h
    exact ⟨limit, h.drift hb hs, hs.pending.trans hp⟩
  | stopping _ => exact Halting.books h hb

theorem At.drift {p : Phase} (h : x.At p) : y.At p := by
  cases p with
  | replaying _ => exact AtReplaying.drift hb hs h
  | replayed _ => exact AtReplayed.drift hb hs ht h
  | running _ => exact AtRunning.drift hb hs ht h
  | ended _ => exact Halting.books h hb

end

theorem Orderly.change {x : Lifetime μ κ ε} {s : Site μ κ ε} (h : x.Orderly)
    (hd : x.site.Drift s) : Orderly { x with site := s } := by
  have hb : Books x { x with site := s } :=
    ⟨fun _ _ => hd.log.command?, rfl, hd.calls, rfl, rfl, rfl, hd.applied⟩
  have hs : Stores x { x with site := s } :=
    ⟨fun _ _ => hd.log.command?, hd.log.size_le, rfl, hd.applied, hd.pending, hd.position⟩
  exact ⟨hd.log.bounded, At.drift hb hs hd.stop h.2⟩

end Lifetime

end StatementLog
