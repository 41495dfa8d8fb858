import StatementLog.Proofs.Runner.Order

namespace StatementLog

theorem Segment.mem_of_view {view : Nat → Option Command} {n k : Nat} {cs : List Command}
    {d : Command} (hs : Segment view n cs) (hn : n ≤ k) (hk : k < n + cs.length)
    (hd : view k = some d) : d ∈ cs := by
  induction cs generalizing n with
  | nil => exact absurd hk (Nat.not_lt.2 hn)
  | cons c cs ih =>
    rcases Nat.eq_or_lt_of_le hn with rfl | hn
    · cases hs.1.symm.trans hd
      exact List.mem_cons_self ..
    · rw [List.length_cons] at hk
      exact List.mem_cons_of_mem _ (ih hs.2 hn (by omega))

/-- The command is the last request to terminate the cluster below the limit. -/
structure EndsAt (view : Nat → Option Command) (limit : Nat) (c : Command) : Prop where
  below : c.offset < limit
  stands : view c.offset = some c
  terminates : c.id.isClusterTerminate = true
  last {n : Nat} {d : Command} : c.offset < n → n < limit → view n = some d →
    d.id.isClusterTerminate = false

namespace EndsAt

variable {view view' : Nat → Option Command} {limit : Nat} {c : Command}

theorem of_request (ho : ∀ n c, view n = some c → c.offset = n) {n : Nat} {d : Command}
    (hn : n < limit) (hd : view n = some d) (ht : d.id.isClusterTerminate = true) :
    ∃ c, EndsAt view limit c := by
  induction limit with
  | zero => exact absurd hn (Nat.not_lt_zero n)
  | succ limit ih =>
    have hlast : (∃ d, view limit = some d ∧ d.id.isClusterTerminate = true) ∨
        ∀ d, view limit = some d → d.id.isClusterTerminate = false := by
      by_cases h : ∃ d, view limit = some d ∧ d.id.isClusterTerminate = true
      · exact .inl h
      · exact .inr fun d hd => Bool.eq_false_iff.2 fun ht => h ⟨d, hd, ht⟩
    rcases hlast with ⟨c, hc, hterm⟩ | hnone
    · have hoff := ho limit c hc
      exact ⟨c, by omega, by rw [hoff]; exact hc, hterm, fun hgt hlt => absurd hlt (by omega)⟩
    · have hne : n ≠ limit := by
        rintro rfl
        rw [hnone d hd] at ht
        cases ht
      obtain ⟨c, hc⟩ := ih (by omega)
      refine ⟨c, Nat.lt_succ_of_lt hc.below, hc.stands, hc.terminates, ?_⟩
      intro k d hk hlt hv
      rcases Nat.eq_or_lt_of_le (Nat.le_of_lt_succ hlt) with rfl | hlt
      · exact hnone d hv
      · exact hc.last hk hlt hv

theorem congr (h : ∀ n < limit, view' n = view n) (he : EndsAt view limit c) :
    EndsAt view' limit c where
  below := he.below
  stands := (h _ he.below).trans he.stands
  terminates := he.terminates
  last hgt hlt hd := he.last hgt hlt ((h _ hlt).symm.trans hd)

end EndsAt

theorem findTermination_endsAt {view : Nat → Option Command} {limit : Nat}
    {backlog beyond : List Command} {c : Command} (ho : ∀ n c, view n = some c → c.offset = n)
    (hs : Segment view 0 (backlog ++ beyond)) (hlen : limit ≤ (backlog ++ beyond).length)
    (hbelow : ∀ d ∈ backlog, d.offset < limit) (hbeyond : ∀ d ∈ beyond, limit ≤ d.offset)
    (hf : findTermination backlog = some c) : EndsAt view limit c := by
  obtain ⟨hc, later, earlier, hsplit, hlater⟩ := List.find?_eq_some_iff_append.1 hf
  have hsplit : backlog = earlier.reverse ++ c :: later.reverse := by
    rw [← List.reverse_reverse backlog, hsplit]
    simp
  have hmem : c ∈ backlog := by
    rw [hsplit]
    exact List.mem_append_right _ (List.mem_cons_self ..)
  have hv : view c.offset = some c := hs.mem ho c (List.mem_append_left _ hmem)
  refine ⟨hbelow c hmem, hv, hc, ?_⟩
  intro n d hgt hlt hd
  rw [hsplit, List.append_assoc, Segment.append, List.cons_append] at hs
  obtain ⟨hc', htail⟩ := hs.2
  have hstart : c.offset = 0 + earlier.reverse.length := ho _ _ hc'
  have hend : limit ≤ 0 + earlier.reverse.length + 1 + (later.reverse ++ beyond).length := by
    rw [hsplit] at hlen
    simp only [List.length_append, List.length_cons] at hlen ⊢
    omega
  rw [hstart] at hgt
  have hmem : d ∈ later.reverse ++ beyond :=
    htail.mem_of_view hgt (Nat.lt_of_lt_of_le hlt hend) hd
  rcases List.mem_append.1 hmem with hm | hm
  · simpa using hlater d (List.mem_reverse.1 hm)
  · have hle := hbeyond d hm
    rw [ho n d hd] at hle
    exact absurd hlt (Nat.not_lt.2 hle)

def Replaying.Reads : Replaying → Prop
  | .starting | .rewinding _ | .measuring | .fetching _ _ | .polling _ _ _ | .sorting _ _ => True
  | _ => False

variable {μ κ ε : Type} [CommandLog μ κ] [LawfulLog μ]

namespace Applying

def Conclusive (a : Applying) : Prop :=
  match a.stage with
  | .reporting _ c => c ≠ .interrupted
  | .advancing c => c ≠ .interrupted
  | _ => True

variable [Executor ε] {a a' : Applying} {s s' : Site μ κ ε}

omit [CommandLog μ κ] [LawfulLog μ] in
theorem Conclusive.next (h : a.Conclusive) (hs : a.step s = .next s' a') : a'.Conclusive := by
  unfold Conclusive at h
  cases ht : a.stage with
  | announcing =>
    rw [step, ht] at hs
    cases hs
    trivial
  | trying =>
    rcases trying_cases ht s with ⟨_, -, he⟩ | ⟨_, _, _, -, -, he⟩ | ⟨_, -, -, he⟩ <;>
      cases he.symm.trans hs
    · simp [Conclusive]
    · trivial
    · simp [Conclusive]
  | pausing wake =>
    rcases pausing_cases ht s with ⟨-, he⟩ | ⟨-, -, he⟩ | ⟨-, -, he⟩ <;> cases he.symm.trans hs
    trivial
  | reporting status conclusion =>
    rw [ht] at h
    rw [step, ht] at hs
    cases hs
    exact h
  | advancing conclusion =>
    rw [step, ht] at hs
    cases hs

theorem After.calls_cases (h : a.After s s') :
    s'.calls = s.calls ∨ a.stage = .trying ∧
      s'.calls = .apply a.command a.mode (a.attempt s).1 :: s.calls := by
  rw [h.calls]
  by_cases ht : a.stage = .trying
  · refine .inr ⟨ht, ?_⟩
    rw [reach, ht]
    rfl
  · rw [reach_of_ne ht]
    exact .inl rfl

end Applying

namespace Lifetime

def Departing (x : Lifetime μ κ ε) : Phase → Prop
  | .running .starting =>
    x.site.node.runner.terminated = true ∨ x.site.node.runner.stopRequested = true
  | .running .idle => x.site.node.runner.stopRequested = true
  | .running (.stopping _) => True
  | .ended _ => True
  | _ => False

structure Untouched (x : Lifetime μ κ ε) : Prop where
  calls : x.site.calls = []
  settled : x.settled = []
  published : x.published = []
  concluded : x.concluded = []

def BarrenAt (x : Lifetime μ κ ε) : Phase → Prop
  | .replaying stage => stage.Reads
  | .replayed (.error _) => True
  | .replayed (.ok .interrupted) => x.site.node.runner.stopRequested = true
  | .replayed (.ok _) => False
  | p => x.Departing p

def DoomedAt (x : Lifetime μ κ ε) (limit : Nat) (c : Command) : Phase → Prop
  | .replaying (.terminating l a) => l = limit ∧ a.command = c ∧ a.mode = .replay ∧ a.Conclusive
  | .replayed (.ok .interrupted) => x.site.node.runner.stopRequested = true
  | .replayed (.ok (.terminated _)) =>
    x.site.node.runner.terminated = true ∧ x.site.node.runner.state = .stopped ∧ x.applied = limit
  | .replaying _ => False
  | .replayed _ => False
  | p => x.Departing p

structure Doomed (x : Lifetime μ κ ε) (limit : Nat) (c : Command) : Prop where
  captured : x.captured = some limit
  bounded : limit ≤ LawfulLog.size x.site.log
  ends : EndsAt x.view limit c
  calls : ∀ call ∈ x.site.calls, ∃ r, call = .apply c .replay r
  phase : x.DoomedAt limit c x.phase

structure Cleared (x : Lifetime μ κ ε) (limit : Nat) : Prop where
  captured : x.captured = some limit
  bounded : limit ≤ LawfulLog.size x.site.log
  unterminated : x.Unterminated
  orderly : x.Orderly

inductive Fate (x : Lifetime μ κ ε) : Prop where
  | barren : x.Untouched → x.BarrenAt x.phase → x.Orderly → Fate x
  | cleared {limit : Nat} : x.Cleared limit → Fate x
  | doomed {limit : Nat} {c : Command} : x.Doomed limit c → Fate x

section

variable {x y : Lifetime μ κ ε}

omit [CommandLog μ κ] [LawfulLog μ] in
theorem Departing.mono {p : Phase} (h : x.Departing p)
    (hterm : x.site.node.runner.terminated = true → y.site.node.runner.terminated = true)
    (hstop : x.site.node.runner.stopRequested = true → y.site.node.runner.stopRequested = true) :
    y.Departing p := by
  unfold Departing at h ⊢
  split at h
  · exact h.imp hterm hstop
  · exact hstop h
  · trivial
  · trivial
  · exact h.elim

omit [CommandLog μ κ] [LawfulLog μ] in
theorem Departing.barren {p : Phase} (h : x.Departing p) : x.BarrenAt p := by
  cases p with
  | replaying stage => exact h.elim
  | replayed r => exact h.elim
  | running stage => exact h
  | ended r => exact h

omit [CommandLog μ κ] [LawfulLog μ] in
theorem Departing.doomed {p : Phase} (h : x.Departing p) (limit : Nat) (c : Command) :
    x.DoomedAt limit c p := by
  cases p with
  | replaying stage => exact h.elim
  | replayed r => exact h.elim
  | running stage => exact h
  | ended r => exact h

end

variable [Executor ε] {x y : Lifetime μ κ ε}

theorem Departing.advance (h : x.Departing x.phase) (hy : x.advance? = some y) :
    y.Departing y.phase ∧ x.attempt? = none ∧ x.site.Rests y.site := by
  cases hp : x.phase with
  | replaying stage =>
    rw [hp] at h
    exact h.elim
  | replayed r =>
    rw [hp] at h
    exact h.elim
  | ended r =>
    rw [advance?, hp] at hy
    cases hy
  | running stage =>
    rw [hp] at h
    have hx : x.attempt? = none := by
      cases stage with
      | applying rest a => exact h.elim
      | _ => rw [attempt?, hp]
    have hrest : x.site.Rests y.site :=
      advance?_rests hx (fun n hn => by rw [hp] at hn; cases hn) hy
    refine ⟨?_, hx, hrest⟩
    simp only [advance?, hp] at hy
    by_cases ha : x.site.node.runner.aborted = true
    · rw [Running.step.eq_def, if_pos ha] at hy
      cases hy
      trivial
    · cases stage with
      | starting =>
        rw [Running.step, if_neg ha] at hy
        split at hy
        · cases hy
          trivial
        · next hterm =>
          cases hy
          exact h.resolve_left hterm
      | idle =>
        have h : x.site.node.runner.stopRequested = true := h
        rw [Running.step, if_neg ha] at hy
        simp only [h, if_true] at hy
        cases hy
        trivial
      | stopping r =>
        rw [Running.step, if_neg ha] at hy
        cases hy
        trivial
      | polling stage => exact h.elim
      | batch rest => exact h.elim
      | applying rest a => exact h.elim

theorem Untouched.rests (h : x.Untouched) (hx : x.attempt? = none) (hr : x.site.Rests y.site)
    (hy : x.advance? = some y) : y.Untouched := by
  obtain ⟨s, p, rfl⟩ := advance?_take hy
  refine ⟨hr.calls.trans h.calls, ?_, ?_, ?_⟩
  · simp only [take, hx]
    exact h.settled
  · simp only [take, hx]
    exact h.published
  · simp only [take, hx]
    exact h.concluded

omit [CommandLog μ κ] [LawfulLog μ] [Executor ε] in
theorem attempt?_of_reads {stage : Replaying} (hp : x.phase = .replaying stage)
    (h : stage.Reads) : x.attempt? = none ∧ ∀ n, x.phase ≠ .replaying (.finishing n) := by
  cases stage with
  | terminating _ _ => exact h.elim
  | resuming _ _ => exact h.elim
  | applying _ _ _ => exact h.elim
  | finishing _ => exact h.elim
  | _ => exact ⟨by rw [attempt?, hp], by simp [hp]⟩

omit [LawfulLog μ] in
theorem barrenAt_of_reads {stage : Replaying} (hp : x.phase = .replaying stage) (h : stage.Reads)
    (hs : ∀ limit backlog, stage ≠ .sorting limit backlog) (hy : x.advance? = some y) :
    y.BarrenAt y.phase := by
  simp only [advance?, hp] at hy
  cases stage with
  | starting =>
    cases hy
    trivial
  | rewinding stage =>
    rcases enter_within_cases hy with ⟨s, stage', -, rfl⟩ | ⟨s, r, -, hy⟩
    · trivial
    · cases r <;> cases hy <;> trivial
  | measuring =>
    rw [Replaying.step] at hy
    split at hy <;> cases hy <;> trivial
  | fetching limit backlog =>
    rw [Replaying.step] at hy
    split at hy
    · split at hy
      · next hstop =>
        cases hy
        exact hstop
      · cases hy
        trivial
    · cases hy
      trivial
  | polling limit backlog stage =>
    rcases enter_within_cases hy with ⟨s, stage', -, rfl⟩ | ⟨s, r, -, hy⟩
    · trivial
    · cases r <;> cases hy <;> trivial
  | sorting limit backlog => exact absurd rfl (hs limit backlog)
  | terminating _ _ => exact h.elim
  | resuming _ _ => exact h.elim
  | applying _ _ _ => exact h.elim
  | finishing _ => exact h.elim

omit [Executor ε] in
theorem Supply.segment_zero {limit : Nat} {backlog : List Command}
    (h : x.Supply limit .replay backlog) (ha : x.applied = 0) :
    Segment x.view 0 (backlog ++ x.pending) ∧ limit ≤ (backlog ++ x.pending).length := by
  have hs := h.segment
  have hl := h.enough
  rw [h.position, ha, Nat.zero_add] at hl
  rw [ha] at hs
  exact ⟨hs, hl⟩

omit [Executor ε] in
theorem Supply.endsAt {limit : Nat} {backlog : List Command} {c : Command}
    (h : x.Supply limit .replay backlog) (ha : x.applied = 0)
    (hf : findTermination backlog = some c) : EndsAt x.view limit c := by
  obtain ⟨hs, hl⟩ := h.segment_zero ha
  exact findTermination_endsAt (fun _ _ => LawfulLog.offset_eq) hs hl
    (fun d hd => Mode.at_eq_replay.1 (h.mode_eq d hd)) h.beyond hf

omit [Executor ε] in
theorem Supply.unterminated {limit : Nat} {backlog : List Command}
    (h : x.Supply limit .replay backlog) (ha : x.applied = 0)
    (hf : findTermination backlog = none) : x.Unterminated := by
  intro l hc n hn d hd
  cases h.captured.symm.trans hc
  obtain ⟨hs, hl⟩ := h.segment_zero ha
  have hmem : d ∈ backlog ++ x.pending :=
    hs.mem_of_view (Nat.zero_le n) (by rw [Nat.zero_add]; exact Nat.lt_of_lt_of_le hn hl) hd
  rcases List.mem_append.1 hmem with hm | hm
  · simpa using List.find?_eq_none.1 hf d (List.mem_reverse.2 hm)
  · have hle := h.beyond d hm
    rw [LawfulLog.offset_eq hd] at hle
    exact absurd hn (Nat.not_lt.2 hle)

theorem sorting_fate {limit : Nat} {backlog : List Command} (hu : x.Untouched) (ho : x.Orderly)
    (hp : x.phase = .replaying (.sorting limit backlog)) (hy : x.advance? = some y) : y.Fate := by
  have h := ho.2
  rw [hp] at h
  obtain ⟨hsup, hr⟩ := h
  have ha : x.applied = 0 := by
    rw [← hr.concluded.length_eq, hu.concluded]
    rfl
  obtain ⟨hx, hfin⟩ := attempt?_of_reads hp trivial
  have hrest := advance?_rests hx hfin hy
  have hview : y.view = x.view := hrest.view
  have hsize := hrest.size
  cases hf : findTermination backlog with
  | some c =>
    have hends := hsup.endsAt ha hf
    have hcalls : y.site.calls = [] := hrest.calls.trans hu.calls
    simp only [advance?, hp, Replaying.step, hf] at hy
    cases hy
    have hnone {d : Command} : ∀ call ∈ ([] : List ExecutorCall), ∃ r, call = .apply d .replay r :=
      fun _ hc => absurd hc List.not_mem_nil
    exact .doomed ⟨captured_take hsup.captured _ _, hsize ▸ hsup.bounded, hview ▸ hends,
      hcalls ▸ hnone, rfl, rfl, rfl, trivial⟩
  | none =>
    have hun := hsup.unterminated ha hf
    have hyo := ho.advance hun hy
    obtain ⟨s, p, rfl⟩ := advance?_take hy
    refine .cleared ⟨captured_take hsup.captured s p, hsize ▸ hsup.bounded, ?_, hyo⟩
    intro l hc n hn d hd
    rw [captured_take hsup.captured] at hc
    rw [hview] at hd
    exact hun l (hsup.captured.trans hc) n hn d hd

theorem Fate.advance_barren (hu : x.Untouched) (hb : x.BarrenAt x.phase) (ho : x.Orderly)
    (hy : x.advance? = some y) : y.Fate := by
  cases hp : x.phase with
  | replaying stage =>
    rw [hp] at hb
    by_cases hs : ∃ limit backlog, stage = .sorting limit backlog
    · obtain ⟨limit, backlog, rfl⟩ := hs
      exact sorting_fate hu ho hp hy
    · have hs (limit : Nat) (backlog : List Command) : stage ≠ .sorting limit backlog :=
        fun he => hs ⟨limit, backlog, he⟩
      obtain ⟨hx, hfin⟩ := attempt?_of_reads hp hb
      refine .barren (hu.rests hx (advance?_rests hx hfin hy) hy) (barrenAt_of_reads hp hb hs hy)
        (ho.proceed (fun limit backlog he => ?_) hy)
      rw [hp] at he
      cases he
      exact absurd rfl (hs limit backlog)
  | replayed r =>
    have hyo : y.Orderly := ho.proceed (fun limit backlog he => by rw [hp] at he; cases he) hy
    have hx : x.attempt? = none := by rw [attempt?, hp]
    have hrest : x.site.Rests y.site :=
      advance?_rests hx (fun n hn => by rw [hp] at hn; cases hn) hy
    rw [hp] at hb
    refine .barren (hu.rests hx hrest hy) ?_ hyo
    simp only [advance?, hp] at hy
    rcases r with e | ⟨n⟩ | e | _
    · cases hy
    · exact hb.elim
    · exact hb.elim
    · cases hy
      exact .inr hb
  | running stage =>
    have hyo : y.Orderly := ho.proceed (fun limit backlog he => by rw [hp] at he; cases he) hy
    have hd : x.Departing x.phase := by
      rw [hp] at hb ⊢
      exact hb
    obtain ⟨hd, hx, hrest⟩ := hd.advance hy
    exact .barren (hu.rests hx hrest hy) hd.barren hyo
  | ended r =>
    rw [advance?, hp] at hy
    cases hy

theorem Cleared.advance {limit : Nat} (h : x.Cleared limit) (hy : x.advance? = some y) :
    y.Cleared limit := by
  obtain ⟨hview, hsize, -⟩ := advance?_view hy
  have hyo := h.orderly.advance h.unterminated hy
  obtain ⟨s, p, rfl⟩ := advance?_take hy
  refine ⟨captured_take h.captured s p, ?_, ?_, hyo⟩
  · rw [hsize]
    exact h.bounded
  · intro l hc n hn d hd
    rw [captured_take h.captured] at hc
    exact h.unterminated l (h.captured.trans hc) n hn d ((congrFun hview n).symm.trans hd)

theorem Doomed.advance {limit : Nat} {c : Command} (h : x.Doomed limit c)
    (hy : x.advance? = some y) : y.Doomed limit c := by
  obtain ⟨hview, hsize, -⟩ := advance?_view hy
  have hkeep (hcalls : ∀ call ∈ y.site.calls, ∃ r, call = .apply c .replay r)
      (hp : y.DoomedAt limit c y.phase) : y.Doomed limit c := by
    have hv : y.view = x.view := hview
    have hends : EndsAt y.view limit c := hv ▸ h.ends
    have hbound : limit ≤ LawfulLog.size y.site.log := hsize ▸ h.bounded
    obtain ⟨s, p, rfl⟩ := advance?_take hy
    exact ⟨captured_take h.captured s p, hbound, hends, hcalls, hp⟩
  -- the log and its measured end stay, so all depends on where the runner goes
  have hphase := h.phase
  cases hp : x.phase with
  | replaying stage =>
    rw [hp] at hphase
    cases stage with
    | terminating l a =>
      obtain ⟨rfl, hc, hm, hcon⟩ := hphase
      have hx : x.attempt? = some a := by rw [attempt?, hp]
      have hcalls : ∀ call ∈ y.site.calls, ∃ r, call = .apply c .replay r := by
        rcases (advance?_attempt hx hy).calls_cases with he | ⟨-, he⟩
        · rw [he]
          exact h.calls
        · rw [he, hc, hm]
          intro call hcall
          rcases List.mem_cons.1 hcall with rfl | hcall
          · exact ⟨_, rfl⟩
          · exact h.calls call hcall
      refine hkeep hcalls ?_
      simp only [advance?, hp] at hy
      rcases enter_within_cases hy with ⟨s, a', hs, rfl⟩ | ⟨s, conclusion, hs, hy⟩
      · have ho := Applying.step_next hs
        exact ⟨rfl, ho.command.trans hc, ho.mode.trans hm, hcon.next hs⟩
      · cases conclusion with
        | interrupted =>
          cases hy
          rcases Applying.step_done hs with ⟨_, -, hstop, rfl, -⟩ | ⟨ht, rfl⟩
          · exact hstop
          · unfold Applying.Conclusive at hcon
            rw [ht] at hcon
            exact absurd rfl hcon
        | applied e =>
          cases hy
          exact ⟨rfl, rfl, rfl⟩
        | failed f =>
          cases hy
          exact ⟨rfl, rfl, rfl⟩
    | _ => exact hphase.elim
  | replayed r =>
    have hx : x.attempt? = none := by rw [attempt?, hp]
    have hrest : x.site.Rests y.site :=
      advance?_rests hx (fun n hn => by rw [hp] at hn; cases hn) hy
    rw [hp] at hphase
    refine hkeep (by rw [hrest.calls]; exact h.calls) ?_
    simp only [advance?, hp] at hy
    rcases r with e | ⟨n⟩ | e | _
    · cases hy
    · exact hphase.elim
    · cases hy
      exact .inl hphase.1
    · cases hy
      exact .inr hphase
  | running stage =>
    have hd : x.Departing x.phase := by
      rw [hp] at hphase ⊢
      exact hphase
    obtain ⟨hd, -, hrest⟩ := hd.advance hy
    exact hkeep (by rw [hrest.calls]; exact h.calls) (hd.doomed limit c)
  | ended r =>
    rw [advance?, hp] at hy
    cases hy

omit [Executor ε] in
theorem BarrenAt.drift {s : Site μ κ ε} {p : Phase} (h : x.BarrenAt p) (hd : x.site.Drift s) :
    BarrenAt { x with site := s } p := by
  have hdep (h : x.Departing p) : Departing { x with site := s } p :=
    h.mono hd.terminated.trans hd.stop
  cases p with
  | replaying stage => exact h
  | replayed r =>
    rcases r with e | ⟨n⟩ | e | _
    · trivial
    · exact h.elim
    · exact h.elim
    · exact hd.stop h
  | running stage => exact hdep h
  | ended r => trivial

omit [Executor ε] in
theorem DoomedAt.drift {s : Site μ κ ε} {limit : Nat} {c : Command} {p : Phase}
    (h : x.DoomedAt limit c p) (hd : x.site.Drift s) :
    DoomedAt { x with site := s } limit c p := by
  have hdep (h : x.Departing p) : Departing { x with site := s } p :=
    h.mono hd.terminated.trans hd.stop
  cases p with
  | replaying stage =>
    cases stage with
    | terminating l a => exact h
    | _ => exact h.elim
  | replayed r =>
    rcases r with e | ⟨n⟩ | e | _
    · exact h.elim
    · exact h.elim
    · exact ⟨hd.terminated.trans h.1, hd.state.trans h.2.1, hd.applied.trans h.2.2⟩
    · exact hd.stop h
  | running stage => exact hdep h
  | ended r => trivial

omit [Executor ε] in
theorem Cleared.drift {s : Site μ κ ε} {limit : Nat} (h : x.Cleared limit)
    (hd : x.site.Drift s) : Cleared { x with site := s } limit := by
  refine ⟨h.captured, Nat.le_trans h.bounded hd.log.size_le, ?_, h.orderly.change hd⟩
  intro l hc n hn d hv
  cases h.captured.symm.trans hc
  have hview : command? s.log n = x.view n := hd.log.kept (Nat.lt_of_lt_of_le hn h.bounded)
  exact h.unterminated limit h.captured n hn d (hview.symm.trans hv)

omit [Executor ε] in
theorem Doomed.drift {s : Site μ κ ε} {limit : Nat} {c : Command} (h : x.Doomed limit c)
    (hd : x.site.Drift s) : Doomed { x with site := s } limit c where
  captured := h.captured
  bounded := Nat.le_trans h.bounded hd.log.size_le
  ends := h.ends.congr fun _ hn => hd.log.kept (Nat.lt_of_lt_of_le hn h.bounded)
  calls := by
    show ∀ call ∈ s.calls, _
    rw [hd.calls]
    exact h.calls
  phase := h.phase.drift hd

omit [Executor ε] in
theorem Fate.change {s : Site μ κ ε} (h : x.Fate) (hd : x.site.Drift s) :
    Fate { x with site := s } := by
  cases h with
  | barren hu hb ho =>
    exact .barren ⟨hd.calls.trans hu.calls, hu.settled, hu.published, hu.concluded⟩ (hb.drift hd)
      (ho.change hd)
  | cleared h => exact .cleared (h.drift hd)
  | doomed h => exact .doomed (h.drift hd)

theorem Fate.step (h : x.Fate) (hs : Step Site.Drift x y) : y.Fate := by
  cases hs with
  | change hd => exact h.change hd
  | act hy =>
    cases h with
    | barren hu hb ho => exact .advance_barren hu hb ho hy
    | cleared h => exact .cleared (h.advance hy)
    | doomed h => exact .doomed (h.advance hy)

theorem Fate.reaches (h : x.Fate) (hr : Reaches Site.Drift x y) : y.Fate := by
  induction hr with
  | refl => exact h
  | tail _ hs ih => exact ih.step hs

omit [Executor ε] in
theorem ofSite_fate {s : Site μ κ ε} (h : s.Fresh) (task : Nat) : (ofSite task s).Fate :=
  .barren ⟨h.calls, rfl, rfl, rfl⟩ trivial (ofSite_orderly h task)

omit [Executor ε] in
theorem Fate.cleared_of_completed {n : Nat} (h : x.Fate)
    (hp : x.phase = .replayed (.ok (.completed n))) : ∃ limit, x.Cleared limit := by
  cases h with
  | barren hu hb ho =>
    rw [hp] at hb
    exact hb.elim
  | cleared h => exact ⟨_, h⟩
  | doomed h =>
    have hd := h.phase
    rw [hp] at hd
    exact hd.elim

def Condemned (x : Lifetime μ κ ε) (limit : Nat) : Prop :=
  x.captured = some limit ∧
    ∃ n < limit, ∃ d, x.view n = some d ∧ d.id.isClusterTerminate = true

omit [Executor ε] in
theorem Fate.cases_condemned {limit : Nat} (h : x.Fate) (hc : x.Condemned limit) :
    (x.Untouched ∧ x.BarrenAt x.phase) ∨ ∃ c, x.Doomed limit c := by
  obtain ⟨hcap, n, hn, d, hd, ht⟩ := hc
  cases h with
  | barren hu hb ho => exact .inl ⟨hu, hb⟩
  | cleared h =>
    have hf := h.unterminated limit hcap n hn d hd
    rw [ht] at hf
    cases hf
  | @doomed _ c h =>
    cases h.captured.symm.trans hcap
    exact .inr ⟨c, h⟩

omit [Executor ε] in
theorem Fate.calls_condemned {limit : Nat} (h : x.Fate) (hc : x.Condemned limit) :
    ∃ c, EndsAt x.view limit c ∧ ∀ call ∈ x.site.calls, ∃ r, call = .apply c .replay r := by
  obtain ⟨-, n, hn, d, hd, ht⟩ := id hc
  rcases h.cases_condemned hc with ⟨hu, -⟩ | ⟨c, hdoom⟩
  · obtain ⟨c, hends⟩ := EndsAt.of_request (fun _ _ => LawfulLog.offset_eq) hn hd ht
    refine ⟨c, hends, ?_⟩
    rw [hu.calls]
    exact fun call hcall => nomatch hcall
  · exact ⟨c, hdoom.ends, hdoom.calls⟩

omit [Executor ε] in
theorem Fate.outcome_condemned {limit : Nat} {outcome : ReplayOutcome} (h : x.Fate)
    (hc : x.Condemned limit) (hp : x.phase = .replayed (.ok outcome))
    (hi : outcome ≠ .interrupted) :
    (∃ e, outcome = .terminated e) ∧ x.site.node.runner.state = .stopped ∧ x.applied = limit := by
  rcases h.cases_condemned hc with ⟨-, hb⟩ | ⟨c, hdoom⟩
  · rw [hp] at hb
    cases outcome with
    | interrupted => exact absurd rfl hi
    | _ => exact hb.elim
  · have hd := hdoom.phase
    rw [hp] at hd
    cases outcome with
    | interrupted => exact absurd rfl hi
    | completed n => exact hd.elim
    | terminated e => exact ⟨⟨e, rfl⟩, hd.2⟩

theorem Condemned.step {limit : Nat} (h : x.Condemned limit) (hs : Step Site.Drift x y) :
    y.Condemned limit := by
  obtain ⟨hcap, n, hn, d, hd, ht⟩ := h
  cases hs with
  | act hy =>
    have hview := (advance?_view hy).1
    obtain ⟨s, p, rfl⟩ := advance?_take hy
    exact ⟨captured_take hcap s p, n, hn, d, (congrFun hview n).trans hd, ht⟩
  | change hdrift => exact ⟨hcap, n, hn, d, hdrift.log.command? hd, ht⟩

theorem Fate.calls_step {limit : Nat} (h : x.Fate) (hc : x.Condemned limit)
    (hp : ∀ stage, x.phase ≠ .replaying stage) (hs : Step Site.Drift x y) :
    y.site.calls = x.site.calls ∧ ∀ stage, y.phase ≠ .replaying stage := by
  cases hs with
  | change hd => exact ⟨hd.calls, hp⟩
  | act hy =>
    have hx : x.attempt? = none := by
      cases hq : x.phase with
      | replaying stage => exact absurd hq (hp stage)
      | running stage =>
        cases stage with
        | applying rest a =>
          rcases h.cases_condemned hc with ⟨-, hb⟩ | ⟨c, hd⟩
          · rw [hq] at hb
            exact hb.elim
          · have hd := hd.phase
            rw [hq] at hd
            exact hd.elim
        | _ => rw [attempt?, hq]
      | _ => rw [attempt?, hq]
    refine ⟨(advance?_rests hx (fun n => hp _) hy).calls, ?_⟩
    unfold advance? at hy
    split at hy
    · next hq => exact absurd hq (hp _)
    · cases hy
      intro stage hq
      cases hq
    · rcases enter_cases hy with ⟨s, stage', -, rfl⟩ | ⟨s, r, -, rfl⟩ <;>
      · intro stage hq
        cases hq
    · cases hy

theorem Fate.calls_reaches {limit : Nat} (h : x.Fate) (hc : x.Condemned limit)
    (hp : ∀ stage, x.phase ≠ .replaying stage) (hr : Reaches Site.Drift x y) :
    y.site.calls = x.site.calls := by
  induction hr using Relation.ReflTransGen.head_induction_on with
  | refl => rfl
  | head hs _ ih =>
    obtain ⟨hcalls, hp⟩ := h.calls_step hc hp hs
    exact (ih (h.step hs) (hc.step hs) hp).trans hcalls

end Lifetime

end StatementLog
