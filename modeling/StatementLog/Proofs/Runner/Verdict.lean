import StatementLog.Proofs.Runner.Termination

namespace StatementLog

/-- What the status says of an application. A failure that was given up on after some attempts is
told with their number. -/
def Reports (result : Except Failure Effect) (status : Status) : Prop :=
  match result with
  | .ok effect => status = .success effect.message
  | .error f => status = .error f.message ∨
      ∃ n > 0, status = .error (f.message ++ s!" (gave up after {n} attempts)")

theorem Applying.reports_failureMessage (a : Applying) (f : Failure) :
    Reports (.error f) (.error (a.failureMessage f.message)) := by
  unfold failureMessage
  split
  · next h => exact .inr ⟨a.transient, h, rfl⟩
  · exact .inl rfl

/-- The command has been applied, and the last time to what the status says; the latest call comes
first. -/
def CameTo (calls : List ExecutorCall) (c : Command) (status : Status) : Prop :=
  ∃ later m r earlier, calls = later ++ .apply c m r :: earlier ∧ c ∉ commandsOf later ∧
    Reports r status

theorem CameTo.cons {calls : List ExecutorCall} {c : Command} {status : Status}
    (h : CameTo calls c status) {e : ExecutorCall} (he : e.command? ≠ some c) :
    CameTo (e :: calls) c status := by
  obtain ⟨later, m, r, earlier, rfl, hl, hr⟩ := h
  refine ⟨e :: later, m, r, earlier, rfl, fun hc => ?_, hr⟩
  rw [commandsOf_cons] at hc
  rcases List.mem_append.1 hc with hc | hc
  · exact hl hc
  · exact he (Option.mem_toList.1 hc)

theorem Ledger.of_mem {view : Nat → Option Command} {α : Type} {good : α → Prop}
    (ho : ∀ n c, view n = some c → c.offset = n) {l : List (Command × α)} {n : Nat}
    (h : Ledger view good l n) {c : Command} {a : α} (hm : (c, a) ∈ l) :
    c.offset < n ∧ view c.offset = some c := by
  induction h with
  | nil => cases hm
  | @next l n d b _ hd _ ih =>
    rcases List.mem_cons.1 hm with he | hm
    · cases he
      rw [ho n c hd]
      exact ⟨Nat.lt_succ_self n, hd⟩
    · exact ⟨Nat.lt_succ_of_lt (ih hm).1, (ih hm).2⟩

namespace Reported

theorem terminals_of_mem {ledger : List (Command × Status)} {ps : List (Slot × Status)} {n : Nat}
    (ho : ∀ n (c : Command) status, ledger.reverse[n]? = some (c, status) → c.offset = n)
    (h : Reported ledger ps n) {slot : Slot} {status : Status} (hm : (slot, status) ∈ ps)
    (ht : status.isTerminal = true) :
    ∃ c, (c, status) ∈ ledger ∧ slot = ⟨c.id, c.offset⟩ ∧ terminals ps slot = [status] := by
  have hentry : ∃ k < n, ∃ c, ledger.reverse[k]? = some (c, status) ∧ slot = ⟨c.id, c.offset⟩ := by
    clear ho
    induction h with
    | nil => cases hm
    | @passing ps n p _ hp ih =>
      rcases List.mem_cons.1 hm with he | hm
      · rw [← he, ht] at hp
        cases hp
      · exact ih hm
    | @final ps n c status' _ hc _ ih =>
      rcases List.mem_cons.1 hm with he | hm
      · cases he
        exact ⟨n, Nat.lt_succ_self n, c, hc, rfl⟩
      · obtain ⟨k, hk, hc⟩ := ih hm
        exact ⟨k, Nat.lt_succ_of_lt hk, hc⟩
  obtain ⟨k, hk, c, hc, rfl⟩ := hentry
  obtain ⟨d, status', hd, hsingle⟩ := h.terminals_eq_single ho hk
  cases hc.symm.trans hd
  rw [← ho k c status hc] at hsingle
  exact ⟨c, List.mem_reverse.1 (List.mem_of_getElem? hc), rfl, hsingle⟩

end Reported

namespace Lifetime

variable {μ κ ε : Type} {x y : Lifetime μ κ ε}

def Faithful (x : Lifetime μ κ ε) : Prop :=
  ∀ c status, (c, status) ∈ x.settled → CameTo x.site.calls c status

variable [CommandLog μ κ] [LawfulLog μ]

theorem Halting.offset_lt (h : x.Halting) {c : Command} {status : Status}
    (hm : (c, status) ∈ x.settled) : c.offset < x.settled.length := by
  obtain ⟨_, _, _, hacc, -⟩ := h
  rw [hacc.settled.length_eq]
  exact (hacc.settled.of_mem (fun _ _ => LawfulLog.offset_eq) hm).1

variable [Executor ε]

theorem Faithful.advance (h : x.Faithful) (ho : x.Orderly) (hy : x.advance? = some y) :
    y.Faithful := by
  obtain ⟨s, p, he⟩ := advance?_take hy
  have hnone (hx : x.attempt? = none) : y.settled = x.settled := by
    rw [he, take, hx]
    rfl
  rcases advance?_cases hy with ⟨a, hx, ha⟩ | ⟨n, r, hx, -, hs⟩ | ⟨hx, -, hr⟩
  · obtain ⟨limit, mode, rest, hh⟩ := ho.handling (phase_attempt? hx)
    have hset : y.settled = (a.settlement? x.site).toList ++ x.settled := by
      rw [he, settled_take hx]
    rcases ha.calls_cases with hcalls | ⟨ht, hcalls⟩
    · by_cases ht : a.stage = .trying
      · have hne : (Applying.reach a x.site).calls ≠ x.site.calls := by
          rw [Applying.reach, ht]
          exact List.cons_ne_self _ _
        exact absurd (ha.calls.symm.trans hcalls) hne
      · rw [Applying.settlement?_of_ne ht] at hset
        intro c status hc
        rw [hset] at hc
        rw [hcalls]
        exact h c status hc
    · -- what was settled before stands at lower offsets than the command in hand
      have hold : ∀ c status, (c, status) ∈ x.settled → CameTo y.site.calls c status := by
        intro c status hc
        rw [hcalls]
        refine (h c status hc).cons fun heq => ?_
        have hlt := ho.2.halting.offset_lt hc
        rw [hh.settled_length (by simp [Applying.Waiting, ht])] at hlt
        cases heq
        exact absurd hlt (Nat.lt_irrefl _)
      have hnew {status : Status} (hr : Reports (a.attempt x.site).1 status) :
          CameTo y.site.calls a.command status :=
        ⟨[], a.mode, _, x.site.calls, hcalls, List.not_mem_nil, hr⟩
      intro c status hc
      rw [hset] at hc
      rcases Applying.settlement?_cases ht x.site with
        ⟨effect, hr, hst⟩ | ⟨f, -, -, hst⟩ | ⟨f, hr, -, hst⟩
      · rw [hst] at hc
        rcases List.mem_cons.1 hc with hc | hc
        · cases hc
          refine hnew ?_
          rw [hr]
          rfl
        · exact hold c status hc
      · rw [hst] at hc
        exact hold c status hc
      · rw [hst] at hc
        rcases List.mem_cons.1 hc with hc | hc
        · cases hc
          refine hnew ?_
          rw [hr]
          exact Applying.reports_failureMessage _ f
        · exact hold c status hc
  · intro c status hc
    rw [hnone hx] at hc
    rw [hs]
    refine (h c status hc).cons ?_
    rw [ExecutorCall.command?_finishReplay]
    intro hnone
    cases hnone
  · intro c status hc
    rw [hnone hx] at hc
    rw [hr.calls]
    exact h c status hc

omit [LawfulLog μ] [CommandLog μ κ] [Executor ε] in
theorem Untouched.faithful (h : x.Untouched) : x.Faithful := by
  intro c status hc
  rw [h.settled] at hc
  cases hc

theorem Fate.faithful_step (hf : x.Fate) (h : (∃ limit, x.Cleared limit) → x.Faithful)
    (hs : Step Site.Drift x y) (hy : ∃ limit, y.Cleared limit) : y.Faithful := by
  have hx : x.Faithful ∧ x.Orderly := by
    cases hf with
    | barren hu hb ho => exact ⟨hu.faithful, ho⟩
    | cleared hc => exact ⟨h ⟨_, hc⟩, hc.orderly⟩
    | @doomed limit c hd =>
      obtain ⟨l, hc⟩ := hy
      have hcond : x.Condemned limit :=
        ⟨hd.captured, c.offset, hd.ends.below, c, hd.ends.stands, hd.ends.terminates⟩
      obtain ⟨hcap, n, hn, d, hv, ht⟩ := hcond.step hs
      have hfalse := hc.unterminated limit hcap n hn d hv
      rw [ht] at hfalse
      cases hfalse
  cases hs with
  | act ha => exact hx.1.advance hx.2 ha
  | change hd =>
    intro c status hc
    rw [hd.calls]
    exact hx.1 c status hc

theorem Fate.faithful_reaches (hf : x.Fate) (h : x.Faithful) (hr : Reaches Site.Drift x y)
    (hy : ∃ limit, y.Cleared limit) : y.Faithful := by
  induction hr with
  | refl => exact h
  | tail hz hs ih => exact (hf.reaches hz).faithful_step ih hs hy

omit [Executor ε] in
theorem Cleared.came_to {limit : Nat} (h : x.Cleared limit) (hf : x.Faithful) {slot : Slot}
    {status : Status} (hm : (slot, status) ∈ x.published) (ht : status.isTerminal = true) :
    ∃ c, x.view slot.offset = some c ∧ c.id = slot.id ∧ terminals x.published slot = [status] ∧
      CameTo x.site.calls c status := by
  have ho : ∀ n c, x.view n = some c → c.offset = n := fun _ _ => LawfulLog.offset_eq
  obtain ⟨_, _, _, hacc, -⟩ := h.orderly.2.halting
  obtain ⟨c, hc, rfl, hsingle⟩ :=
    hacc.reported.terminals_of_mem (fun _ _ _ => hacc.settled.offset_eq ho) hm ht
  exact ⟨c, (hacc.settled.of_mem ho hc).2, rfl, hsingle, hf c status hc⟩

end Lifetime

end StatementLog
