import StatementLog.Proofs.Engine.Shutdown
import StatementLog.Proofs.Replay.Serving
import StatementLog.Proofs.Runner.Termination

namespace StatementLog

/-- Each command of the log has the id that its statement is logged under. -/
def Named (view : Nat → Option Command) : Prop :=
  ∀ n c, view n = some c → Statement.readId c.payload.statement = .ok c.id

theorem Statement.terminateCluster_of_readId {text : String} {id : CommandId}
    (h : Statement.readId text = .ok id) (ht : id.isClusterTerminate = true) :
    ∃ topics, Statement.read text = .ok (.terminateCluster topics) := by
  rw [Statement.readId] at h
  cases hr : Statement.read text with
  | error e =>
    rw [hr] at h
    cases h
  | ok statement =>
    rw [hr] at h
    cases h
    cases statement with
    | terminateCluster topics => exact ⟨topics, rfl⟩
    | createSource kind _ _ _ => cases kind <;> cases ht
    | createAsSelect kind _ _ _ => cases kind <;> cases ht
    | dropSource kind _ _ _ => cases kind <;> cases ht
    | insertInto _ _ => cases ht
    | terminateQuery _ => cases ht

theorem Engine.apply_termination {command : Command} (e : Engine) (b : Broker) (mode : Mode)
    (hid : Statement.readId command.payload.statement = .ok command.id)
    (ht : command.id.isClusterTerminate = true) :
    ∃ effect, (e.apply b command mode).1 = .ok effect ∧ effect.shutdown = true := by
  cases hn : e.catalog.alreadyApplied command.id command.offset with
  | true =>
    rw [Engine.apply, if_pos hn]
    exact ⟨_, rfl, ht⟩
  | false =>
    obtain ⟨topics, hr⟩ := Statement.terminateCluster_of_readId hid ht
    rw [Engine.apply_terminateCluster hr hn]
    exact ⟨_, rfl, rfl⟩

namespace Lifetime

variable {μ κ : Type} [CommandLog μ κ] [LawfulLog μ]

def Leaving {ε : Type} (x : Lifetime μ κ ε) : Prop :=
  x.Departing x.phase ∨
    ∃ rest a e, x.phase = .running (.applying rest a) ∧ a.effect? = some e ∧ e.shutdown = true

def Obeys (x : Lifetime μ κ Engine) : Prop :=
  ∀ later c r earlier, x.site.calls = later ++ .apply c .live r :: earlier →
    c.id.isClusterTerminate = true → later = [] ∧ x.Leaving

section

variable {ε : Type} [Executor ε] {x y : Lifetime μ κ ε}

omit [CommandLog μ κ] [LawfulLog μ] in
theorem effect?_trying {a : Applying} {e : Effect} (ha : a.effect? = some e) :
    a.stage ≠ .trying := by
  intro ht
  rw [Applying.effect?, ht] at ha
  cases ha

omit [CommandLog μ κ] [LawfulLog μ] in
theorem effect?_next {a a' : Applying} {s s' : Site μ κ ε} {e : Effect}
    (ha : a.effect? = some e) (hs : a.step s = .next s' a') : a'.effect? = some e := by
  unfold Applying.effect? at ha
  split at ha
  · next ht =>
    cases ha
    rw [Applying.step, ht] at hs
    cases hs
    rfl
  · next ht =>
    rw [Applying.step, ht] at hs
    cases hs
  · cases ha

omit [CommandLog μ κ] [LawfulLog μ] in
theorem effect?_done {a : Applying} {s s' : Site μ κ ε} {c : Conclusion} {e : Effect}
    (ha : a.effect? = some e) (hs : a.step s = .done s' c) : c = .applied e := by
  rcases Applying.step_done hs with ⟨wake, ht, -⟩ | ⟨ht, -⟩
  · rw [Applying.effect?, ht] at ha
    cases ha
  · rw [Applying.effect?, ht] at ha
    cases c with
    | applied e' =>
      cases ha
      rfl
    | _ => cases ha

theorem Leaving.advance (h : x.Leaving) (hy : x.advance? = some y) :
    y.Leaving ∧ y.site.calls = x.site.calls := by
  rcases h with h | ⟨rest, a, e, hp, ha, he⟩
  · obtain ⟨hd, -, hrest⟩ := h.advance hy
    exact ⟨.inl hd, hrest.calls⟩
  · cases hab : x.site.node.runner.aborted with
    | true =>
      have hx : x.attempt? = none := by
        rw [attempt?, hp]
        simp [hab]
      have hrest := advance?_rests hx (fun n hn => by rw [hp] at hn; cases hn) hy
      simp only [advance?, hp, Running.step.eq_def, hab, if_true] at hy
      cases hy
      exact ⟨.inl trivial, hrest.calls⟩
    | false =>
      have hx : x.attempt? = some a := by
        rw [attempt?, hp]
        simp [hab]
      have hcalls : y.site.calls = x.site.calls := by
        rcases (advance?_attempt hx hy).calls_cases with hc | ⟨ht, -⟩
        · exact hc
        · exact absurd ht (effect?_trying ha)
      refine ⟨?_, hcalls⟩
      simp only [advance?, hp, Running.step, hab, Bool.false_eq_true, if_false] at hy
      rcases enter_within_cases hy with ⟨s, a', hs, rfl⟩ | ⟨s, c, hs, hy⟩
      · exact .inr ⟨rest, a', e, rfl, effect?_next ha hs, he⟩
      · cases effect?_done ha hs
        simp only [he, if_true] at hy
        cases hy
        exact .inl trivial

omit [Executor ε] in
theorem Fate.live_attempt {a : Applying} (h : x.Fate) (hx : x.attempt? = some a)
    (hm : a.mode = .live) :
    x.view a.command.offset = some a.command ∧
      ∃ rest, x.phase = .running (.applying rest a) ∧ x.site.node.runner.aborted = false := by
  have hphase : (∃ l, x.phase = .replaying (.terminating l a)) ∨
      (∃ rest n, x.phase = .replaying (.applying rest n a)) ∨
        ∃ rest, x.phase = .running (.applying rest a) ∧ x.site.node.runner.aborted = false := by
    unfold attempt? at hx
    split at hx
    · next hp =>
      cases hx
      exact .inl ⟨_, hp⟩
    · next hp =>
      cases hx
      exact .inr (.inl ⟨_, _, hp⟩)
    · next hp =>
      split at hx
      · cases hx
      · next ha =>
        cases hx
        exact .inr (.inr ⟨_, hp, Bool.eq_false_iff.2 ha⟩)
    · cases hx
  cases h with
  | barren hu hb ho =>
    rcases hphase with ⟨l, hp⟩ | ⟨rest, n, hp⟩ | ⟨rest, hp, -⟩ <;> rw [hp] at hb <;> exact hb.elim
  | doomed h =>
    have hd := h.phase
    rcases hphase with ⟨l, hp⟩ | ⟨rest, n, hp⟩ | ⟨rest, hp, -⟩ <;> rw [hp] at hd
    · rw [hd.2.2.1] at hm
      cases hm
    · exact hd.elim
    · exact hd.elim
  | cleared h =>
    obtain ⟨limit, mode, rest, hh⟩ := h.orderly.handling (phase_attempt? hx)
    refine ⟨hh.view_offset, ?_⟩
    have ho := h.orderly.2
    rcases hphase with ⟨l, hp⟩ | ⟨rest, n, hp⟩ | h
    · rw [hp] at ho
      exact ho.elim
    · rw [hp] at ho
      obtain ⟨l, ho⟩ := ho
      rw [ho.mode] at hm
      cases hm
    · exact h

end

variable {x y : Lifetime μ κ Engine}

theorem Obeys.advance (h : x.Obeys) (hf : x.Fate) (hn : Named x.view) (hy : x.advance? = some y) :
    y.Obeys := by
  intro later c r earlier hcalls ht
  -- unless the call is new, the runner was leaving before, and applies nothing more
  have hkeep (hsame : y.site.calls = x.site.calls) : later = [] ∧ y.Leaving := by
    obtain ⟨hl, hleave⟩ := h later c r earlier (hsame.symm.trans hcalls) ht
    exact ⟨hl, (hleave.advance hy).1⟩
  have hnew {call : ExecutorCall} (hcons : y.site.calls = call :: x.site.calls) :
      later = [] ∧ call = .apply c .live r := by
    rw [hcons] at hcalls
    cases later with
    | nil => exact ⟨rfl, (List.cons.inj hcalls).1⟩
    | cons call' later =>
      obtain ⟨-, hleave⟩ := h later c r earlier (List.cons.inj hcalls).2 ht
      have hlen := congrArg List.length hcons
      rw [(hleave.advance hy).2, List.length_cons] at hlen
      omega
  rcases advance?_cases hy with ⟨a, hx, ha⟩ | ⟨n, r', -, -, hs⟩ | ⟨-, -, hr⟩
  · rcases ha.calls_cases with hc | ⟨hst, hc⟩
    · exact hkeep hc
    · obtain ⟨hl, he⟩ := hnew hc
      injection he with hcmd hmode hres
      subst hcmd
      refine ⟨hl, ?_⟩
      obtain ⟨hv, rest, hp, hab⟩ := hf.live_attempt hx hmode
      obtain ⟨e, hok, hshut⟩ :=
        Engine.apply_termination x.site.executor x.site.broker a.mode (hn _ _ hv) ht
      simp only [advance?, hp, Running.step, hab, Bool.false_eq_true, if_false] at hy
      rcases Applying.trying_cases hst x.site with
        ⟨e', hr, hs⟩ | ⟨f, _, _, hr, -⟩ | ⟨f, hr, -⟩
      · cases hr.symm.trans hok
        rw [hs] at hy
        cases hy
        exact .inr ⟨rest, _, e, rfl, rfl, hshut⟩
      · cases hr.symm.trans hok
      · cases hr.symm.trans hok
  · obtain ⟨-, he⟩ := hnew (congrArg Site.calls hs)
    cases he
  · exact hkeep hr.calls

theorem Obeys.drift (h : x.Obeys) {s : Site μ κ Engine} (hd : x.site.Drift s) :
    Obeys { x with site := s } := by
  intro later c r earlier hcalls ht
  obtain ⟨hl, hleave⟩ := h later c r earlier (hd.calls.symm.trans hcalls) ht
  refine ⟨hl, ?_⟩
  rcases hleave with hdep | ha
  · exact .inl (hdep.mono hd.terminated.trans hd.stop)
  · exact .inr ha

theorem named_of_step (hs : Step Site.Drift x y) (hn : Named y.view) : Named x.view := by
  intro n c hc
  cases hs with
  | act hy => exact hn n c ((congrFun (advance?_view hy).1 n).trans hc)
  | change hd => exact hn n c (hd.log.command? hc)

theorem Obeys.reaches (h : x.Obeys) (hf : x.Fate) (hr : Reaches Site.Drift x y)
    (hn : Named y.view) : y.Obeys := by
  induction hr with
  | refl => exact h
  | tail hr hs ih =>
    have hn' := named_of_step hs hn
    cases hs with
    | act hy => exact (ih hn').advance (hf.reaches hr) hn' hy
    | change hd => exact (ih hn').drift hd

theorem Obeys.offset_le (h : x.Obeys) (hf : x.Fate) {c d : Command} {m : Mode}
    {r r' : Except Failure Effect} (hc : .apply c .live r ∈ x.site.calls)
    (ht : c.id.isClusterTerminate = true) (hd : .apply d m r' ∈ x.site.calls) :
    d.offset ≤ c.offset := by
  have ho : ∀ n c, x.view n = some c → c.offset = n := fun _ _ => LawfulLog.offset_eq
  obtain ⟨later, earlier, hcalls⟩ := List.append_of_mem hc
  obtain ⟨rfl, -⟩ := h later c r earlier hcalls ht
  cases hf with
  | barren hu hb _ =>
    rw [hu.calls] at hc
    cases hc
  | doomed h =>
    obtain ⟨_, he⟩ := h.calls _ hc
    cases he
  | cleared h =>
    obtain ⟨_, _, _, hacc, -⟩ := h.orderly.2.halting
    have hh := hacc.handed
    have hlt := (hh.of_mem ho hd).1
    rw [hcalls] at hh
    have hlast := hh.head_offset ho
    omega

omit [CommandLog μ κ] [LawfulLog μ] in
theorem ofSite_obeys {s : Site μ κ Engine} (h : s.calls = []) (task : Nat) :
    (ofSite task s).Obeys := by
  intro later c r earlier hcalls
  have hcalls : [] = later ++ .apply c .live r :: earlier := h.symm.trans hcalls
  cases later <;> cases hcalls

end Lifetime

end StatementLog
