import StatementLog.Proofs.Node.Admission
import StatementLog.Proofs.Replay.Departure

namespace StatementLog

namespace Station

variable {μ κ : Type} [CommandLog μ κ] [LawfulLog μ] [WritableLog μ]

/-- A node that starts on a log with a request to terminate the cluster replays the last one alone:
if the replay is not interrupted, the runner is stopped at the end that the replay captured, and
applies nothing when it runs later; the node is never ready, and no caller gets to append anything.
A node with an engine that applies such a request live hands nothing over after it. -/
theorem termination_is_final :
    (∀ (ε : Type) [Executor ε] (x y z : Station μ κ ε) (limit n : Nat) (d : Command),
      x.Fresh → x.Reaches y → y.Reaches z → y.life.captured = some limit → n < limit →
        y.life.view n = some d → d.id.isClusterTerminate = true →
          (∃ c, EndsAt y.life.view limit c ∧
            ∀ call ∈ y.site.calls, ∃ r, call = .apply c .replay r) ∧
          (∀ outcome, y.life.phase = .replayed (.ok outcome) → outcome ≠ .interrupted →
            (∃ e, outcome = .terminated e) ∧ y.site.node.runner.state = .stopped ∧
              y.life.applied = limit) ∧
          ((∃ r, y.life.phase = .replayed r) → z.site.calls = y.site.calls) ∧
          y.site.node.isReady = false ∧ ∀ c ∈ y.callers, c.offset = none) ∧
    ∀ (x y : Station μ κ Engine) (c : Command) (r : Except Failure Effect),
      x.Fresh → x.Reaches y → Named y.life.view → .apply c .live r ∈ y.site.calls →
        c.id.isClusterTerminate = true →
          (∃ earlier, y.site.calls = .apply c .live r :: earlier) ∧
            ∀ d m r', .apply d m r' ∈ y.site.calls → d.offset ≤ c.offset := by
  refine ⟨?_, ?_⟩
  · intro ε _ x y z limit n d hfresh hxy hyz hcap hn hd ht
    obtain ⟨hy, hly⟩ := life_reaches hfresh.sound hxy
    have hf : y.life.Fate := hfresh.fate.reaches hly
    have hc : y.life.Condemned limit := ⟨hcap, n, hn, d, hd, ht⟩
    obtain ⟨hready, hout⟩ :=
      (hfresh.guarded.reaches hfresh.sound hfresh.fate hxy).closed hc
    refine ⟨hf.calls_condemned hc, fun outcome => hf.outcome_condemned hc, ?_, ?_, ?_⟩
    · rintro ⟨r, hp⟩
      refine hf.calls_reaches hc (fun stage hs => ?_) (life_reaches hy hyz).2
      rw [hp] at hs
      cases hs
    · rw [Node.isReady, hready]
      rfl
    · exact fun c hc => (hout c hc).offset
  · intro x y c r hfresh hxy hn hc ht
    obtain ⟨-, hl⟩ := life_reaches hfresh.sound hxy
    have hf : y.life.Fate := hfresh.fate.reaches hl
    have ho : x.life.Obeys := by
      obtain ⟨task, he⟩ := hfresh.life
      rw [he]
      exact Lifetime.ofSite_obeys hfresh.site.calls task
    have ho : y.life.Obeys := ho.reaches hfresh.fate hl hn
    refine ⟨?_, fun d m r' hd => ho.offset_le hf hc ht hd⟩
    obtain ⟨later, earlier, hcalls⟩ := List.append_of_mem hc
    obtain ⟨rfl, -⟩ := ho later c r earlier hcalls ht
    exact ⟨earlier, hcalls⟩

end Station

def Lifetime.termination : List Char :=
  recordLine ⟨.cluster, "TerminateCluster", .terminate⟩ "TERMINATE CLUSTER;"

namespace Station

open Lifetime

def outcome? {ε : Type} (x : Station Tape TapeClient ε) : Option ReplayOutcome :=
  match x.life.phase with
  | .replayed (.ok outcome) => some outcome
  | _ => none

theorem phase_of_outcome? {ε : Type} {x : Station Tape TapeClient ε} {outcome : ReplayOutcome}
    (h : x.outcome? = some outcome) : x.life.phase = .replayed (.ok outcome) := by
  unfold outcome? at h
  split at h
  · next hp =>
    cases h
    exact hp
  · cases h

def endsLive {ε : Type} (x : Station Tape TapeClient ε) : Bool :=
  match x.site.calls with
  | .apply c .live _ :: _ => c.id.isClusterTerminate
  | _ => false

theorem mem_of_endsLive {ε : Type} {x : Station Tape TapeClient ε} (h : x.endsLive = true) :
    ∃ c r, .apply c .live r ∈ x.site.calls ∧ c.id.isClusterTerminate = true := by
  unfold endsLive at h
  split at h
  · next c r _ hc => exact ⟨c, r, hc ▸ List.mem_cons_self .., h⟩
  · cases h

set_option maxRecDepth 10000 in
theorem termination_is_final_replayed :
    (∃ y z : Station Tape TapeClient Engine,
      Reaches (onTape [creation "A", termination] {} {}) y ∧ Reaches y z ∧
        y.life.phase = .replayed (.ok (.terminated none)) ∧
        y.site.node.runner.state = .stopped ∧ y.life.applied = 2 ∧
        z.site.calls = y.site.calls ∧ y.site.node.isReady = false) ∧
    ∃ (y : Station Tape TapeClient Engine) (c : Command) (r : Except Failure Effect),
      Reaches (onTape [] {} {}) y ∧ y.site.log.lines = [termination, creation "B"] ∧
        (∃ earlier, y.site.calls = .apply c .live r :: earlier) ∧
          ∀ d m r', .apply d m r' ∈ y.site.calls → d.offset ≤ c.offset := by
  refine ⟨?_, ?_⟩
  · have hrun : ((advances? 18 (onTape [creation "A", termination] {} ({} : Engine))).bind fun y =>
        (advances? 3 y).map fun _ => decide (y.outcome? = some (.terminated none) ∧
          y.life.captured = some 2 ∧ (y.life.view 1).map (·.id.isClusterTerminate) = some true)) =
            some true := by
      decide +kernel
    obtain ⟨y, hy, hrun⟩ := Option.bind_eq_some_iff.1 hrun
    obtain ⟨z, hz, hrun⟩ := Option.map_eq_some_iff.1 hrun
    obtain ⟨hp, hcap, ht⟩ := of_decide_eq_true hrun
    have hp := phase_of_outcome? hp
    obtain ⟨d, hd, ht⟩ := Option.map_eq_some_iff.1 ht
    obtain ⟨-, hout, hlater, hready, -⟩ := termination_is_final.1 Engine _ y z 2 1 d
      (onTape_fresh (by decide) _ _) (advances?_reaches hy) (advances?_reaches hz) hcap (by decide)
      hd ht
    obtain ⟨-, hstate, happ⟩ := hout _ hp (by simp)
    exact ⟨y, z, advances?_reaches hy, advances?_reaches hz, hp, hstate, happ, hlater ⟨_, hp⟩,
      hready⟩
  · have hrun : ((advances? 14 (onTape [] {} ({} : Engine))).bind fun x =>
        (advances? 11 (x.grown [termination, creation "B"])).map fun y =>
          decide (x.site.log.lines = [] ∧ y.site.log.lines = [termination, creation "B"] ∧
            (∀ n < 2, (y.life.view n).all fun c =>
              decide (Statement.readId c.payload.statement = .ok c.id)) ∧
                y.endsLive = true)) = some true := by
      decide +kernel
    obtain ⟨x, hx, hrun⟩ := Option.bind_eq_some_iff.1 hrun
    obtain ⟨y, hy, hrun⟩ := Option.map_eq_some_iff.1 hrun
    obtain ⟨hempty, hlines, hnamed, hends⟩ := of_decide_eq_true hrun
    have hgrow : Reaches x (x.grown [termination, creation "B"]) :=
      reaches_grown (by rw [hempty]; decide)
    have hreach := ((advances?_reaches hx).trans hgrow).trans (advances?_reaches hy)
    have hn : Named y.life.view := by
      intro n c hc
      have hlt : n < y.site.log.lines.length := LawfulLog.lt_size hc
      rw [hlines] at hlt
      have hall := hnamed n hlt
      rw [hc] at hall
      exact of_decide_eq_true hall
    obtain ⟨c, r, hc, ht⟩ := mem_of_endsLive hends
    exact ⟨y, c, r, hreach, hlines,
      termination_is_final.2 _ y c r (onTape_fresh (by decide) _ _) hreach hn hc ht⟩

end Station

end StatementLog
