import StatementLog.Proofs.Node.Release
import StatementLog.Proofs.Node.Seclusion
import StatementLog.Proofs.Replay.Readiness

namespace StatementLog

variable {μ κ ε : Type} [CommandLog μ κ] [LawfulLog μ]

def Submitting.offset? : Submitting → Option Nat
  | .appending _ (.announcing offset) => some offset
  | .marking slot => some slot.offset
  | _ => none

def Activity.offset? (a : Activity) : Option Nat :=
  a.submission?.bind Submitting.offset?

namespace Submitting

variable [WritableLog μ] {s s' : Site μ κ ε} {stage stage' : Submitting}

theorem offset?_next {n : Nat} (h : stage.step s = .next s' stage')
    (hn : stage'.offset? = some n) : stage.offset? = some n ∨ n = LawfulLog.size s.log := by
  cases stage with
  | gate request =>
    rw [step] at h
    split at h <;> cases h
    cases hn
  | testing request =>
    rw [step] at h
    split at h <;> cases h
    cases hn
  | naming request =>
    rw [step] at h
    split at h <;> cases h
    cases hn
  | appending id stage =>
    cases stage with
    | writing name payload =>
      rw [step, Appending.step] at h
      split at h
      · cases h
      · next happ =>
        cases h
        cases hn
        exact .inr (WritableLog.append_ok happ).1
    | announcing offset =>
      cases h
      exact .inl hn
  | marking slot => cases h

omit [LawfulLog μ] [WritableLog μ] in
theorem offset?_done {slot : Slot} (h : stage.step s = .done s' (.ok slot)) :
    stage.offset? = some slot.offset := by
  cases stage with
  | gate request =>
    rw [step] at h
    split at h <;> cases h
  | testing request =>
    rw [step] at h
    split at h <;> cases h
  | naming request =>
    rw [step] at h
    split at h <;> cases h
  | appending id stage =>
    obtain ⟨_, r, -, h⟩ := Move.within_done h
    cases r <;> cases h
  | marking slot =>
    cases h
    rfl

end Submitting

namespace Activity

variable [Executor ε] {s s' : Site μ κ ε} {a a' : Activity} {task : Nat}

omit [CommandLog μ κ] [LawfulLog μ] [Executor ε] in
theorem offset?_eq_none (ha : ¬ a.Admitted) : a.offset? = none := by
  cases hs : a.submission? with
  | none => rw [offset?, hs, Option.bind_none]
  | some stage =>
    cases stage with
    | gate request =>
      rw [offset?, hs]
      rfl
    | _ => exact absurd ⟨_, hs, by simp⟩ ha

theorem offset?_next [WritableLog μ] {n : Nat} (hc : a.Calls) (h : a.step task s = .next s' a')
    (hn : a'.offset? = some n) : a.offset? = some n ∨ n = LawfulLog.size s.log := by
  obtain ⟨stage', hs, hn⟩ := Option.bind_eq_some_iff.1 hn
  rcases submission?_next hc h hs with ⟨stage, hs, hm⟩ | ⟨request, rfl⟩
  · rw [offset?, hs]
    exact Submitting.offset?_next hm hn
  · cases hn

omit [LawfulLog μ] in
theorem offset?_done {slot : Slot} (hc : a.Calls)
    (h : a.step task s = .done s' (.ok (.submitted slot))) : a.offset? = some slot.offset := by
  cases a with
  | submitting stage =>
    obtain ⟨_, r, hm, h⟩ := Move.within_done h
    cases r <;> cases h
    exact Submitting.offset?_done hm
  | following stage | executing stage | terminating stage | closing stage =>
    obtain ⟨_, r, -, h⟩ := Move.within_done h
    cases r <;> cases h
  | retiring stage =>
    obtain ⟨_, r, -, h⟩ := Move.within_done h
    cases h
  | probing =>
    rcases he : s.endPosition with ⟨r, s''⟩
    rw [step, he] at h
    cases r <;> cases h
  | watching state =>
    rw [step] at h
    split at h
    · cases h
    · split at h <;> cases h
  | sleeping wake =>
    rw [step] at h
    split at h <;> cases h
  | _ => exact hc.elim

end Activity

namespace Caller

structure Beyond (c : Caller) (limit : Nat) : Prop where
  offset (n : Nat) : c.offset = some n → limit ≤ n
  busy (a : Activity) (n : Nat) : c.progress = .busy a → a.offset? = some n → limit ≤ n
  submitted (slot : Slot) : c.progress = .answered (.ok (.submitted slot)) → limit ≤ slot.offset

inductive Served (c : Caller) : Prop where
  | inside (a : Activity) : c.progress = .busy a → a.Admitted → Served c
  | written (n : Nat) : c.offset = some n → Served c
  | submitted (slot : Slot) : c.progress = .answered (.ok (.submitted slot)) → Served c

structure Unserved (c : Caller) : Prop extends c.Outside where
  submitted (slot : Slot) : c.progress ≠ .answered (.ok (.submitted slot))

variable {c : Caller} {limit : Nat}

omit [CommandLog μ κ] [LawfulLog μ] in
theorem Unserved.not_served (h : c.Unserved) : ¬ c.Served := by
  rintro (⟨a, ha, hadm⟩ | ⟨n, hn⟩ | ⟨slot, hs⟩)
  · exact h.progress a ha hadm
  · rw [h.offset] at hn
    cases hn
  · exact h.submitted slot hs

omit [CommandLog μ κ] [LawfulLog μ] in
theorem Unserved.beyond (h : c.Unserved) (limit : Nat) : c.Beyond limit := by
  refine ⟨fun n hn => ?_, fun a n ha hn => ?_, fun slot hs => absurd hs (h.submitted slot)⟩
  · rw [h.offset] at hn
    cases hn
  · rw [Activity.offset?_eq_none (h.progress a ha)] at hn
    cases hn

omit [CommandLog μ κ] [LawfulLog μ] in
theorem unserved_ofCall {call : Activity} (h : call.IsCall) : (ofCall call).Unserved :=
  ⟨outside_ofCall h, fun _ hs => nomatch hs⟩

variable [Executor ε] {s s' : Site μ κ ε} {a a' : Activity} {task : Nat} {reply : Reply}

theorem Beyond.goOn [WritableLog μ] (h : c.Beyond limit) (ha : c.progress = .busy a)
    (hc : a.Calls) (hs : a.step task s = .next s' a') (hl : limit ≤ LawfulLog.size s.log) :
    (c.goOn a').Beyond limit := by
  refine ⟨fun n hn => ?_, ?_, fun slot hp => nomatch hp⟩
  · rcases Option.or_eq_some_iff.1 hn with hn | ⟨-, hn⟩
    · exact h.offset n hn
    · rw [(Activity.appended?_next hc hs hn).1]
      exact hl
  · rintro _ n ⟨⟩ hn
    rcases Activity.offset?_next hc hs hn with hn | rfl
    · exact h.busy a n ha hn
    · exact hl

omit [LawfulLog μ] in
theorem Beyond.answer (h : c.Beyond limit) (ha : c.progress = .busy a) (hc : a.Calls)
    (hs : a.step task s = .done s' reply) : (c.answer reply).Beyond limit := by
  refine ⟨h.offset, fun _ _ hp => (nomatch hp), ?_⟩
  rintro slot ⟨⟩
  exact h.busy a _ ha (Activity.offset?_done hc hs)

omit [LawfulLog μ] in
theorem Unserved.goOn (h : c.Unserved) (ha : c.progress = .busy a) (hc : a.Calls)
    (hr : s.node.queue.ready = false) (hs : a.step task s = .next s' a') :
    (c.goOn a').Unserved :=
  ⟨h.toOutside.goOn ha hc hr hs, fun _ hp => nomatch hp⟩

omit [LawfulLog μ] in
theorem Unserved.answer (h : c.Unserved) (ha : c.progress = .busy a) (hc : a.Calls)
    (hs : a.step task s = .done s' reply) : (c.answer reply).Unserved := by
  refine ⟨h.toOutside.answer reply, ?_⟩
  rintro slot ⟨⟩
  have ho := Activity.offset?_done hc hs
  rw [Activity.offset?_eq_none (h.progress a ha)] at ho
  cases ho

end Caller

namespace Station

variable [WritableLog μ] {x y z : Station μ κ Engine} {limit : Nat}

def Admits (x : Station μ κ Engine) : Prop :=
  x.site.node.queue.ready = true ∨ ∃ c ∈ x.callers, c.Served

structure Abreast (x : Station μ κ Engine) (limit : Nat) : Prop where
  life : x.life.Prepared limit
  callers : ∀ c ∈ x.callers, c.Beyond limit

def Ushered (x : Station μ κ Engine) : Prop :=
  (∃ limit, x.Abreast limit) ∨
    x.site.node.queue.ready = false ∧ ∀ c ∈ x.callers, c.Unserved

theorem prepared_secluded (h : x.life.Prepared limit) (hx : x.Sound) (hs : Secluded x y) :
    y.life.Prepared limit := by
  rcases life_secluded hx hs with he | hs
  · rw [he]
    exact h
  · exact h.step hs

theorem Abreast.step (h : x.Abreast limit) (hx : x.Sound) (hs : Secluded x y) :
    y.Abreast limit := by
  refine ⟨prepared_secluded h.life hx hs, ?_⟩
  cases hs with
  | own hy _ =>
    rw [(advance?_cases hx.synchronous hy).1]
    exact h.callers
  | @call call hcall =>
    intro c hc
    rcases List.mem_append.1 hc with hc | hc
    · exact h.callers c hc
    · cases List.mem_singleton.1 hc
      exact (Caller.unserved_ofCall hcall).beyond limit
  | serve i hy _ =>
    obtain ⟨c, c', hci, hcs, -, -, -, -, a, ha, hc'⟩ := serve?_bears hx hy
    have hmem := List.mem_of_getElem? hci
    have hcall := hx.calls c hmem a ha
    rw [hcs]
    intro d hd
    rcases List.mem_or_eq_of_mem_set hd with hd | rfl
    · exact h.callers d hd
    · rcases hc' with ⟨a', hm, rfl, -⟩ | ⟨reply, hm, rfl⟩
      · exact (h.callers c hmem).goOn ha hcall hm h.life.bounded
      · exact (h.callers c hmem).answer ha hcall hm
  | abroad _ _ => exact h.callers

theorem Ushered.step (h : x.Ushered) (hx : x.Sound) (hl : x.life.Readied) (hs : Secluded x y) :
    y.Ushered := by
  rcases h with ⟨limit, h⟩ | ⟨hr, hc⟩
  · exact .inl ⟨limit, h.step hx hs⟩
  · -- a step that opens nothing leaves the queue closed
    have hclosed (hq : y.site.node.queue.ready = true → x.site.node.queue.ready = true) :
        y.site.node.queue.ready = false :=
      Bool.eq_false_iff.2 fun hready => Bool.eq_false_iff.1 hr (hq hready)
    cases hs with
    | own hy hb =>
      obtain ⟨hcs, -, hl' | ⟨-, hs | ⟨⟨n, hp⟩, -⟩⟩⟩ := advance?_cases hx.synchronous hy
      · refine .inr ⟨?_, hcs ▸ hc⟩
        rw [site, Lifetime.advance?_queue hl']
        exact hr
      · exact .inr ⟨hclosed (hs hb).ready, hcs ▸ hc⟩
      · obtain ⟨limit, hl⟩ := hl n hp
        refine .inl ⟨limit, prepared_secluded hl hx (.own hy hb), ?_⟩
        rw [hcs]
        exact fun c hm => (hc c hm).beyond limit
    | @call call hcall =>
      refine .inr ⟨hr, ?_⟩
      intro c hm
      rcases List.mem_append.1 hm with hm | hm
      · exact hc c hm
      · cases List.mem_singleton.1 hm
        exact Caller.unserved_ofCall hcall
    | serve i hy hb =>
      obtain ⟨c, c', hci, hcs, -, -, -, hs, a, ha, hc'⟩ := serve?_bears hx hy
      have hmem := List.mem_of_getElem? hci
      have hcall := hx.calls c hmem a ha
      refine .inr ⟨hclosed (hs hb).ready, ?_⟩
      rw [hcs]
      intro d hd
      rcases List.mem_or_eq_of_mem_set hd with hd | rfl
      · exact hc d hd
      · rcases hc' with ⟨a', hm, rfl, -⟩ | ⟨reply, hm, rfl⟩
        · exact (hc c hmem).goOn ha hcall hr hm
        · exact (hc c hmem).answer ha hcall hm
    | abroad h _ => exact .inr ⟨hclosed h.ready, hc⟩

structure Readying (x : Station μ κ Engine) : Prop where
  sound : x.Sound
  fate : x.life.Fate
  readied : x.life.Readied
  ushered : x.Ushered

omit [WritableLog μ] in
theorem Fresh.readying (h : x.Fresh) : x.Readying := by
  refine ⟨h.sound, h.fate, ?_, .inr ⟨h.ready, ?_⟩⟩
  · obtain ⟨task, hl⟩ := h.life
    intro n hp
    rw [hl] at hp
    cases hp
  · rw [h.callers]
    exact fun c hc => nomatch hc

theorem Readying.step (h : x.Readying) (hs : Secluded x y) : y.Readying := by
  have hfate : y.life.Fate := by
    rcases life_step h.sound hs.step with he | hl
    · rw [he]
      exact h.fate
    · exact h.fate.step hl
  refine ⟨h.sound.step hs.step, hfate, ?_, h.ushered.step h.sound h.readied hs⟩
  rcases life_secluded h.sound hs with he | hl
  · rw [he]
    exact h.readied
  · exact h.readied.step hfate hl

theorem Readying.reaches (h : x.Readying) (hr : Seclusion x y) : y.Readying := by
  induction hr with
  | refl => exact h
  | tail _ hs ih => exact ih.step hs

theorem Abreast.reaches (h : x.Abreast limit) (hx : x.Readying) (hr : Seclusion x y) :
    y.Abreast limit := by
  induction hr with
  | refl => exact h
  | tail hr hs ih => exact ih.step (hx.reaches hr).sound hs

omit [WritableLog μ] in
theorem paces?_seclusion {next : Station μ κ Engine → Option (Station μ κ Engine)}
    (hnext : ∀ x y, next x = some y → LawfulLog.size y.site.log ≤ Word.max → Secluded x y) {n : Nat}
    (h : paces? next n x = some y) : Seclusion x y := by
  induction n generalizing x with
  | zero =>
    cases h
    exact .refl
  | succ n ih =>
    obtain ⟨z, hz, hy⟩ := Option.bind_eq_some_iff.1 h
    split at hy
    · next hb => exact .head (hnext x z hz hb.1) (ih hy)
    · cases hy

/-- The ledger of a node that was fresh is what its tracker has been told by the runner. -/
theorem Fresh.heard (hfresh : x.Fresh) (hxy : Seclusion x y) :
    Tracker.Hears y.life.published x.site.tracker y.site.tracker := by
  obtain ⟨ps, hp, ht⟩ := reaches_heard hfresh.sound hxy.reaches
  obtain ⟨task, hl⟩ := hfresh.life
  rw [hl, Lifetime.ofSite, List.append_nil] at hp
  rw [hp]
  exact ht

/-- A node that takes statements has caught up. Its replay has captured an end of the log; all that
stands below has been concluded with one terminal status, and the engine has been told that the
replay is over. From then on every record that a caller gets to write stands at that end or beyond,
and the engine neither holds nor publishes a query that has been restored only. -/
theorem ready_has_caught_up (hfresh : x.Fresh) (hxy : Seclusion x y) (hready : y.Admits) :
    ∃ limit, y.life.captured = some limit ∧
      (∀ n < limit, ∃ c conclusion status, y.life.view n = some c ∧
        y.life.concluded.reverse[n]? = some (c, conclusion) ∧ conclusion ≠ .interrupted ∧
        terminals y.life.published ⟨c.id, n⟩ = [status]) ∧
      .finishReplay (.ok ()) ∈ y.site.calls ∧
      ∀ z, Seclusion y z →
        z.life.captured = some limit ∧ z.site.executor.catalog.Runs ∧
          z.site.executor.snapshot.Runs ∧
          ∀ c ∈ z.callers, (∀ n, c.offset = some n → limit ≤ n) ∧
            ∀ slot, c.progress = .answered (.ok (.submitted slot)) → limit ≤ slot.offset := by
  have hy := hfresh.readying.reaches hxy
  obtain ⟨limit, habreast⟩ : ∃ limit, y.Abreast limit := by
    rcases hy.ushered with h | ⟨hr, hc⟩
    · exact h
    · rcases hready with hq | ⟨c, hm, hs⟩
      · exact absurd hq (Bool.eq_false_iff.1 hr)
      · exact absurd hs (hc c hm).not_served
  have hlife := habreast.life
  refine ⟨limit, hlife.captured, ?_, hlife.told, ?_⟩
  · intro n hn
    exact hlife.orderly.2.halting.concludes (Nat.lt_of_lt_of_le hn hlife.through)
  · intro z hyz
    have hz := habreast.reaches hy hyz
    exact ⟨hz.life.captured, hz.life.runs.catalog, hz.life.runs.snapshot, fun c hc =>
      ⟨(hz.callers c hc).offset, (hz.callers c hc).submitted⟩⟩

end Station

def Lifetime.selection (name source : String) : List Char :=
  recordLine ⟨.stream, name, .create⟩
    ("CREATE STREAM " ++ name ++ " AS SELECT * FROM " ++ source ++ ";")

def Progress.slot? : Progress → Option Slot
  | answered (.ok (.submitted slot)) => some slot
  | _ => none

theorem Progress.of_slot? {p : Progress} {slot : Slot} (h : p.slot? = some slot) :
    p = .answered (.ok (.submitted slot)) := by
  unfold slot? at h
  split at h
  · cases h
    rfl
  · cases h

namespace Station

open Lifetime

set_option maxRecDepth 10000 in
theorem ready_has_caught_up_selected :
    ∃ (y z : Station Tape TapeClient Engine) (c : Caller) (slot : Slot) (limit : Nat),
      Seclusion (onTape [creation "A", selection "B" "A"] (.ofTopics ["A"]) {}) y ∧
        y.site.node.queue.ready = true ∧ Seclusion y z ∧ z.callers[0]? = some c ∧
        c.progress = .answered (.ok (.submitted slot)) ∧ z.life.captured = some limit ∧
        limit ≤ slot.offset ∧ z.site.executor.catalog.Runs ∧
        z.site.executor.catalog.queries.size = 1 := by
  have hrun : ((paces? advance? 26
      (onTape [creation "A", selection "B" "A"] (.ofTopics ["A"]) ({} : Engine))).bind fun y =>
      (paces? (serve? · 0) 6
        (y.accept (.submitting (.gate { text := "DROP STREAM B;" })))).map fun z =>
          decide (y.site.node.queue.ready = true ∧
            (z.callers[0]?.bind (·.progress.slot?)).isSome = true ∧
            z.site.executor.catalog.queries.size = 1)) = some true := by
    decide +kernel
  obtain ⟨y, hy, hrun⟩ := Option.bind_eq_some_iff.1 hrun
  obtain ⟨z, hz, hrun⟩ := Option.map_eq_some_iff.1 hrun
  obtain ⟨hready, hslot, hsize⟩ := of_decide_eq_true hrun
  obtain ⟨slot, hslot⟩ := Option.isSome_iff_exists.1 hslot
  obtain ⟨c, hc, hslot⟩ := Option.bind_eq_some_iff.1 hslot
  have hxy := paces?_seclusion (fun _ _ => .own) hy
  have hcall : (Activity.submitting (.gate { text := "DROP STREAM B;" })).IsCall := trivial
  have hyz : Seclusion y z :=
    .head (.call hcall) (paces?_seclusion (fun _ _ => .serve 0) hz)
  obtain ⟨limit, -, -, -, hlater⟩ :=
    ready_has_caught_up (onTape_fresh (by decide) _ _) hxy (.inl hready)
  obtain ⟨hcap, hruns, -, hcallers⟩ := hlater z hyz
  have hp := Progress.of_slot? hslot
  exact ⟨y, z, c, slot, limit, hxy, hready, hyz, hc, hp, hcap,
    (hcallers c (List.mem_of_getElem? hc)).2 slot hp, hruns, hsize⟩

end Station

end StatementLog
