import StatementLog.Proofs.Node.Calls
import StatementLog.Proofs.Runner.Termination

/-!
A node at work: it starts, its runner goes through its life, and callers come at any time, each
with one call that goes on step by step. Others write to the log and reach the broker meanwhile.
-/

namespace StatementLog

variable {μ κ ε : Type}

/-- The phase in which the runner is while its node starts. -/
def Starting.phase : Starting → Phase
  | .replaying stage => .replaying stage
  | .opening replayed | .launching replayed => .replayed (.ok (.completed replayed))
  | .refusing error => .replayed (.ok (.terminated error))
  | _ => .replaying .starting

def Starting.last (stage : Starting) (result : Except Error ReplayOutcome) : Phase :=
  match stage with
  | .replaying _ => .replayed result
  | stage => stage.phase

def Submitting.appended? : Submitting → Option Nat
  | .appending _ (.announcing offset) => some offset
  | _ => none

def Activity.submission? : Activity → Option Submitting
  | .submitting stage => some stage
  | .executing (.submitting stage _) => some stage
  | .terminating (.submitting stage) => some stage
  | _ => none

def Activity.appended? (a : Activity) : Option Nat :=
  a.submission?.bind Submitting.appended?

inductive Progress where
  | busy (activity : Activity)
  | answered (reply : Reply)

def Progress.activity? : Progress → Option Activity
  | busy activity => some activity
  | answered _ => none

/-- A call, how far it has come, and the offset at which its record stands, once it is written. -/
structure Caller where
  call : Activity
  progress : Progress
  offset : Option Nat := none

def Caller.ofCall (call : Activity) : Caller :=
  { call, progress := .busy call }

def Caller.goOn (c : Caller) (activity : Activity) : Caller :=
  { c with progress := .busy activity, offset := c.offset.or activity.appended? }

def Caller.answer (c : Caller) (reply : Reply) : Caller :=
  { c with progress := .answered reply }

structure Station (μ κ ε : Type) where
  life : Lifetime μ κ ε
  start : Option Starting
  callers : List Caller := []

namespace Station

def site (x : Station μ κ ε) : Site μ κ ε :=
  x.life.site

def move (x : Station μ κ ε) (s : Site μ κ ε) : Station μ κ ε :=
  { x with life := { x.life with site := s } }

def accept (x : Station μ κ ε) (call : Activity) : Station μ κ ε :=
  { x with callers := x.callers ++ [.ofCall call] }

def put (x : Station μ κ ε) (s : Site μ κ ε) (i : Nat) (c : Caller) : Station μ κ ε :=
  { x.move s with callers := x.callers.set i c }

variable [CommandLog μ κ] [Executor ε]

def advance? (x : Station μ κ ε) : Option (Station μ κ ε) :=
  match x.start with
  | none => x.life.advance?.map fun life => { x with life }
  | some stage =>
    match stage.step x.life.task x.site with
    | .wait => none
    | .next s stage' => some { x with life := x.life.take s stage'.phase, start := some stage' }
    | .done s result => some { x with life := x.life.take s (stage.last result), start := none }

def serve? (x : Station μ κ ε) (i : Nat) : Option (Station μ κ ε) := do
  let c ← x.callers[i]?
  match (← c.progress.activity?).step i x.site with
  | .wait => none
  | .next s activity => return x.put s i (c.goOn activity)
  | .done s reply => return x.put s i (c.answer reply)

variable [LawfulLog μ]

inductive Step : Station μ κ ε → Station μ κ ε → Prop where
  | own {x y : Station μ κ ε} : x.advance? = some y → LawfulLog.size y.site.log ≤ Word.max →
      Step x y
  | call {x : Station μ κ ε} {call : Activity} : call.IsCall → Step x (x.accept call)
  | serve {x y : Station μ κ ε} (i : Nat) : x.serve? i = some y →
      LawfulLog.size y.site.log ≤ Word.max → Step x y
  | abroad {x : Station μ κ ε} {s : Site μ κ ε} : x.site.Abroad s → Step x (x.move s)

def Reaches : Station μ κ ε → Station μ κ ε → Prop :=
  Relation.ReflTransGen Step

omit [LawfulLog μ] in
theorem serve?_cases {x y : Station μ κ ε} {i : Nat} (h : x.serve? i = some y) :
    ∃ c a, x.callers[i]? = some c ∧ c.progress = .busy a ∧
      ((∃ s a', a.step i x.site = .next s a' ∧ y = x.put s i (c.goOn a')) ∨
        ∃ s reply, a.step i x.site = .done s reply ∧ y = x.put s i (c.answer reply)) := by
  obtain ⟨c, hc, h⟩ := Option.bind_eq_some_iff.1 h
  obtain ⟨a, ha, h⟩ := Option.bind_eq_some_iff.1 h
  refine ⟨c, a, hc, ?_, ?_⟩
  · cases hp : c.progress with
    | busy a' =>
      rw [hp] at ha
      cases ha
      rfl
    | answered reply =>
      rw [hp] at ha
      cases ha
  · cases hm : a.step i x.site with
    | wait =>
      rw [hm] at h
      cases h
    | next s a' =>
      rw [hm] at h
      cases h
      exact .inl ⟨s, a', rfl, rfl⟩
    | done s reply =>
      rw [hm] at h
      cases h
      exact .inr ⟨s, reply, rfl, rfl⟩

end Station

namespace Starting

variable [CommandLog μ κ] [LawfulLog μ] [WritableLog μ] [Executor ε] {s s' : Site μ κ ε}
  {stage stage' : Starting}

theorem step_bears (hr : ∀ replaying, stage ≠ .replaying replaying) (ho : ∀ n, stage ≠ .opening n)
    (task : Nat) : (stage.step task s).Holds s.Bears := by
  cases stage with
  | checking parts =>
    rw [step]
    split
    · exact .rfl
    · split <;> exact .rfl
  | probing broker =>
    have hs := s.endPosition_bears
    rcases he : s.endPosition with ⟨r, s'⟩
    rw [he] at hs
    rw [step, he]
    cases r with
    | error e => exact hs
    | ok n =>
      simp only
      split <;> exact hs
  | provisioning broker =>
    rw [step]
    split
    · exact .rfl
    · split <;> exact .rfl
  | creatingTopic =>
    rw [step]
    split
    · exact .rfl
    · exact .of_node rfl rfl rfl rfl id (.none _)
  | enqueuing stage =>
    refine (stage.step_bears).within fun s' r h => ?_
    cases r <;> exact h
  | replaying stage => exact absurd rfl (hr stage)
  | opening n => exact absurd rfl (ho n)
  | launching n => exact .of_node rfl rfl rfl rfl id (.none _)
  | refusing error =>
    exact fun hb => ⟨⟨.refl hb, rfl, rfl, rfl, rfl, rfl, rfl, rfl, id⟩, id, .close _⟩

omit [LawfulLog μ] [WritableLog μ] in
theorem phase_next (hr : ∀ replaying, stage ≠ .replaying replaying) {task : Nat}
    (h : stage.step task s = .next s' stage') : stage'.phase = stage.phase := by
  cases stage with
  | checking parts =>
    rw [step] at h
    split at h
    · cases h
    · split at h <;> cases h <;> rfl
  | probing broker =>
    rw [step] at h
    split at h
    · cases h
    · split at h <;> cases h <;> rfl
  | provisioning broker =>
    rw [step] at h
    split at h
    · cases h
      rfl
    · split at h <;> cases h <;> rfl
  | creatingTopic =>
    rw [step] at h
    split at h <;> cases h <;> rfl
  | enqueuing stage =>
    rcases Move.within_next h with ⟨stage', -, rfl⟩ | ⟨s', r, -, h⟩
    · rfl
    · cases r <;> cases h
      rfl
  | replaying stage => exact absurd rfl (hr stage)
  | opening n =>
    cases h
    rfl
  | launching n => cases h
  | refusing error => cases h

theorem phase_rests (hr : ∀ replaying, stage ≠ .replaying replaying) :
    stage.phase.limit? = none ∧ stage.phase.attempt? = none ∧
      ∀ result, stage.last result = stage.phase := by
  cases stage with
  | replaying stage => exact absurd rfl (hr stage)
  | _ => exact ⟨rfl, rfl, fun _ => rfl⟩

end Starting

namespace Lifetime

variable [Executor ε] {x : Lifetime μ κ ε}

theorem take_phase (ha : x.phase.attempt? = none) (hl : x.phase.limit? = none) (s : Site μ κ ε) :
    x.take s x.phase = { x with site := s } := by
  have hx : x.attempt? = none := by
    cases h : x.attempt? with
    | none => rfl
    | some a =>
      rw [phase_attempt? h] at ha
      cases ha
  rw [take, hx, hl]
  simp

end Lifetime

namespace Station

variable [CommandLog μ κ] [LawfulLog μ] [WritableLog μ] [Executor ε] {x y : Station μ κ ε}

def Synchronous (x : Station μ κ ε) : Prop :=
  ∀ stage, x.start = some stage → x.life.phase = stage.phase

omit [CommandLog μ κ] [LawfulLog μ] [WritableLog μ] [Executor ε] in
theorem Synchronous.of_none (h : x.start = none) : x.Synchronous := by
  intro stage hs
  rw [h] at hs
  cases hs

omit [CommandLog μ κ] [LawfulLog μ] [WritableLog μ] [Executor ε] in
theorem Synchronous.of_some {stage : Starting} (h : x.start = some stage)
    (hp : x.life.phase = stage.phase) : x.Synchronous := by
  intro stage' hs
  cases h.symm.trans hs
  exact hp

omit [LawfulLog μ] [WritableLog μ] in
theorem replaying_advance {stage : Replaying} (hs : x.start = some (.replaying stage))
    (hp : x.life.phase = .replaying stage) (h : x.advance? = some y) :
    y.callers = x.callers ∧ y.Synchronous ∧ x.life.advance? = some y.life := by
  rw [advance?, hs] at h
  rw [Lifetime.advance?, hp]
  simp only [Starting.step] at h ⊢
  cases hm : stage.step x.life.task x.site with
  | wait =>
    rw [hm] at h
    cases h
  | next s stage' =>
    rw [hm] at h
    cases h
    have hm : stage.step x.life.task x.life.site = .next s stage' := hm
    rw [hm]
    exact ⟨rfl, .of_some rfl rfl, rfl⟩
  | done s r =>
    rw [hm] at h
    have hm : stage.step x.life.task x.life.site = .done s r := hm
    rw [hm]
    rcases r with e | ⟨n⟩ | e | _
    · cases h
      exact ⟨rfl, .of_none rfl, rfl⟩
    · cases h
      exact ⟨rfl, .of_some rfl rfl, rfl⟩
    · cases h
      exact ⟨rfl, .of_some rfl rfl, rfl⟩
    · cases h
      exact ⟨rfl, .of_none rfl, rfl⟩

omit [LawfulLog μ] [WritableLog μ] in
theorem starting_advance {stage : Starting} (hs : x.start = some stage)
    (hp : x.life.phase = stage.phase) (hr : ∀ replaying, stage ≠ .replaying replaying)
    (h : x.advance? = some y) :
    y.callers = x.callers ∧ y.Synchronous ∧ y.life = { x.life with site := y.site } ∧
      ∃ task, (∃ stage', stage.step task x.site = .next y.site stage') ∨
        ∃ result, stage.step task x.site = .done y.site result := by
  obtain ⟨hlimit, hattempt, hlast⟩ := Starting.phase_rests hr
  rw [← hp] at hlimit hattempt
  have htake := x.life.take_phase hattempt hlimit
  rw [advance?, hs] at h
  simp only at h
  cases hm : stage.step x.life.task x.site with
  | wait =>
    rw [hm] at h
    cases h
  | next s stage' =>
    rw [hm] at h
    cases h
    have hp' : stage'.phase = x.life.phase := (Starting.phase_next hr hm).trans hp.symm
    rw [hp', htake]
    exact ⟨rfl, .of_some rfl hp'.symm, rfl, _, .inl ⟨stage', hm⟩⟩
  | done s r =>
    rw [hm] at h
    cases h
    rw [hlast, ← hp, htake]
    exact ⟨rfl, .of_none rfl, rfl, _, .inr ⟨r, hm⟩⟩

theorem advance?_cases (hsync : x.Synchronous) (h : x.advance? = some y) :
    y.callers = x.callers ∧ y.Synchronous ∧
      (x.life.advance? = some y.life ∨
        (y.life = { x.life with site := y.site } ∧
          (x.site.Bears y.site ∨ (∃ n, x.life.phase = .replayed (.ok (.completed n))) ∧
            y.site = x.site.mapNode Node.markReady))) := by
  cases hs : x.start with
  | none =>
    rw [advance?, hs] at h
    obtain ⟨life, hl, rfl⟩ := Option.map_eq_some_iff.1 h
    exact ⟨rfl, .of_none rfl, .inl hl⟩
  | some stage =>
    by_cases hr : ∃ replaying, stage = .replaying replaying
    · obtain ⟨replaying, rfl⟩ := hr
      obtain ⟨hc, hy, hl⟩ := replaying_advance hs (hsync _ hs) h
      exact ⟨hc, hy, .inl hl⟩
    · have hr (replaying : Replaying) : stage ≠ .replaying replaying := fun he => hr ⟨_, he⟩
      obtain ⟨hc, hy, hl, task, hm⟩ := starting_advance hs (hsync _ hs) hr h
      refine ⟨hc, hy, .inr ⟨hl, ?_⟩⟩
      by_cases ho : ∃ n, stage = .opening n
      · obtain ⟨n, rfl⟩ := ho
        refine .inr ⟨⟨n, hsync _ hs⟩, ?_⟩
        rcases hm with ⟨stage', hm⟩ | ⟨r, hm⟩
        · injection hm with hm
          exact hm.symm
        · cases hm
      · have hb := Starting.step_bears (s := x.site) hr (fun n he => ho ⟨n, he⟩) task
        rcases hm with ⟨stage', hm⟩ | ⟨r, hm⟩
        · rw [hm] at hb
          exact .inl hb
        · rw [hm] at hb
          exact .inl hb

omit [LawfulLog μ] [WritableLog μ] in
theorem started_advance (hs : x.start = none) (h : x.advance? = some y) :
    x.life.advance? = some y.life ∧ y.start = none ∧ y.callers = x.callers := by
  rw [advance?, hs] at h
  obtain ⟨life, hl, rfl⟩ := Option.map_eq_some_iff.1 h
  exact ⟨hl, rfl, rfl⟩

omit [LawfulLog μ] [WritableLog μ] in
theorem starting_leads {stage : Starting} {good : Site μ κ ε → Option Starting → Prop}
    (hs : x.start = some stage) (hm : (stage.step x.life.task x.site).Leads good)
    (h : x.advance? = some y) : good y.site y.start ∧ y.callers = x.callers := by
  rw [advance?, hs] at h
  simp only at h
  cases hstep : stage.step x.life.task x.site with
  | wait =>
    rw [hstep] at h
    cases h
  | next s stage' | done s r =>
    rw [hstep] at h hm
    cases h
    exact ⟨hm, rfl⟩

structure Fresh (x : Station μ κ ε) : Prop where
  life : ∃ task, x.life = .ofSite task x.site
  site : x.site.Fresh
  ready : x.site.node.queue.ready = false
  tracker : ∃ capacity, x.site.tracker = .ofCapacity capacity
  start : ∃ parts, x.start = some (.checking parts)
  callers : x.callers = []

structure Sound (x : Station μ κ ε) : Prop where
  synchronous : x.Synchronous
  calls : ∀ c ∈ x.callers, ∀ a, c.progress = .busy a → a.Calls

omit [WritableLog μ] [Executor ε] in
theorem Fresh.sound (h : x.Fresh) : x.Sound := by
  obtain ⟨task, hl⟩ := h.life
  obtain ⟨parts, hs⟩ := h.start
  refine ⟨.of_some hs ?_, ?_⟩
  · rw [hl]
    rfl
  · rw [h.callers]
    exact fun c hc => nomatch hc

omit [WritableLog μ] [Executor ε] in
theorem drift_markReady {s : Site μ κ ε} (hb : LawfulLog.size s.log ≤ Word.max) :
    s.Drift (s.mapNode Node.markReady) :=
  ⟨.refl hb, rfl, rfl, rfl, rfl, rfl, rfl, rfl, id⟩

theorem serve?_bears {i : Nat} (hx : x.Sound) (h : x.serve? i = some y) :
    ∃ c c', x.callers[i]? = some c ∧ y.callers = x.callers.set i c' ∧ c'.call = c.call ∧
      y.life = { x.life with site := y.site } ∧ y.start = x.start ∧ x.site.Bears y.site ∧
      ∃ a, c.progress = .busy a ∧
        ((∃ a', a.step i x.site = .next y.site a' ∧ c' = c.goOn a' ∧ a'.Calls) ∨
          ∃ reply, a.step i x.site = .done y.site reply ∧ c' = c.answer reply) := by
  obtain ⟨c, a, hc, ha, hstep⟩ := serve?_cases h
  have hcall := hx.calls c (List.mem_of_getElem? hc) a ha
  have hb := a.step_bears hcall (s := x.site) i
  rcases hstep with ⟨s, a', hm, rfl⟩ | ⟨s, reply, hm, rfl⟩
  · rw [hm] at hb
    exact ⟨c, _, hc, rfl, rfl, rfl, rfl, hb, a, ha,
      .inl ⟨a', hm, rfl, Activity.calls_next hcall hm⟩⟩
  · rw [hm] at hb
    exact ⟨c, _, hc, rfl, rfl, rfl, rfl, hb, a, ha, .inr ⟨reply, hm, rfl⟩⟩

theorem Sound.step (hx : x.Sound) (h : Step x y) : y.Sound := by
  cases h with
  | own h _ =>
    obtain ⟨hc, hs, -⟩ := advance?_cases hx.synchronous h
    refine ⟨hs, ?_⟩
    rw [hc]
    exact hx.calls
  | @call call h =>
    refine ⟨hx.synchronous, ?_⟩
    intro c hc a ha
    rcases List.mem_append.1 hc with hc | hc
    · exact hx.calls c hc a ha
    · cases List.mem_singleton.1 hc
      cases ha
      exact h.calls
  | serve i h _ =>
    obtain ⟨c, c', -, hcs, -, hl, hs, -, a, -, hc'⟩ := serve?_bears hx h
    refine ⟨?_, ?_⟩
    · intro stage hstage
      rw [hl]
      exact hx.synchronous stage (hs.symm.trans hstage)
    · rw [hcs]
      intro d hd a' ha'
      rcases List.mem_or_eq_of_mem_set hd with hd | rfl
      · exact hx.calls d hd a' ha'
      · rcases hc' with ⟨a'', -, rfl, hcall⟩ | ⟨reply, -, rfl⟩
        · cases ha'
          exact hcall
        · cases ha'
  | abroad h => exact ⟨hx.synchronous, hx.calls⟩

theorem life_step (hx : x.Sound) (h : Step x y) :
    y.life = x.life ∨ Lifetime.Step Site.Drift x.life y.life := by
  have hbears (hl : y.life = { x.life with site := y.site }) (hb : x.site.Drift y.site) :
      Lifetime.Step Site.Drift x.life y.life := by
    rw [hl]
    exact .change hb
  cases h with
  | own h hb =>
    obtain ⟨-, -, hl | ⟨hl, hs | ⟨-, hs⟩⟩⟩ := advance?_cases hx.synchronous h
    · exact .inr (.act hl)
    · exact .inr (hbears hl (hs hb).toDrift)
    · rw [hs] at hb
      refine .inr (hbears hl ?_)
      rw [hs]
      exact drift_markReady hb
  | call _ => exact .inl rfl
  | serve i h hb =>
    obtain ⟨-, -, -, -, -, hl, -, hs, -⟩ := serve?_bears hx h
    exact .inr (hbears hl (hs hb).toDrift)
  | abroad h => exact .inr (.change h.toDrift)

theorem life_reaches (hx : x.Sound) (h : Reaches x y) :
    y.Sound ∧ Lifetime.Reaches Site.Drift x.life y.life := by
  induction h with
  | refl => exact ⟨hx, .refl⟩
  | tail _ hs ih =>
    refine ⟨ih.1.step hs, ?_⟩
    rcases life_step ih.1 hs with he | hs
    · rw [he]
      exact ih.2
    · exact ih.2.tail hs

omit [WritableLog μ] [Executor ε] in
theorem Fresh.fate (h : x.Fresh) : x.life.Fate := by
  obtain ⟨task, hl⟩ := h.life
  rw [hl]
  exact Lifetime.ofSite_fate h.site task

omit [WritableLog μ] in
def advances? : Nat → Station μ κ ε → Option (Station μ κ ε)
  | 0, x => some x
  | n + 1, x => x.advance?.bind fun y =>
    if LawfulLog.size y.site.log ≤ Word.max then advances? n y else none

omit [WritableLog μ] in
theorem advances?_run {r : Station μ κ ε → Station μ κ ε → Prop}
    (hr : ∀ {x y : Station μ κ ε}, x.advance? = some y → LawfulLog.size y.site.log ≤ Word.max → r x y)
    {n : Nat} (h : advances? n x = some y) : Relation.ReflTransGen r x y := by
  induction n generalizing x with
  | zero =>
    cases h
    exact .refl
  | succ n ih =>
    obtain ⟨z, hz, hy⟩ := Option.bind_eq_some_iff.1 h
    split at hy
    · next hb => exact .head (hr hz hb) (ih hy)
    · cases hy

omit [WritableLog μ] in
theorem advances?_reaches {n : Nat} (h : advances? n x = some y) : Reaches x y :=
  advances?_run .own h

end Station

namespace Station

variable [Executor ε]

def onTape (lines : List (List Char)) (broker : Broker) (executor : ε) :
    Station Tape TapeClient ε where
  life := .ofSite 0 (Lifetime.onTape lines broker executor)
  start := some (.checking {})

omit [Executor ε] in
theorem onTape_fresh {lines : List (List Char)} (h : lines.length ≤ Word.max) (broker : Broker)
    (executor : ε) : (onTape lines broker executor).Fresh :=
  ⟨⟨0, rfl⟩, Lifetime.onTape_fresh h broker executor, rfl, ⟨1, rfl⟩, ⟨{}, rfl⟩, rfl⟩

def grown (x : Station Tape TapeClient ε) (lines : List (List Char)) : Station Tape TapeClient ε :=
  { x with life := x.life.grown lines }

theorem reaches_grown {x : Station Tape TapeClient ε} {lines : List (List Char)}
    (h : x.site.log.lines.length + lines.length ≤ Word.max) : Reaches x (x.grown lines) :=
  .single (.abroad ⟨Lifetime.drift_grown h, id, rfl⟩)

end Station

end StatementLog
