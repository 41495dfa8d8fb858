import Mathlib.Logic.Function.Iterate
import Mathlib.Logic.Relation
import StatementLog.Proofs.Runner.Answers
import StatementLog.Script

namespace StatementLog

variable {μ κ ε : Type}

structure Trial (μ κ ε : Type) where
  site : Site μ κ ε
  attempt : Applying
  slept : List (Failure × Nat) := []
  /-- The last answer and when it came, unless it has been slept after. -/
  latest : Option (Except Failure Effect × Nat) := none
  published : List (Slot × Status) := []
  outcome : Option Conclusion := none

/-- What may go on around an attempt: nobody tells the runner to stop, and no sleep lasts longer
than it was asked to. -/
structure Site.Awaits (s : Site μ κ ε) (a : Applying) (s' : Site μ κ ε) : Prop where
  policy : s'.node.runner.policy = s.node.runner.policy
  stop : s'.node.runner.stopRequested = s.node.runner.stopRequested
  clock : s.now ≤ s'.now ∧ ∀ wake, a.stage = .pausing wake → s'.now ≤ wake

namespace Trial

def refusal (e : Failure × Nat) : Except Failure Effect :=
  .error e.1

def answers (x : Trial μ κ ε) : List (Except Failure Effect) :=
  x.slept.map refusal ++ (x.latest.map Prod.fst).toList

def naps (x : Trial μ κ ε) (kind : FailureKind) : List Nat :=
  (x.slept.filter fun e => e.1.kind = kind).map Prod.snd

def begun (s : Site μ κ ε) (command : Command) (mode : Mode) : Trial μ κ ε where
  site := s
  attempt := { command, mode }

section

variable [Executor ε]

def note (x : Trial μ κ ε) : Trial μ κ ε :=
  match x.attempt.stage, x.latest with
  | .trying, _ => { x with latest := some ((x.attempt.attempt x.site).1, x.site.now) }
  | .pausing _, some (.error f, since) =>
    { x with slept := x.slept ++ [(f, x.site.now - since)], latest := none }
  | _, _ => { x with published := x.published ++ x.attempt.publication?.toList }

def advance? (x : Trial μ κ ε) : Option (Trial μ κ ε) :=
  match x.outcome, x.attempt.step x.site with
  | none, .next site attempt => some { x.note with site, attempt }
  | none, .done site conclusion => some { x.note with site, outcome := some conclusion }
  | _, _ => none

def forth (x : Trial μ κ ε) : Trial μ κ ε :=
  x.advance?.getD
    { x with site := { x.site with now := x.attempt.alarm.getD x.site.now } }

inductive Step (x : Trial μ κ ε) : Trial μ κ ε → Prop where
  | act {y : Trial μ κ ε} : x.advance? = some y → Step x y
  | change {s : Site μ κ ε} : x.site.Awaits x.attempt s → Step x { x with site := s }

def Reaches : Trial μ κ ε → Trial μ κ ε → Prop :=
  Relation.ReflTransGen Step

theorem advance?_of_next {x : Trial μ κ ε} {s : Site μ κ ε} {a : Applying}
    (ho : x.outcome = none) (h : x.attempt.step x.site = .next s a) :
    x.advance? = some { x.note with site := s, attempt := a } := by
  rw [advance?, ho, h]

theorem advance?_of_done {x : Trial μ κ ε} {s : Site μ κ ε} {c : Conclusion}
    (ho : x.outcome = none) (h : x.attempt.step x.site = .done s c) :
    x.advance? = some { x.note with site := s, outcome := some c } := by
  rw [advance?, ho, h]

theorem advance?_of_wait {x : Trial μ κ ε} (h : x.attempt.step x.site = .wait) :
    x.advance? = none := by
  rw [advance?, h]
  cases x.outcome <;> rfl

theorem forth_of_some {x y : Trial μ κ ε} (h : x.advance? = some y) : x.forth = y := by
  rw [forth, h, Option.getD_some]

end

/-- Every sleep is that of the policy after so many failures of its kind; no other kind counts. -/
def Paced (p : RetryPolicy) (slept : List (Failure × Nat)) : Prop :=
  ∀ before f d, before ++ [(f, d)] <+: slept →
    d = p.pause f.kind (failures f.kind (before.map refusal) + 1)

theorem Paced.concat {p : RetryPolicy} {slept : List (Failure × Nat)} (h : Paced p slept)
    (f : Failure) :
    Paced p (slept ++ [(f, p.pause f.kind (failures f.kind (slept.map refusal) + 1))]) := by
  intro before g d hp
  rcases List.prefix_concat_iff.1 hp with he | hp
  · obtain ⟨rfl, he⟩ := List.append_inj' he rfl
    cases he
    rfl
  · exact h before g d hp

theorem Paced.naps_eq {p : RetryPolicy} {slept : List (Failure × Nat)} (h : Paced p slept)
    (kind : FailureKind) : (slept.filter fun e => e.1.kind = kind).map Prod.snd =
      (List.range (failures kind (slept.map refusal))).map fun i => p.pause kind (i + 1) := by
  induction slept using List.reverseRecOn with
  | nil => rfl
  | append_singleton slept e ih =>
    obtain ⟨f, d⟩ := e
    have ih := ih fun before g d hp => h before g d (hp.trans (List.prefix_append ..))
    have hd := h slept f d (List.prefix_refl _)
    rw [List.filter_append, List.map_append, List.map_append, ih, List.map_singleton,
      failures_concat]
    by_cases hk : f.kind = kind
    · subst hk
      simp [refusal, isFailure, List.range_succ, hd]
    · simp [refusal, isFailure, hk]

structure Decided (p : RetryPolicy) (x : Trial μ κ ε) (status : Status) (c : Conclusion) :
    Prop where
  settles : p.Settles x.answers
  last : ∃ r since, x.latest = some (r, since) ∧ c = .ofAnswer r ∧
    status = .ofAnswer (failures .transient x.answers) r

inductive Stands (p : RetryPolicy) (x : Trial μ κ ε) : AttemptStage → Option Conclusion → Prop where
  | announcing : x.latest = none → x.published = [] → Stands p x .announcing none
  | trying : x.latest = none → x.published = [(x.attempt.slot, .executing)] →
      Stands p x .trying none
  | pausing {f : Failure} {since wake : Nat} : x.latest = some (.error f, since) →
      ¬ p.Settles x.answers → x.published = [(x.attempt.slot, .executing)] →
      wake = since + p.pause f.kind (failures f.kind x.answers) → x.site.now ≤ wake →
      Stands p x (.pausing wake) none
  | reporting {status : Status} {c : Conclusion} : x.Decided p status c →
      x.published = [(x.attempt.slot, .executing)] → Stands p x (.reporting status c) none
  | advancing {status : Status} {c : Conclusion} : x.Decided p status c →
      x.published = [(x.attempt.slot, .executing), (x.attempt.slot, status)] →
      Stands p x (.advancing c) none
  | ended {status : Status} {c : Conclusion} : x.Decided p status c →
      x.published = [(x.attempt.slot, .executing), (x.attempt.slot, status)] →
      Stands p x (.advancing c) (some c)

structure Sound (p : RetryPolicy) (slot : Slot) (x : Trial μ κ ε) : Prop where
  policy : x.site.node.runner.policy = p
  stop : x.site.node.runner.stopRequested = false
  slot : x.attempt.slot = slot
  counts : x.attempt.Counts x.answers
  unsettled : ∀ rs, rs <+: x.slept.map refusal → ¬ p.Settles rs
  paced : Paced p x.slept
  stands : x.Stands p x.attempt.stage x.outcome

theorem begun_sound {s : Site μ κ ε} (h : s.node.runner.stopRequested = false) (command : Command)
    (mode : Mode) :
    (begun s command mode).Sound s.node.runner.policy ⟨command.id, command.offset⟩ where
  policy := rfl
  stop := h
  slot := rfl
  counts := ⟨rfl, rfl⟩
  unsettled := by
    intro rs hrs
    rw [List.prefix_nil.1 hrs]
    exact RetryPolicy.not_settles_nil _
  paced := by
    intro before f d hp
    exact absurd (List.prefix_nil.1 hp) (by simp)
  stands := .announcing rfl rfl

section

variable [Executor ε] {p : RetryPolicy} {slot : Slot} {x : Trial μ κ ε}

theorem Sound.announcing (h : x.Sound p slot) (ht : x.attempt.stage = .announcing) :
    ∃ y, x.advance? = some y ∧ y.Sound p slot ∧ y.attempt.stage = .trying ∧
      y.answers = x.answers := by
  obtain ⟨policy, stop, slot_eq, counts, unsettled, paced, stands⟩ := h
  rw [ht] at stands
  generalize ho : x.outcome = outcome at stands
  cases stands with
  | announcing hl hp =>
    have hs : x.attempt.step x.site = .next (x.site.publish x.attempt.slot .executing)
        { x.attempt with stage := .trying } := by
      rw [Applying.step, ht]
    have hn : x.note = { x with published := [(x.attempt.slot, .executing)] } := by
      simp only [note, ht, Applying.publication?, hp]
      rfl
    refine ⟨_, advance?_of_next ho hs, ?_, rfl, ?_⟩ <;> rw [hn]
    · refine ⟨policy, stop, slot_eq, counts.staged _, unsettled, paced, ?_⟩
      rw [ho]
      exact .trying hl rfl
    · rfl

def answered (x : Trial μ κ ε) (r : Except Failure Effect) (site : Site μ κ ε)
    (attempt : Applying) : Trial μ κ ε :=
  { x with site, attempt, latest := some (r, x.site.now) }

omit [Executor ε] in
theorem answers_answered (hl : x.latest = none) (r : Except Failure Effect) (site : Site μ κ ε)
    (attempt : Applying) : (x.answered r site attempt).answers = x.answers ++ [r] := by
  simp [answers, answered, hl]

theorem advance?_trying (ht : x.attempt.stage = .trying) (ho : x.outcome = none)
    {s : Site μ κ ε} {a : Applying} (h : x.attempt.step x.site = .next s a) :
    x.advance? = some (x.answered (x.attempt.attempt x.site).1 s a) := by
  have hn : x.note = { x with latest := some ((x.attempt.attempt x.site).1, x.site.now) } := by
    simp only [note, ht]
  rw [advance?_of_next ho h, hn]
  rfl

omit [Executor ε] in
theorem Sound.at_trying (h : x.Sound p slot) (ht : x.attempt.stage = .trying) :
    x.outcome = none ∧ x.latest = none ∧ x.published = [(x.attempt.slot, .executing)] := by
  have hstands := h.stands
  rw [ht] at hstands
  generalize x.outcome = outcome at hstands
  cases hstands with
  | trying hl hp => exact ⟨rfl, hl, hp⟩

omit [Executor ε] in
theorem Sound.answered (h : x.Sound p slot) (hl : x.latest = none) {r : Except Failure Effect}
    {s : Site μ κ ε} {a : Applying} (hs : s.node.runner.policy = x.site.node.runner.policy ∧
      s.node.runner.stopRequested = x.site.node.runner.stopRequested)
    (hslot : a.slot = x.attempt.slot) (hcounts : a.Counts (x.answers ++ [r]))
    (hstands : (x.answered r s a).Stands p a.stage x.outcome) :
    (x.answered r s a).Sound p slot where
  policy := hs.1.trans h.policy
  stop := hs.2.trans h.stop
  slot := hslot.trans h.slot
  counts := by
    rw [answers_answered hl]
    exact hcounts
  unsettled := h.unsettled
  paced := h.paced
  stands := hstands

theorem Sound.trying_ok (h : x.Sound p slot) (ht : x.attempt.stage = .trying) {effect : Effect}
    (hr : (x.attempt.attempt x.site).1 = .ok effect) :
    ∃ y, x.advance? = some y ∧ y.Sound p slot ∧ y.answers = x.answers ++ [.ok effect] := by
  obtain ⟨ho, hl, hp⟩ := h.at_trying ht
  have hy := advance?_trying ht ho (Applying.step_of_ok ht hr)
  rw [hr] at hy
  refine ⟨_, hy, h.answered hl ⟨rfl, rfl⟩ rfl ((h.counts.ok effect).staged _) ?_,
    answers_answered hl ..⟩
  refine ho ▸ .reporting ⟨?_, .ok effect, _, rfl, rfl, rfl⟩ hp
  rw [answers_answered hl]
  exact p.settles_concat_ok _ effect

theorem Sound.trying_error (h : x.Sound p slot) (ht : x.attempt.stage = .trying) {f : Failure}
    (hr : (x.attempt.attempt x.site).1 = .error f) :
    ∃ y, x.advance? = some y ∧ y.Sound p slot ∧ y.answers = x.answers ++ [.error f] := by
  obtain ⟨ho, hl, hp⟩ := h.at_trying ht
  have hslot : (x.attempt.count f.kind).slot = x.attempt.slot := by
    rw [Applying.slot, Applying.count_command]
    rfl
  rw [← hslot] at hp
  have hcounts := h.counts.error f
  have hle : failures .transient x.answers ≤ p.maxRetries := by
    rw [answers, hl]
    exact RetryPolicy.failures_le_of_unsettled (by simpa using h.unsettled)
  by_cases hg : (x.attempt.count f.kind).GivesUp p f
  · have hy := advance?_trying ht ho (Applying.step_of_givesUp ht hr (h.policy ▸ hg))
    rw [hr] at hy
    refine ⟨_, hy, h.answered hl ⟨rfl, rfl⟩ hslot (hcounts.staged _) ?_, answers_answered hl ..⟩
    refine ho ▸ .reporting ⟨?_, .error f, _, rfl, rfl, ?_⟩ hp
    · rw [answers_answered hl]
      exact (h.counts.givesUp_iff hle f).1 hg
    · rw [answers_answered hl, Status.ofAnswer, ← hcounts.transient]
      rfl
  · obtain ⟨state, hs⟩ := Applying.step_of_not_givesUp ht hr (h.policy ▸ hg)
    rw [h.policy, hcounts.pause_attempts] at hs
    have hy := advance?_trying ht ho hs
    rw [hr] at hy
    refine ⟨_, hy, h.answered hl ⟨rfl, rfl⟩ hslot (hcounts.staged _) ?_, answers_answered hl ..⟩
    refine ho ▸ .pausing rfl ?_ hp ?_ (Nat.le_add_right ..)
    · rw [answers_answered hl, ← h.counts.givesUp_iff hle]
      exact hg
    · rw [answers_answered hl]

theorem Sound.trying (h : x.Sound p slot) (ht : x.attempt.stage = .trying) :
    ∃ y, x.advance? = some y ∧ y.Sound p slot ∧ ∃ r, y.answers = x.answers ++ [r] := by
  cases hr : (x.attempt.attempt x.site).1 with
  | ok effect =>
    obtain ⟨y, hy, hs, ha⟩ := h.trying_ok ht hr
    exact ⟨y, hy, hs, _, ha⟩
  | error f =>
    obtain ⟨y, hy, hs, ha⟩ := h.trying_error ht hr
    exact ⟨y, hy, hs, _, ha⟩

def rested (x : Trial μ κ ε) (f : Failure) (nap : Nat) : Trial μ κ ε :=
  { x with
    attempt := { x.attempt with stage := .trying }
    slept := x.slept ++ [(f, nap)]
    latest := none }

omit [Executor ε] in
theorem answers_of_latest {r : Except Failure Effect} {since : Nat}
    (hl : x.latest = some (r, since)) : x.answers = x.slept.map refusal ++ [r] := by
  rw [answers, hl]
  rfl

omit [Executor ε] in
theorem answers_rested {f : Failure} {since : Nat} (hl : x.latest = some (.error f, since))
    (nap : Nat) : (x.slept ++ [(f, nap)]).map refusal = x.answers ∧
      (x.rested f nap).answers = x.answers := by
  have hslept : (x.slept ++ [(f, nap)]).map refusal = x.answers := by
    rw [answers_of_latest hl, List.map_append]
    rfl
  exact ⟨hslept, (List.append_nil _).trans hslept⟩

theorem Sound.pausing (h : x.Sound p slot) {wake : Nat} (ht : x.attempt.stage = .pausing wake) :
    (x.advance? = none ∧ x.site.now < wake) ∨
    ∃ y, x.advance? = some y ∧ y.Sound p slot ∧ y.attempt.stage = .trying ∧
      y.answers = x.answers := by
  obtain ⟨policy, stop, slot_eq, counts, unsettled, paced, stands⟩ := h
  rw [ht] at stands
  generalize ho : x.outcome = outcome at stands
  cases stands with
  | @pausing f since _ hl hsettles hp hwake hnow =>
    rcases Applying.pausing_cases ht x.site with ⟨hstop, -⟩ | ⟨-, hle, he⟩ | ⟨-, hlt, he⟩
    · rw [stop] at hstop
      cases hstop
    · right
      have hx := answers_of_latest hl
      -- it wakes no earlier than it asked for, and no sleep is longer
      have hnap : x.site.now - since =
          p.pause f.kind (failures f.kind (x.slept.map refusal) + 1) := by
        rw [hx, failures_concat] at hwake
        simp only [isFailure, decide_true, if_true] at hwake
        omega
      have hy : x.advance? =
          some (x.rested f (p.pause f.kind (failures f.kind (x.slept.map refusal) + 1))) := by
        rw [advance?_of_next ho he]
        simp only [note, ht, hl, hnap]
        rfl
      obtain ⟨hslept, ha⟩ := answers_rested hl
        (p.pause f.kind (failures f.kind (x.slept.map refusal) + 1))
      refine ⟨_, hy, ⟨policy, stop, slot_eq, ?_, ?_, paced.concat f, ho ▸ .trying rfl hp⟩, rfl, ha⟩
      · rw [ha]
        exact counts.staged _
      · intro rs hrs
        rw [rested, hslept, hx] at hrs
        rw [hx] at hsettles
        rcases List.prefix_concat_iff.1 hrs with rfl | hrs
        · exact hsettles
        · exact unsettled rs hrs
    · exact .inl ⟨advance?_of_wait he, hlt⟩

theorem Sound.reporting (h : x.Sound p slot) {status : Status} {c : Conclusion}
    (ht : x.attempt.stage = .reporting status c) :
    ∃ y, x.advance? = some y ∧ y.Sound p slot ∧ y.attempt.stage = .advancing c ∧
      y.outcome = none ∧ y.answers = x.answers := by
  obtain ⟨policy, stop, slot_eq, counts, unsettled, paced, stands⟩ := h
  rw [ht] at stands
  generalize ho : x.outcome = outcome at stands
  cases stands with
  | reporting hd hp =>
    have hs : x.attempt.step x.site = .next (x.site.publish x.attempt.slot status)
        { x.attempt with stage := .advancing c } := by
      rw [Applying.step, ht]
    have hn : x.note = { x with
        published := [(x.attempt.slot, .executing), (x.attempt.slot, status)] } := by
      simp only [note, ht, Applying.publication?, hp]
      rfl
    refine ⟨_, advance?_of_next ho hs, ?_, rfl, ?_, ?_⟩ <;> rw [hn]
    · refine ⟨policy, stop, slot_eq, counts.staged _, unsettled, paced, ?_⟩
      exact ho ▸ .advancing ⟨hd.settles, hd.last⟩ rfl
    · exact ho
    · rfl

theorem Sound.advancing (h : x.Sound p slot) {c : Conclusion}
    (ht : x.attempt.stage = .advancing c) (ho : x.outcome = none) :
    ∃ y, x.advance? = some y ∧ y.Sound p slot ∧ y.outcome = some c ∧ y.answers = x.answers := by
  obtain ⟨policy, stop, slot_eq, counts, unsettled, paced, stands⟩ := h
  rw [ht, ho] at stands
  cases stands with
  | advancing hd hp =>
    have hn : x.note = x := by
      simp only [note, ht, Applying.publication?, Option.toList_none, List.append_nil]
    have hs : x.attempt.step x.site = .done (x.site.mapRunner fun r =>
        { r with applied := max r.applied (Offset.next x.attempt.command.offset) }) c := by
      rw [Applying.step, ht]
    refine ⟨_, advance?_of_done ho hs, ?_, rfl, ?_⟩ <;> rw [hn]
    · refine ⟨policy, stop, slot_eq, counts, unsettled, paced, ?_⟩
      rw [ht]
      exact .ended ⟨hd.settles, hd.last⟩ hp
    · rfl

theorem Sound.advance {y : Trial μ κ ε} (h : x.Sound p slot) (hy : x.advance? = some y) :
    y.Sound p slot := by
  cases ht : x.attempt.stage with
  | announcing =>
    obtain ⟨z, hz, hs, -⟩ := h.announcing ht
    cases hz.symm.trans hy
    exact hs
  | trying =>
    obtain ⟨z, hz, hs, -⟩ := h.trying ht
    cases hz.symm.trans hy
    exact hs
  | pausing wake =>
    rcases h.pausing ht with ⟨hz, -⟩ | ⟨z, hz, hs, -⟩ <;> cases hz.symm.trans hy
    exact hs
  | reporting status c =>
    obtain ⟨z, hz, hs, -⟩ := h.reporting ht
    cases hz.symm.trans hy
    exact hs
  | advancing c =>
    cases ho : x.outcome with
    | none =>
      obtain ⟨z, hz, hs, -⟩ := h.advancing ht ho
      cases hz.symm.trans hy
      exact hs
    | some _ =>
      rw [advance?, ho] at hy
      cases hy

omit [Executor ε] in
theorem Sound.change {s : Site μ κ ε} (h : x.Sound p slot) (hs : x.site.Awaits x.attempt s) :
    Sound p slot { x with site := s } := by
  obtain ⟨policy, stop, slot_eq, counts, unsettled, paced, stands⟩ := h
  refine ⟨hs.policy.trans policy, hs.stop.trans stop, slot_eq, counts, unsettled, paced, ?_⟩
  have hclock := hs.clock.2
  change Stands p _ x.attempt.stage x.outcome
  generalize x.attempt.stage = stage, x.outcome = outcome at stands hclock
  cases stands with
  | announcing hl hp => exact .announcing hl hp
  | trying hl hp => exact .trying hl hp
  | pausing hl hn hp hwake _ => exact .pausing hl hn hp hwake (hclock _ rfl)
  | reporting hd hp => exact .reporting ⟨hd.settles, hd.last⟩ hp
  | advancing hd hp => exact .advancing ⟨hd.settles, hd.last⟩ hp
  | ended hd hp => exact .ended ⟨hd.settles, hd.last⟩ hp

theorem Sound.reaches {y : Trial μ κ ε} (h : x.Sound p slot) (hy : Reaches x y) :
    y.Sound p slot := by
  induction hy with
  | refl => exact h
  | tail _ hstep ih =>
    cases hstep with
    | act hy => exact ih.advance hy
    | change hs => exact ih.change hs

omit [Executor ε] in
theorem Sound.awaits_alarm (h : x.Sound p slot) :
    x.site.Awaits x.attempt { x.site with now := x.attempt.alarm.getD x.site.now } := by
  have hstands := h.stands
  refine ⟨rfl, rfl, ?_⟩
  unfold Applying.alarm
  generalize x.attempt.stage = stage, x.outcome = outcome at hstands
  cases hstands with
  | pausing _ _ _ _ hnow => exact ⟨hnow, by rintro _ ⟨⟩; exact Nat.le_refl _⟩
  | _ => exact ⟨Nat.le_refl _, fun _ ht => by cases ht⟩

theorem Sound.forth_reaches (h : x.Sound p slot) : Reaches x x.forth := by
  cases hy : x.advance? with
  | some y =>
    rw [forth_of_some hy]
    exact .single (.act hy)
  | none =>
    rw [forth, hy]
    exact .single (.change h.awaits_alarm)

theorem Sound.forth_iterate_reaches (h : x.Sound p slot) (n : Nat) : Reaches x (forth^[n] x) := by
  induction n with
  | zero => exact .refl
  | succ n ih =>
    rw [Function.iterate_succ_apply']
    exact ih.trans (h.reaches ih).forth_reaches

theorem Sound.forth_trying (h : x.Sound p slot) (ht : x.attempt.stage = .trying) :
    ∃ r, x.forth.answers = x.answers ++ [r] := by
  obtain ⟨y, hy, -, hr⟩ := h.trying ht
  rw [forth_of_some hy]
  exact hr

theorem Sound.forth_pausing (h : x.Sound p slot) {wake : Nat}
    (ht : x.attempt.stage = .pausing wake) :
    ∃ n ≤ 2, (forth^[n] x).Sound p slot ∧ (forth^[n] x).attempt.stage = .trying ∧
      (forth^[n] x).answers = x.answers := by
  rcases h.pausing ht with ⟨hnone, -⟩ | ⟨y, hy, hs⟩
  · have hf : x.forth = { x with site := { x.site with now := wake } } := by
      rw [forth, hnone, Applying.alarm, ht]
      rfl
    have hs := h.change h.awaits_alarm
    rw [Applying.alarm, ht, Option.getD_some, ← hf] at hs
    have htf : x.forth.attempt.stage = .pausing wake := by
      rw [hf]
      exact ht
    have hxf : x.forth.answers = x.answers := by
      rw [hf]
      rfl
    rcases hs.pausing htf with ⟨-, hlt⟩ | ⟨y, hy, hs, hty, ha⟩
    · rw [hf] at hlt
      exact absurd hlt (Nat.lt_irrefl _)
    · refine ⟨2, by decide, ?_⟩
      rw [Function.iterate_succ_apply, Function.iterate_one, forth_of_some hy]
      exact ⟨hs, hty, ha.trans hxf⟩
  · refine ⟨1, by decide, ?_⟩
    rw [Function.iterate_one, forth_of_some hy]
    exact hs

theorem Sound.goes_on (h : x.Sound p slot) (hn : ¬ p.Settles x.answers) :
    x.outcome = none ∧ ∃ n ≤ 3, ∃ r, (forth^[n] x).answers = x.answers ++ [r] := by
  have hstands := h.stands
  generalize ht : x.attempt.stage = stage, ho : x.outcome = outcome at hstands
  cases hstands with
  | announcing =>
    obtain ⟨y, hy, hs, hty, ha⟩ := h.announcing ht
    refine ⟨rfl, 2, by decide, ?_⟩
    rw [Function.iterate_succ_apply, forth_of_some hy, ← ha]
    exact hs.forth_trying hty
  | trying => exact ⟨rfl, 1, by decide, h.forth_trying ht⟩
  | pausing =>
    obtain ⟨n, hle, hs, hty, ha⟩ := h.forth_pausing ht
    refine ⟨rfl, n + 1, Nat.succ_le_succ hle, ?_⟩
    rw [Function.iterate_succ_apply', ← ha]
    exact hs.forth_trying hty
  | reporting hd => exact absurd hd.settles hn
  | advancing hd => exact absurd hd.settles hn
  | ended hd => exact absurd hd.settles hn

omit [Executor ε] in
theorem Sound.not_settles_of_latest (h : x.Sound p slot) (hl : x.latest = none) :
    ¬ p.Settles x.answers := by
  rw [answers, hl]
  exact h.unsettled _ (by simp)

theorem Sound.forth_advancing (h : x.Sound p slot) {c : Conclusion}
    (ht : x.attempt.stage = .advancing c) (ho : x.outcome = none) :
    x.forth.outcome = some c ∧ x.forth.answers = x.answers := by
  obtain ⟨y, hy, -, hc, ha⟩ := h.advancing ht ho
  rw [forth_of_some hy]
  exact ⟨hc, ha⟩

theorem Sound.concludes (h : x.Sound p slot) (hp : p.Settles x.answers) :
    ∃ n ≤ 2, ∃ c, (forth^[n] x).outcome = some c ∧ (forth^[n] x).answers = x.answers := by
  have hstands := h.stands
  generalize ht : x.attempt.stage = stage, ho : x.outcome = outcome at hstands
  cases hstands with
  | announcing hl => exact absurd hp (h.not_settles_of_latest hl)
  | trying hl => exact absurd hp (h.not_settles_of_latest hl)
  | pausing _ hn => exact absurd hp hn
  | @reporting _ c =>
    obtain ⟨y, hy, hs, hty, hoy, ha⟩ := h.reporting ht
    refine ⟨2, by decide, c, ?_⟩
    rw [Function.iterate_succ_apply, forth_of_some hy, ← ha]
    exact hs.forth_advancing hty hoy
  | advancing => exact ⟨1, by decide, _, h.forth_advancing ht ho⟩
  | ended => exact ⟨0, by decide, _, ho, rfl⟩

end

structure OnBudget [Executor ε] (p : RetryPolicy) (slot : Slot) (x : Trial μ κ ε) : Prop where
  first : ∀ rs, rs <+: x.answers → p.Settles rs → rs = x.answers
  goes_on : ¬ p.Settles x.answers →
    x.outcome = none ∧ ∃ n ≤ 3, ∃ r, (forth^[n] x).answers = x.answers ++ [r]
  concludes : p.Settles x.answers →
    ∃ n ≤ 2, ∃ c, (forth^[n] x).outcome = some c ∧ (forth^[n] x).answers = x.answers
  outcome : ∀ c, x.outcome = some c → ∃ r, x.answers.getLast? = some r ∧ c = .ofAnswer r ∧
    x.published = [(slot, .executing), (slot, .ofAnswer (failures .transient x.answers) r)]
  slept : x.slept.map refusal <+: x.answers ∧ x.answers.length ≤ x.slept.length + 1
  paced : Paced p x.slept
  total : ∀ f, x.outcome = some (.failed f) → f.kind = .transient →
    p.totalBackoff = min (x.naps .transient).sum Word.max

theorem Sound.first {p : RetryPolicy} {slot : Slot} {x : Trial μ κ ε} (h : x.Sound p slot)
    {rs : List (Except Failure Effect)} (hrs : rs <+: x.answers) (hp : p.Settles rs) :
    rs = x.answers := by
  cases hl : x.latest with
  | none =>
    rw [answers, hl] at hrs
    exact absurd hp (h.unsettled rs (by simpa using hrs))
  | some latest =>
    rw [answers, hl] at hrs ⊢
    rcases List.prefix_concat_iff.1 hrs with he | hrs
    · exact he
    · exact absurd hp (h.unsettled rs hrs)

theorem Sound.decided {p : RetryPolicy} {slot : Slot} {x : Trial μ κ ε} (h : x.Sound p slot)
    {c : Conclusion} (ho : x.outcome = some c) :
    ∃ status, x.Decided p status c ∧ x.published = [(slot, .executing), (slot, status)] := by
  have hstands := h.stands
  rw [ho] at hstands
  generalize x.attempt.stage = stage at hstands
  cases hstands with
  | ended hd hp =>
    rw [h.slot] at hp
    exact ⟨_, hd, hp⟩

theorem Decided.answers_eq {p : RetryPolicy} {x : Trial μ κ ε} {status : Status} {c : Conclusion}
    (h : x.Decided p status c) :
    ∃ r, x.answers = x.slept.map refusal ++ [r] ∧ c = .ofAnswer r ∧
      status = .ofAnswer (failures .transient x.answers) r := by
  obtain ⟨r, since, hl, hc, hs⟩ := h.last
  exact ⟨r, answers_of_latest hl, hc, hs⟩

theorem Sound.total {p : RetryPolicy} {slot : Slot} {x : Trial μ κ ε} (h : x.Sound p slot)
    {f : Failure} (ho : x.outcome = some (.failed f)) (hk : f.kind = .transient) :
    p.totalBackoff = min (x.naps .transient).sum Word.max := by
  obtain ⟨status, hd, -⟩ := h.decided ho
  obtain ⟨r, hx, hc, -⟩ := hd.answers_eq
  have hsettles := hd.settles
  cases r with
  | ok => cases hc
  | error g =>
    cases hc
    rw [hx, RetryPolicy.settles_concat_error, hk] at hsettles
    obtain hf | ⟨-, hn⟩ := hsettles
    · cases hf
    · rw [naps, h.paced.naps_eq, hn, p.totalBackoff_eq]

def secluded (policy : RetryPolicy) (executor : ε) : Site Unit Unit ε where
  now := 0
  origin := 0
  log := ()
  broker := {}
  tracker := .ofCapacity 1
  executor
  node := { client := (), tracker := 0, executor := 0, runner := { policy } }

end Trial

end StatementLog
