import Mathlib.Order.Monotone.Basic
import StatementLog.Proofs.Runner.Budget

namespace StatementLog

namespace Backoff

structure FitsWord (b : Backoff) : Prop where
  initial : b.initial ≤ Word.max
  max : b.max ≤ Word.max

def base (b : Backoff) : Nat :=
  Nat.max b.initial 1

def cap (b : Backoff) : Nat :=
  Nat.max b.max b.base

variable {b : Backoff}

theorem base_pos (b : Backoff) : 0 < b.base :=
  Nat.le_max_right ..

theorem base_le_cap (b : Backoff) : b.base ≤ b.cap :=
  Nat.le_max_right ..

theorem FitsWord.cap_le (h : b.FitsWord) : b.cap ≤ Word.max :=
  Nat.max_le.2 ⟨h.max, Nat.max_le.2 ⟨h.initial, by decide⟩⟩

theorem max_le_twoPow {k : Nat} (h : 64 ≤ k) : Word.max ≤ Word.twoPow k ∧ Word.max ≤ 2 ^ k := by
  have hword : Word.max ≤ 2 ^ 64 := by decide
  refine ⟨?_, Nat.le_trans hword (Nat.pow_le_pow_right (by decide) h)⟩
  rw [Word.twoPow, if_neg (Nat.not_lt.2 h)]

theorem FitsWord.delay_eq (h : b.FitsWord) (n : Nat) :
    b.delay n = min (b.base * 2 ^ (n - 1)) b.cap := by
  have hcap := h.cap_le
  change min (min (b.base * Word.twoPow (n - 1)) Word.max) b.cap = _
  rw [Nat.min_assoc, Nat.min_eq_right hcap]
  rcases Nat.lt_or_ge (n - 1) 64 with hk | hk
  · rw [Word.twoPow, if_pos hk]
    rfl
  · obtain ⟨hword, hpow⟩ := max_le_twoPow hk
    have hbeyond {m : Nat} (hm : Word.max ≤ m) : b.cap ≤ b.base * m :=
      Nat.le_trans hcap (Nat.le_trans hm (Nat.le_mul_of_pos_left m b.base_pos))
    rw [Nat.min_eq_right (hbeyond hword), Nat.min_eq_right (hbeyond hpow)]

theorem FitsWord.base_le_delay (h : b.FitsWord) (n : Nat) : b.base ≤ b.delay n := by
  rw [h.delay_eq]
  exact Nat.le_min.2 ⟨Nat.le_mul_of_pos_right _ (Nat.two_pow_pos _), b.base_le_cap⟩

theorem delay_le_cap (b : Backoff) (n : Nat) : b.delay n ≤ b.cap :=
  Nat.min_le_right ..

theorem FitsWord.delay_mono (h : b.FitsWord) : Monotone b.delay := by
  intro m n hmn
  have hpow : 2 ^ (m - 1) ≤ 2 ^ (n - 1) :=
    Nat.pow_le_pow_right (by decide) (Nat.sub_le_sub_right hmn 1)
  have hmul := Nat.mul_le_mul_left b.base hpow
  rw [h.delay_eq, h.delay_eq]
  omega

theorem FitsWord.delay_succ (h : b.FitsWord) {n : Nat} (hn : 1 ≤ n) :
    b.delay (n + 1) = min (2 * b.delay n) b.cap := by
  have hpow : b.base * 2 ^ n = 2 * (b.base * 2 ^ (n - 1)) := by
    obtain ⟨k, rfl⟩ := Nat.exists_eq_add_of_le' hn
    rw [Nat.add_sub_cancel, Nat.pow_succ, ← Nat.mul_assoc, Nat.mul_comm]
  rw [h.delay_eq, h.delay_eq, Nat.add_sub_cancel, hpow]
  omega

structure Doubles (b : Backoff) : Prop where
  exact : ∀ n, b.delay n = min (b.base * 2 ^ (n - 1)) b.cap
  positive : ∀ n, 0 < b.delay n
  bounded : ∀ n, b.delay n ≤ b.cap
  mono : Monotone b.delay
  next : ∀ n, 1 ≤ n → b.delay (n + 1) = min (2 * b.delay n) b.cap

theorem FitsWord.doubles (h : b.FitsWord) : b.Doubles where
  exact := h.delay_eq
  positive n := Nat.lt_of_lt_of_le b.base_pos (h.base_le_delay n)
  bounded := b.delay_le_cap
  mono := h.delay_mono
  next _ hn := h.delay_succ hn

end Backoff

theorem Config.checkBackoff_ok {field : String} {b : Backoff} (h : checkBackoff field b = .ok ()) :
    0 < b.initial ∧ b.initial ≤ b.max := by
  unfold checkBackoff at h
  split at h
  · cases h
  · next hb =>
    simp only [Bool.or_eq_true, decide_eq_true_eq, not_or] at hb
    omega

theorem Config.backoffs_of_validate {c : Config} (h : c.validate = .ok ()) :
    (0 < c.retry.initial ∧ c.retry.initial ≤ c.retry.max) ∧
      0 < c.infrastructure.initial ∧ c.infrastructure.initial ≤ c.infrastructure.max := by
  cases hr : checkBackoff "retry" c.retry with
  | error e =>
    simp only [validate, bind, Except.bind, throw, throwThe, MonadExceptOf.throw, hr] at h
    split at h
    · cases h
    split at h <;> cases h
  | ok =>
    cases hi : checkBackoff "infrastructure_backoff" c.infrastructure with
    | error e =>
      simp only [validate, bind, Except.bind, throw, throwThe, MonadExceptOf.throw, hr, hi] at h
      split at h
      · cases h
      split at h <;> cases h
    | ok => exact ⟨checkBackoff_ok hr, checkBackoff_ok hi⟩

namespace RetryPolicy

def Rests (p : RetryPolicy) (gap : Nat) : Prop :=
  ∀ kind n, kind ≠ .fatal → gap ≤ p.pause kind n

theorem rests_of_fitsWord {p : RetryPolicy} (ht : p.transient.FitsWord)
    (hi : p.infrastructure.FitsWord) :
    p.Rests (min p.transient.base p.infrastructure.base) := by
  intro kind n hk
  cases kind with
  | fatal => exact absurd rfl hk
  | transient => exact Nat.le_trans (Nat.min_le_left ..) (ht.base_le_delay n)
  | infrastructure => exact Nat.le_trans (Nat.min_le_right ..) (hi.base_le_delay n)

theorem Rests.le_of_decide {p : RetryPolicy} {gap : Nat} (h : p.Rests gap) {kind : FailureKind}
    {n d : Nat} (hd : p.decide kind n = .retryAfter d ∨ p.decide kind n = .pauseAfter d) :
    gap ≤ d := by
  cases kind with
  | fatal => rcases hd with hd | hd <;> cases hd
  | infrastructure =>
    rcases hd with hd | hd <;> cases hd
    exact h .infrastructure n (by decide)
  | transient =>
    simp only [decide] at hd
    split at hd <;> rcases hd with hd | hd <;> cases hd
    exact h .transient n (by decide)

end RetryPolicy

/-- An attempt, with the times at which it handed its command over, the latest first. -/
structure Pursuit (μ κ ε : Type) where
  site : Site μ κ ε
  attempt : Applying
  times : List Nat := []

namespace Pursuit

variable {μ κ ε : Type}

def begun (s : Site μ κ ε) (command : Command) (mode : Mode) : Pursuit μ κ ε where
  site := s
  attempt := { command, mode }

def timesAfter (x : Pursuit μ κ ε) : List Nat :=
  match x.attempt.stage with
  | .trying => x.site.now :: x.times
  | _ => x.times

/-- A step of the attempt, or a change from outside: whatever it is, the clock does not go back and
the runner keeps its policy. -/
inductive Step [Executor ε] (x : Pursuit μ κ ε) : Pursuit μ κ ε → Prop where
  | act {s : Site μ κ ε} {a : Applying} : x.attempt.step x.site = .next s a →
      Step x ⟨s, a, x.timesAfter⟩
  | change {s : Site μ κ ε} : x.site.now ≤ s.now →
      s.node.runner.policy = x.site.node.runner.policy → Step x { x with site := s }

def Reaches [Executor ε] : Pursuit μ κ ε → Pursuit μ κ ε → Prop :=
  Relation.ReflTransGen Step

def Since (gap : Nat) (times : List Nat) (time : Nat) : Prop :=
  ∀ t ∈ times, t + gap ≤ time

theorem Since.mono {gap time time' : Nat} {times : List Nat} (h : Since gap times time)
    (ht : time ≤ time') : Since gap times time' :=
  fun t hm => Nat.le_trans (h t hm) ht

def Clear (gap : Nat) (x : Pursuit μ κ ε) : Prop :=
  match x.attempt.stage with
  | .announcing => x.times = []
  | .trying => Since gap x.times x.site.now
  | .pausing wake => Since gap x.times wake
  | _ => True

structure Spaced (p : RetryPolicy) (gap : Nat) (x : Pursuit μ κ ε) : Prop where
  policy : x.site.node.runner.policy = p
  apart : x.times.Pairwise fun later earlier => earlier + gap ≤ later
  clear : x.Clear gap

theorem begun_spaced (gap : Nat) (s : Site μ κ ε) (command : Command) (mode : Mode) :
    (begun s command mode).Spaced s.node.runner.policy gap :=
  ⟨rfl, .nil, rfl⟩

variable {p : RetryPolicy} {gap : Nat} {x : Pursuit μ κ ε}

theorem Spaced.change (h : x.Spaced p gap) {s : Site μ κ ε} (hnow : x.site.now ≤ s.now)
    (hp : s.node.runner.policy = x.site.node.runner.policy) :
    Spaced p gap { x with site := s } := by
  refine ⟨hp.trans h.policy, h.apart, ?_⟩
  have hclear := h.clear
  simp only [Clear] at hclear ⊢
  split at hclear
  · exact hclear
  · exact hclear.mono hnow
  · exact hclear
  · trivial

variable [Executor ε]

theorem policy_of_step {s : Site μ κ ε} {a : Applying} (hs : x.attempt.step x.site = .next s a) :
    s.node.runner.policy = x.site.node.runner.policy := by
  obtain ⟨state, hr⟩ := (Applying.step_next hs).runner
  rw [hr]

theorem Spaced.trying (h : x.Spaced p gap) (hp : p.Rests gap) (ht : x.attempt.stage = .trying)
    {s : Site μ κ ε} {a : Applying} (hs : x.attempt.step x.site = .next s a) :
    Spaced p gap ⟨s, a, x.site.now :: x.times⟩ := by
  have hclear := h.clear
  rw [Clear, ht] at hclear
  have hpolicy := (policy_of_step hs).trans h.policy
  refine ⟨hpolicy, .cons hclear h.apart, ?_⟩
  cases hr : (x.attempt.attempt x.site).1 with
  | ok effect =>
    cases (Applying.step_of_ok ht hr).symm.trans hs
    trivial
  | error f =>
    by_cases hg : (x.attempt.count f.kind).GivesUp x.site.node.runner.policy f
    · cases (Applying.step_of_givesUp ht hr hg).symm.trans hs
      trivial
    · obtain ⟨state, he⟩ := Applying.step_of_not_givesUp ht hr hg
      have hk : f.kind ≠ .fatal := fun hk => hg (.inl hk)
      have hpause := hp f.kind ((x.attempt.count f.kind).attempts f.kind) hk
      rw [h.policy] at he
      cases he.symm.trans hs
      intro t hm
      rcases List.mem_cons.1 hm with rfl | hm
      · exact Nat.add_le_add_left hpause _
      · exact Nat.le_trans (hclear t hm) (Nat.le_add_right ..)

theorem Spaced.act (h : x.Spaced p gap) (hp : p.Rests gap) {s : Site μ κ ε} {a : Applying}
    (hs : x.attempt.step x.site = .next s a) : Spaced p gap ⟨s, a, x.timesAfter⟩ := by
  have hclear := h.clear
  have hpolicy := (policy_of_step hs).trans h.policy
  rw [timesAfter]
  rw [Clear] at hclear
  cases ht : x.attempt.stage with
  | trying => exact h.trying hp ht hs
  | announcing =>
    rw [ht] at hclear
    rw [Applying.step, ht] at hs
    cases hs
    refine ⟨hpolicy, h.apart, ?_⟩
    intro t hm
    rw [hclear] at hm
    cases hm
  | pausing wake =>
    rw [ht] at hclear
    rcases Applying.pausing_cases ht x.site with ⟨-, he⟩ | ⟨-, hle, he⟩ | ⟨-, -, he⟩ <;>
      cases he.symm.trans hs
    exact ⟨hpolicy, h.apart, hclear.mono hle⟩
  | reporting status c =>
    rw [Applying.step, ht] at hs
    cases hs
    exact ⟨hpolicy, h.apart, trivial⟩
  | advancing c =>
    rw [Applying.step, ht] at hs
    cases hs

theorem Spaced.reaches {y : Pursuit μ κ ε} (h : x.Spaced p gap) (hp : p.Rests gap)
    (hy : Reaches x y) : y.Spaced p gap := by
  induction hy with
  | refl => exact h
  | tail _ hstep ih =>
    cases hstep with
    | act hs => exact ih.act hp hs
    | change hnow hpolicy => exact ih.change hnow hpolicy

/-- The pauses of a backoff are the first one doubled again and again, up to the largest, as if no
word had an end. With a policy from a valid configuration no pause is nothing, so that a runner
hands over a command again only after the shortest of its first pauses, whatever else goes on. -/
theorem backoff_exact :
    (∀ b : Backoff, b.FitsWord → b.Doubles) ∧
    ∀ c : Config, c.validate = .ok () → c.retry.FitsWord → c.infrastructure.FitsWord →
      0 < min c.retry.initial c.infrastructure.initial ∧
      (∀ kind n d, c.retryPolicy.decide kind n = .retryAfter d ∨
        c.retryPolicy.decide kind n = .pauseAfter d →
          min c.retry.initial c.infrastructure.initial ≤ d) ∧
      ∀ (s : Site μ κ ε) (command : Command) (mode : Mode) (x : Pursuit μ κ ε),
        s.node.runner.policy = c.retryPolicy → Reaches (begun s command mode) x →
          x.times.Pairwise fun later earlier =>
            earlier + min c.retry.initial c.infrastructure.initial ≤ later := by
  refine ⟨fun b h => h.doubles, fun c hc hretry hinfrastructure => ?_⟩
  obtain ⟨⟨hr, -⟩, hi, -⟩ := Config.backoffs_of_validate hc
  have hbase : c.retry.base = c.retry.initial ∧ c.infrastructure.base = c.infrastructure.initial :=
    ⟨Nat.max_eq_left hr, Nat.max_eq_left hi⟩
  have hrests := RetryPolicy.rests_of_fitsWord (p := c.retryPolicy) hretry hinfrastructure
  change c.retryPolicy.Rests (min c.retry.base c.infrastructure.base) at hrests
  rw [hbase.1, hbase.2] at hrests
  refine ⟨Nat.lt_min.2 ⟨hr, hi⟩, fun kind n d => hrests.le_of_decide, ?_⟩
  intro s command mode x hs hx
  have hspaced := begun_spaced (min c.retry.initial c.infrastructure.initial) s command mode
  rw [hs] at hspaced
  exact (hspaced.reaches hrests hx).apart

def forth (x : Pursuit μ κ ε) : Pursuit μ κ ε :=
  match x.attempt.step x.site with
  | .next s a => ⟨s, a, x.timesAfter⟩
  | _ => { x with site := { x.site with now := max x.site.now (x.attempt.alarm.getD 0) } }

theorem forth_reaches (x : Pursuit μ κ ε) : Reaches x x.forth := by
  unfold forth
  split
  · next hs => exact .single (.act hs)
  · exact .single (.change (Nat.le_max_left ..) rfl)

theorem forth_iterate_reaches (n : Nat) (x : Pursuit μ κ ε) : Reaches x (forth^[n] x) := by
  induction n with
  | zero => exact .refl
  | succ n ih =>
    rw [Function.iterate_succ_apply']
    exact ih.trans (forth_reaches _)

theorem backoff_exact_extremes :
    (⟨2 ^ 63, Word.max⟩ : Backoff).Doubles ∧
    [0, 1, 2, 2 ^ 32 - 1].map (⟨2 ^ 63, Word.max⟩ : Backoff).delay =
      [2 ^ 63, 2 ^ 63, Word.max, Word.max] ∧
    ∃ x : Pursuit Unit Unit Script,
      Reaches (begun (Trial.secluded ({} : Config).retryPolicy
        { failures := [("S", [⟨.transient, "a"⟩, ⟨.transient, "b"⟩])] })
        ⟨⟨.stream, "A", .create⟩, { statement := "S" }, 7⟩ .live) x ∧
      x.times = [300, 100, 0] ∧
      x.times.Pairwise fun later earlier => earlier + 100 ≤ later := by
  have hx := forth_iterate_reaches 8 (begun (Trial.secluded ({} : Config).retryPolicy
    ({ failures := [("S", [⟨.transient, "a"⟩, ⟨.transient, "b"⟩])] } : Script))
    ⟨⟨.stream, "A", .create⟩, { statement := "S" }, 7⟩ .live)
  have hall := backoff_exact (μ := Unit) (κ := Unit) (ε := Script)
  refine ⟨hall.1 _ ⟨by decide, by decide⟩, by decide +kernel, _, hx, by decide +kernel, ?_⟩
  exact (hall.2 {} (by decide +kernel) ⟨by decide, by decide⟩ ⟨by decide, by decide⟩).2.2
    _ _ _ _ rfl hx

end Pursuit

end StatementLog
