import StatementLog.Proofs.Replay.Tracking

namespace StatementLog

/-- What may happen around a node that nobody else shares the broker's topics with. -/
structure Site.Outage {μ κ : Type} [CommandLog μ κ] [LawfulLog μ] (s s' : Site μ κ Engine) : Prop
    extends Site.Drift s s' where
  executor : s'.executor = s.executor
  broker : s'.broker.up = s.broker.up

def RetryPolicy.verdict (p : RetryPolicy) : Except Failure Effect → Status
  | .ok effect => .success effect.message
  | .error f =>
    .error (if f.kind = .transient then
      f.message ++ s!" (gave up after {p.maxRetries + 1} attempts)" else f.message)

namespace Lifetime

variable {μ κ : Type} [CommandLog μ κ] [LawfulLog μ] {x y : Lifetime μ κ Engine} {c : Catalog}
  {b : Broker}

def policy {ε : Type} (x : Lifetime μ κ ε) : RetryPolicy :=
  x.site.node.runner.policy

def Patient (x : Lifetime μ κ Engine) (c : Catalog) (b : Broker) (a : Applying) : Prop :=
  a.transient ≤ x.policy.maxRetries ∧
    (0 < a.transient → ∃ f, answer x.view c b a.command = .error f ∧ f.kind = .transient)

structure Tracks (c : Catalog) (b : Broker) (x : Lifetime μ κ Engine) : Prop where
  state : (x.started, x.site.broker.up) = alone x.view c b x.settled.length
  verdicts : ∀ entry ∈ x.settled, entry.2 = x.policy.verdict (answer x.view c b entry.1)
  patience (a : Applying) : x.phase.attempt? = some a → a.Waiting → x.Patient c b a
  launched : (∃ r, .finishReplay r ∈ x.site.calls) → x.Launched

theorem Orderly.settled_view (h : x.Orderly) {k : Nat} (hk : k < x.settled.length) :
    ∃ command, x.view k = some command := by
  obtain ⟨_, _, _, hacc, -⟩ := h.2.halting
  have hlen := hacc.settled.length_eq
  obtain ⟨command, _, -, hv, -⟩ := hacc.settled.getElem? (hlen ▸ hk)
  exact ⟨command, hv⟩

theorem Orderly.settled_mem (h : x.Orderly) {entry : Command × Status} (he : entry ∈ x.settled) :
    entry.1.offset < x.settled.length := by
  obtain ⟨_, _, _, hacc, -⟩ := h.2.halting
  obtain ⟨k, hk⟩ := List.mem_iff_getElem?.1 (List.mem_reverse.2 he)
  have ho := hacc.settled.offset_eq (fun _ _ => LawfulLog.offset_eq) (c := entry.1) (a := entry.2) hk
  rw [ho, ← List.length_reverse]
  exact (List.getElem?_eq_some_iff.1 hk).1

theorem answer_congr {view view' : Nat → Option Command} {command : Command}
    (h : ∀ k < command.offset, view' k = view k) :
    answer view' c b command = answer view c b command := by
  rw [answer, answer, alone_congr h]

theorem Tracks.outage (h : x.Orderly) (ht : Tracks c b x) {s : Site μ κ Engine}
    (hs : x.site.Outage s) : Tracks c b { x with site := s } := by
  have hview (k : Nat) (hk : k < x.settled.length) :
      ({ x with site := s } : Lifetime μ κ Engine).view k = x.view k := by
    obtain ⟨command, hc⟩ := h.settled_view hk
    exact (hs.log.command? hc).trans hc.symm
  have hpol : ({ x with site := s } : Lifetime μ κ Engine).policy = x.policy := hs.policy
  have hans {command : Command} (hc : command.offset ≤ x.settled.length) :
      answer ({ x with site := s } : Lifetime μ κ Engine).view c b command =
        answer x.view c b command :=
    answer_congr fun k hk => hview k (Nat.lt_of_lt_of_le hk hc)
  refine ⟨?_, ?_, ?_, ?_⟩
  · rw [alone_congr hview, ← ht.state, started, hs.executor, hs.broker]
    rfl
  · intro entry he
    rw [hpol, hans (Nat.le_of_lt (h.settled_mem he))]
    exact ht.verdicts entry he
  · intro a ha hwait
    obtain ⟨limit, mode, rest, hh⟩ := h.handling ha
    obtain ⟨hle, hpos⟩ := ht.patience a ha hwait
    rw [Patient, hpol, hans (Nat.le_of_eq (hh.settled_length hwait).symm)]
    exact ⟨hle, hpos⟩
  · intro hr
    rw [hs.calls] at hr
    obtain ⟨hp, hc⟩ := ht.launched hr
    refine ⟨hp, ?_⟩
    rw [started, hs.executor]
    exact hc

theorem Settles.not_infrastructure {a : Applying} {policy : RetryPolicy}
    {r : Except Failure Effect} {status : Status} (h : Settles a policy r status) :
    ∀ f, r = .error f → f.kind ≠ .infrastructure := by
  rintro f rfl hf
  rcases h with ⟨_, hr, -⟩ | ⟨g, hr, hg, -⟩
  · cases hr
  · cases hr
    rcases hg with hg | ⟨hg, -⟩
    · rw [hf] at hg
      cases hg
    · rw [hf] at hg
      cases hg

theorem Tracks.answer_eq (ht : Tracks c b x) {command : Command}
    (ho : x.settled.length = command.offset)
    (hi : ∀ f, (x.started.settle x.site.broker command).1 = .error f → f.kind ≠ .infrastructure) :
    answer x.view c b command = (x.started.settle x.site.broker command).1 := by
  have hup := Catalog.settle_up hi
  rw [answer, ← ho, ← ht.state, hup]

theorem Patient.verdict {a : Applying} (hp : x.Patient c b a) {r : Except Failure Effect}
    (hr : answer x.view c b a.command = r) {status : Status} (hs : Settles a x.policy r status) :
    status = x.policy.verdict r := by
  obtain ⟨hle, hpos⟩ := hp
  rcases hs with ⟨effect, rfl, rfl⟩ | ⟨f, rfl, hg, rfl⟩
  · rfl
  · rw [RetryPolicy.verdict]
    rcases hg with hk | ⟨hk, hg⟩
    · have hz : ¬ 0 < a.transient := by
        intro h
        obtain ⟨g, hg, hkind⟩ := hpos h
        cases hr.symm.trans hg
        rw [hk] at hkind
        cases hkind
      simp [hk, Applying.count, Applying.failureMessage, hz]
    · rw [hk, Applying.count] at hg
      have he : a.transient = x.policy.maxRetries := by
        simp only at hg
        omega
      simp [hk, Applying.count, Applying.failureMessage, he]

theorem Patient.count {a : Applying} {f : Failure} (hp : x.Patient c b a)
    (hr : (x.started.settle x.site.broker a.command).1 = .error f) (ht : Tracks c b x)
    (ho : x.settled.length = a.command.offset) (hg : ¬ (a.count f.kind).GivesUp x.policy f) :
    (a.count f.kind).transient ≤ x.policy.maxRetries ∧
      (0 < (a.count f.kind).transient →
        ∃ f, answer x.view c b a.command = .error f ∧ f.kind = .transient) := by
  cases hk : f.kind with
  | fatal => exact absurd (.inl hk) hg
  | infrastructure => exact hp
  | transient =>
    have hi : ∀ g, (x.started.settle x.site.broker a.command).1 = .error g →
        g.kind ≠ .infrastructure := by
      intro g hg hi
      cases hr.symm.trans hg
      rw [hk] at hi
      cases hi
    refine ⟨?_, fun _ => ⟨f, (ht.answer_eq ho hi).trans hr, hk⟩⟩
    rw [hk] at hg
    exact Nat.not_lt.1 fun hlt => hg (.inr ⟨hk, hlt⟩)

theorem Tracks.state_advance (h : x.Orderly) (hw : Written x.view) (ht : Tracks c b x)
    (hy : x.advance? = some y) :
    (y.started, y.site.broker.up) = alone y.view c b y.settled.length := by
  have hview : y.view = x.view := (advance?_view hy).1
  rw [hview]
  rcases settle_cases h hw hy with ⟨hs, hb, hc⟩ | ⟨a, status, -, -, hv, hs, hset, he⟩
  · rw [hs, hb, hc]
    exact ht.state
  · have hup := Catalog.settle_up hset.not_infrastructure
    rw [hs, List.length_cons, alone_succ hv, ← ht.state, hup, he]

theorem Tracks.verdicts_advance (h : x.Orderly) (hw : Written x.view) (ht : Tracks c b x)
    (hy : x.advance? = some y) :
    ∀ entry ∈ y.settled, entry.2 = y.policy.verdict (answer y.view c b entry.1) := by
  have hview : y.view = x.view := (advance?_view hy).1
  have hpol : y.policy = x.policy := (advance?_view hy).2.2
  rw [hview, hpol]
  rcases settle_cases h hw hy with ⟨hs, -, -⟩ | ⟨a, status, hx, hst, hv, hs, hset, -⟩
  · rw [hs]
    exact ht.verdicts
  · rw [hs]
    intro entry he
    rcases List.mem_cons.1 he with rfl | he
    · have hwait : a.Waiting := by simp [Applying.Waiting, hst]
      have ho : x.settled.length = a.command.offset := (LawfulLog.offset_eq hv).symm
      have hans := ht.answer_eq ho hset.not_infrastructure
      have hp := ht.patience a (phase_attempt? hx) hwait
      rw [hp.verdict hans hset, hans]
    · exact ht.verdicts entry he

theorem Tracks.patience_advance (h : x.Orderly) (hw : Written x.view) (ht : Tracks c b x)
    (hy : x.advance? = some y) (a' : Applying) (ha : y.phase.attempt? = some a')
    (hwait : a'.Waiting) : y.Patient c b a' := by
  have hview : y.view = x.view := (advance?_view hy).1
  have hpol : y.policy = x.policy := (advance?_view hy).2.2
  rw [Patient, hview, hpol]
  rcases advance?_phase_attempt hy ha with ⟨a, s, hx, hs⟩ | ⟨hz, -⟩
  · rw [(Applying.step_next hs).command]
    obtain ⟨limit, mode, rest, hh⟩ := h.handling (phase_attempt? hx)
    have hold := ht.patience a (phase_attempt? hx)
    cases hst : a.stage with
    | announcing =>
      rw [Applying.step, hst] at hs
      cases hs
      exact hold (by simp [Applying.Waiting, hst])
    | trying =>
      have hold := hold (by simp [Applying.Waiting, hst])
      rcases Applying.trying_cases hst x.site with
        ⟨_, -, he⟩ | ⟨f, state, wake, hr, hg, he⟩ | ⟨_, -, -, he⟩ <;> cases he.symm.trans hs
      · exact hwait.elim
      · have hw := hw.ordinary hh.view_applied
        have ho := hh.settled_length (by simp [Applying.Waiting, hst])
        have hanswer := congrArg Prod.fst (settle_attempt hw x)
        rw [hr] at hanswer
        exact hold.count hanswer ht ho hg
      · exact hwait.elim
    | pausing wake =>
      rcases Applying.pausing_cases hst x.site with ⟨-, he⟩ | ⟨-, -, he⟩ | ⟨-, -, he⟩ <;>
        cases he.symm.trans hs
      exact hold (by simp [Applying.Waiting, hst])
    | reporting status conclusion =>
      rw [Applying.step, hst] at hs
      cases hs
      exact hwait.elim
    | advancing conclusion =>
      rw [Applying.step, hst] at hs
      cases hs
  · rw [hz]
    exact ⟨Nat.zero_le _, fun hp => absurd hp (Nat.lt_irrefl 0)⟩

theorem Tracks.advance (h : x.Orderly) (hw : Written x.view) (ht : Tracks c b x)
    (hy : x.advance? = some y) : Tracks c b y :=
  ⟨ht.state_advance h hw hy, ht.verdicts_advance h hw hy, ht.patience_advance h hw hy,
    launched_advance h hw ht.launched hy⟩

end Lifetime

end StatementLog
