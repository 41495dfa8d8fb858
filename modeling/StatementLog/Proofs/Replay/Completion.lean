import StatementLog.Proofs.Replay.Progress

namespace StatementLog

def Passing {μ κ ε : Type} [CommandLog μ κ] [LawfulLog μ]
    (world : Site μ κ ε → Site μ κ ε → Prop) : Prop :=
  ∀ s now turns, LawfulLog.size s.log ≤ Word.max →
    world s { s with now, node := { s.node with turns } }

theorem passing_drift {μ κ ε : Type} [CommandLog μ κ] [LawfulLog μ] :
    Passing (Site.Drift : Site μ κ ε → Site μ κ ε → Prop) :=
  fun _ _ _ hb => ⟨⟨Nat.le_refl _, fun _ => rfl, hb⟩, rfl, rfl, rfl, rfl, rfl, rfl, rfl, id⟩

namespace Lifetime

variable {μ κ : Type} [CommandLog μ κ] [LawfulLog μ] {x y z : Lifetime μ κ Engine}
  {world : Site μ κ Engine → Site μ κ Engine → Prop}

structure Reads (x y : Lifetime μ κ Engine) : Prop where
  view : y.view = x.view
  size : LawfulLog.size y.site.log = LawfulLog.size x.site.log
  policy : y.policy = x.policy
  checks (k : κ) : CommandLog.check y.site.log k = CommandLog.check x.site.log k

theorem Reads.refl (x : Lifetime μ κ Engine) : Reads x x :=
  ⟨rfl, rfl, rfl, fun _ => rfl⟩

theorem Reads.trans (h : Reads x y) (h' : Reads y z) : Reads x z :=
  ⟨h'.view.trans h.view, h'.size.trans h.size, h'.policy.trans h.policy,
    fun k => (h'.checks k).trans (h.checks k)⟩

theorem reads_advance (hy : x.advance? = some y) : Reads x y :=
  ⟨(advance?_view hy).1, (advance?_view hy).2.1, (advance?_view hy).2.2, advance?_checks hy⟩

structure Quiet (x y : Lifetime μ κ Engine) : Prop extends Reads x y where
  settled : y.settled = x.settled
  started : y.started = x.started
  broker : y.site.broker = x.site.broker

theorem Quiet.refl (x : Lifetime μ κ Engine) : Quiet x x :=
  ⟨.refl x, rfl, rfl, rfl⟩

theorem Quiet.trans (h : Quiet x y) (h' : Quiet y z) : Quiet x z :=
  ⟨h.toReads.trans h'.toReads, h'.settled.trans h.settled, h'.started.trans h.started,
    h'.broker.trans h.broker⟩

theorem Serving.rouse (h : x.Serving) : x.rouse.Serving :=
  h.drift (passing_drift _ _ _ h.orderly.1) rfl rfl h.check h.stop h.aborted

theorem quiet_rouse (x : Lifetime μ κ Engine) : Quiet x x.rouse :=
  ⟨⟨rfl, rfl, rfl, fun _ => rfl⟩, rfl, rfl, rfl⟩

theorem reaches_rouse (hw : Passing world) (h : x.Serving) : Reaches world x x.rouse :=
  .single (.change (hw _ _ _ h.orderly.1))

theorem drained_rouse : x.rouse.Drained ↔ x.Drained :=
  ⟨fun h => ⟨h.applied, h.phase⟩, fun h => ⟨h.applied, h.phase⟩⟩

theorem Serving.quiet_advance (h : x.Serving) (ht : ¬ x.Trying) (hy : x.advance? = some y) :
    Quiet x y := by
  rcases settle_cases h.orderly h.written hy with ⟨hs, hb, hc⟩ | ⟨a, _, hx, hst, -⟩
  · exact ⟨reads_advance hy, hs, hc, hb⟩
  · exact absurd ⟨a, hx, hst⟩ ht

theorem Serving.exists_pause (hw : Passing world) {x : Lifetime μ κ Engine} (h : x.Serving) :
    ∃ y, Reaches world x y ∧ y.Serving ∧ Quiet x y ∧ (y.Trying ∨ y.Drained) := by
  by_cases ht : x.Trying
  · exact ⟨x, .refl, h, .refl x, .inl ht⟩
  · by_cases hd : x.Drained
    · exact ⟨x, .refl, h, .refl x, .inr hd⟩
    · obtain ⟨y, hy, hp, hnear⟩ := h.rouse.proceeds x.roused_rouse ht (drained_rouse.not.2 hd)
      have hnear : y.unread < x.unread ∨ y.unread = x.unread ∧ y.phase.rank < x.phase.rank := hnear
      obtain ⟨z, hz, hs, hq, hend⟩ := exists_pause hw (h.rouse.advance hy hp)
      refine ⟨z, ((reaches_rouse hw h).tail (.act hy)).trans hz, hs, ?_, hend⟩
      exact ((quiet_rouse x).trans (h.rouse.quiet_advance ht hy)).trans hq
termination_by (x.unread, x.phase.rank)
decreasing_by
  exact Prod.lex_def.2 hnear

def withAttempt (p : Phase) (a : Applying) : Phase :=
  match p with
  | .replaying (.applying rest n _) => .replaying (.applying rest n a)
  | .replaying (.terminating limit _) => .replaying (.terminating limit a)
  | .running (.applying rest _) => .running (.applying rest a)
  | p => p

omit [LawfulLog μ] in
theorem advance?_next {a a' : Applying} {s : Site μ κ Engine} (hx : x.attempt? = some a)
    (hs : a.step x.site = .next s a') : x.advance? = some (x.take s (withAttempt x.phase a')) := by
  unfold attempt? at hx
  split at hx
  · next hp =>
    cases hx
    rw [advance?_replaying hp, Replaying.step, hs, hp]
    rfl
  · next hp =>
    cases hx
    rw [advance?_replaying hp, Replaying.step, hs, hp]
    rfl
  · next hp =>
    split at hx
    · cases hx
    · next hab =>
      cases hx
      rw [advance?_running hp, Running.step, if_neg hab]
      simp only [hs, hp]
      rfl
  · cases hx

omit [CommandLog μ κ] [LawfulLog μ] in
theorem withAttempt_inService {a : Applying} (hx : x.attempt? = some a) (a' : Applying) :
    (withAttempt x.phase a').InService ∧ (withAttempt x.phase a').attempt? = some a' := by
  unfold attempt? at hx
  split at hx
  · next h =>
    rw [h]
    exact ⟨trivial, rfl⟩
  · next h =>
    rw [h]
    exact ⟨trivial, rfl⟩
  · next h =>
    rw [h]
    exact ⟨trivial, rfl⟩
  · cases hx

omit [CommandLog μ κ] [LawfulLog μ] in
theorem attempt?_of_phase {ε : Type} {x : Lifetime μ κ ε} {a : Applying}
    (h : x.phase.attempt? = some a) (ha : x.site.node.runner.aborted = false) :
    x.attempt? = some a := by
  unfold Phase.attempt? at h
  unfold attempt?
  split at h
  · exact h
  · exact h
  · rw [ha]
    exact h
  · cases h

theorem Serving.tries_again (hw : Passing world) (h : x.Serving) {a : Applying} {wake : Nat}
    (hx : x.attempt? = some a) (hst : a.stage = .pausing wake) :
    ∃ y, Reaches world x y ∧ y.Serving ∧ Quiet x y ∧
      y.attempt? = some { a with stage := .trying } := by
  have hx' : x.rouse.attempt? = some a := hx
  have hwake : wake ≤ x.rouse.site.now := by
    refine x.roused_rouse.now wake ?_
    have hp := phase_attempt? hx
    have halarm : a.alarm = some wake := by rw [Applying.alarm, hst]
    show x.phase.alarm = some wake
    unfold Phase.attempt? at hp
    split at hp <;> cases hp
    · next hp => rw [hp]; exact halarm
    · next hp => rw [hp]; exact halarm
    · next hp => rw [hp]; exact halarm
  rcases Applying.pausing_cases hst x.rouse.site with ⟨hstop, -⟩ | ⟨-, -, hs⟩ | ⟨-, hlt, -⟩
  · exact absurd (hstop.symm.trans h.stop) (by simp)
  · have hy := advance?_next hx' hs
    obtain ⟨hp, ha⟩ := withAttempt_inService hx' { a with stage := .trying }
    have hnt : ¬ x.rouse.Trying := by
      rintro ⟨a', ha', hst'⟩
      cases hx'.symm.trans ha'
      rw [hst] at hst'
      cases hst'
    have hserving := h.rouse.advance hy hp
    refine ⟨_, (reaches_rouse hw h).tail (.act hy), hserving, ?_, ?_⟩
    · exact (quiet_rouse x).trans (h.rouse.quiet_advance hnt hy)
    · exact attempt?_of_phase ha hserving.aborted
  · exact absurd hwake (Nat.not_le.2 hlt)

theorem Serving.settles_now (h : x.Serving) {a a' : Applying} {s : Site μ κ Engine}
    {status : Status} {conclusion : Conclusion} (hx : x.attempt? = some a)
    (hst : a.stage = .trying) (hs : a.step x.site = .next s a')
    (ha : a'.stage = .reporting status conclusion) :
    ∃ y, Reaches world x y ∧ y.Serving ∧ Reads x y ∧
      y.settled.length = x.settled.length + 1 ∧
      (y.started, y.site.broker) = (x.started.settle x.site.broker a.command).2 := by
  have hy := advance?_next hx hs
  have hset : a.settlement? x.site = some (a.command, status) := by
    obtain ⟨_, _, _, _, _⟩ := a'
    cases ha
    rw [Applying.settlement?, hst, hs]
  have hlen := congrArg List.length (settled_take hx s (withAttempt x.phase a'))
  rw [hset] at hlen
  rcases settle_cases h.orderly h.written hy with ⟨hsame, -⟩ | ⟨b, _, hb, -, -, hnew, -, hafter⟩
  · rw [hsame] at hlen
    exact absurd hlen (by simp)
  · cases hx.symm.trans hb
    refine ⟨_, .single (.act hy), h.advance hy (withAttempt_inService hx a').1, reads_advance hy,
      ?_, hafter.symm⟩
    rw [hnew, List.length_cons]

theorem Serving.exists_settled_of_trying (hw : Passing world) {x : Lifetime μ κ Engine}
    (h : x.Serving) (hb : x.site.broker.available = true) {a : Applying}
    (hx : x.attempt? = some a) (hst : a.stage = .trying) :
    ∃ y, Reaches world x y ∧ y.Serving ∧ Reads x y ∧
      y.settled.length = x.settled.length + 1 ∧
      (y.started, y.site.broker) = (x.started.settle x.site.broker a.command).2 := by
  rcases Applying.trying_cases hst x.site with
    ⟨effect, -, hs⟩ | ⟨f, state, wake, hr, hg, hs⟩ | ⟨f, -, -, hs⟩
  · exact h.settles_now hx hst hs rfl
  · obtain ⟨limit, mode, rest, hh⟩ := h.orderly.handling (phase_attempt? hx)
    have hord := h.written.ordinary hh.view_applied
    have hanswer : (x.started.settle x.site.broker a.command).1 = .error f :=
      (congrArg Prod.fst (settle_attempt hord x)).trans hr
    have hkind : f.kind = .transient := by
      rcases Catalog.settle_kind hb hanswer with hk | ⟨hk, -⟩
      · exact absurd (.inl hk) hg
      · exact hk
    -- a counted failure uses up a retry, and the policy has not given up: the retries left go down
    have hle : a.transient + 1 ≤ x.policy.maxRetries := by
      refine Nat.not_lt.1 fun hlt => hg (.inr ⟨hkind, ?_⟩)
      rw [hkind]
      exact hlt
    have hy := advance?_next hx hs
    obtain ⟨hp, ha⟩ :=
      withAttempt_inService hx { a.count f.kind with stage := .pausing wake }
    have hserving := h.advance hy hp
    have hset := settled_take hx ((a.attempt x.site).2.setState state)
      (withAttempt x.phase { a.count f.kind with stage := .pausing wake })
    have hnone : a.settlement? x.site = none := by rw [Applying.settlement?, hst, hs]
    rw [hnone] at hset
    rcases settle_cases h.orderly h.written hy with ⟨-, hbr, hc⟩ | ⟨b, _, -, -, -, hnew, -, -⟩
    · obtain ⟨z, hz, hzs, hq, hza⟩ := hserving.tries_again hw
        (attempt?_of_phase ha hserving.aborted) rfl
      have hzb : z.site.broker = x.site.broker := hq.broker.trans hbr
      have hpol : z.policy = x.policy := hq.policy.trans (reads_advance hy).policy
      have hcount : a.count f.kind = { a with transient := a.transient + 1 } := by
        rw [hkind]
        rfl
      rw [hcount] at hza
      obtain ⟨w, hzw, hws, hread, hlen, hafter⟩ :=
        exists_settled_of_trying hw hzs (hzb ▸ hb) hza rfl
      refine ⟨w, (Relation.ReflTransGen.head (.act hy) hz).trans hzw, hws,
        ((reads_advance hy).trans hq.toReads).trans hread, ?_, ?_⟩
      · rw [hlen, hq.settled, hset]
        rfl
      · rw [hafter, hq.started, hc, hzb]
    · rw [hset] at hnew
      exact absurd (congrArg List.length hnew) (by simp)
  · exact h.settles_now hx hst hs rfl
termination_by x.policy.maxRetries - a.transient
decreasing_by
  rw [hpol]
  show x.policy.maxRetries - (a.transient + 1) < x.policy.maxRetries - a.transient
  omega

theorem Orderly.settled_le {ε : Type} {x : Lifetime μ κ ε} (h : x.Orderly) :
    x.applied ≤ x.settled.length ∧ x.settled.length ≤ LawfulLog.size x.site.log := by
  obtain ⟨_, settled, _, hacc, hle, hle', -⟩ := h.2.halting
  have hlen := hacc.settled.length_eq
  refine ⟨hlen ▸ Nat.le_trans hle hle', ?_⟩
  rw [hlen]
  cases hn : settled with
  | zero => exact Nat.zero_le _
  | succ k =>
    have hk : k < settled := by omega
    obtain ⟨c, _, -, hv, -⟩ := hacc.settled.getElem? hk
    exact LawfulLog.lt_size hv

theorem Serving.exists_settled (hw : Passing world) (h : x.Serving)
    (hb : x.site.broker.available = true)
    (hlt : x.settled.length < LawfulLog.size x.site.log) :
    ∃ y command, x.view x.settled.length = some command ∧ Reaches world x y ∧ y.Serving ∧
      Reads x y ∧ y.settled.length = x.settled.length + 1 ∧
      (y.started, y.site.broker) = (x.started.settle x.site.broker command).2 := by
  obtain ⟨z, hz, hzs, hq, hend⟩ := h.exists_pause hw
  rcases hend with ⟨a, ha, hst⟩ | hd
  · obtain ⟨limit, mode, rest, hh⟩ := hzs.orderly.handling (phase_attempt? ha)
    obtain ⟨y, hy, hys, hread, hlen, hafter⟩ :=
      hzs.exists_settled_of_trying hw (hq.broker ▸ hb) ha hst
    have hv := hh.view_offset
    rw [← hh.settled_length (by simp [Applying.Waiting, hst]), hq.view, hq.settled] at hv
    refine ⟨y, a.command, hv, hz.trans hy, hys, hq.toReads.trans hread, ?_, ?_⟩
    · rw [hlen, hq.settled]
    · rw [hafter, hq.started, hq.broker]
  · have hle := hzs.orderly.settled_le.1
    rw [hd.applied, hq.size, hq.settled] at hle
    exact absurd hlt (Nat.not_lt.2 hle)

theorem Serving.exists_drained (hw : Passing world) {x : Lifetime μ κ Engine} (h : x.Serving)
    (hb : x.site.broker.available = true) :
    ∃ y, Reaches world x y ∧ y.Serving ∧ Reads x y ∧ y.Drained := by
  by_cases hlt : x.settled.length < LawfulLog.size x.site.log
  · obtain ⟨y, command, -, hy, hys, hread, hlen, hafter⟩ := h.exists_settled hw hb hlt
    have hyb : y.site.broker.available = true := by
      rw [(Prod.mk.inj hafter).2, Catalog.settle, Plan.settle_broker hb, Broker.available_assign]
      exact hb
    obtain ⟨z, hz, hzs, hread', hd⟩ := exists_drained hw hys hyb
    exact ⟨z, hy.trans hz, hzs, hread.trans hread', hd⟩
  · obtain ⟨z, hz, hzs, hq, hend⟩ := h.exists_pause hw
    rcases hend with ⟨a, ha, hst⟩ | hd
    · obtain ⟨limit, mode, rest, hh⟩ := hzs.orderly.handling (phase_attempt? ha)
      have hv := hh.view_offset
      rw [← hh.settled_length (by simp [Applying.Waiting, hst])] at hv
      have hlt' := LawfulLog.lt_size hv
      rw [hq.size, hq.settled] at hlt'
      exact absurd hlt' hlt
    · exact ⟨z, hz, hzs, hq.toReads, hd⟩
termination_by LawfulLog.size x.site.log - x.settled.length
decreasing_by
  rw [hread.size]
  omega

end Lifetime

end StatementLog
