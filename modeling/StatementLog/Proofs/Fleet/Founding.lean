import Mathlib.Data.List.Induction
import Mathlib.Data.List.FinRange
import Mathlib.Data.List.Perm.Subperm
import StatementLog.Proofs.Runner.Served
import StatementLog.Proofs.Statement.Naming
import StatementLog.Script

/-!
Nodes that start side by side before one log. Each looks whether the log is empty and only then,
some steps later, writes the statement that creates the processing-log stream; nothing holds the
others back in between.
-/

namespace StatementLog

variable {μ κ ε : Type}

def Starting.Allows (config : Config) (s : Site μ κ ε) (found wrote : Prop) : Starting → Prop
  | checking _ | probing _ => s.node.config = config ∧ ¬ wrote
  | provisioning _ | creatingTopic => s.node.config = config ∧ found ∧ ¬ wrote
  | enqueuing (.gate _) | enqueuing (.testing _) => False
  | enqueuing (.naming request) =>
    request.text = config.processingLogStatement ∧ found ∧ ¬ wrote
  | enqueuing (.appending id (.writing id' payload)) =>
    id' = id ∧ payload.statement = config.processingLogStatement ∧
      Statement.readId payload.statement = .ok id ∧ found ∧ ¬ wrote
  | enqueuing (.appending _ (.announcing _)) | enqueuing (.marking _) => True
  | replaying _ | opening _ | launching _ | refusing _ => True

def Starting.isProbing : Starting → Bool
  | probing _ => true
  | _ => false

structure Record.Creates (config : Config) (r : Record) : Prop where
  id : Statement.readId config.processingLogStatement = .ok r.id
  statement : r.payload.statement = config.processingLogStatement

def Starting.record? (s : Site μ κ ε) : Starting → Option Record
  | enqueuing (.appending _ (.writing id payload)) => some ⟨id, payload, s.origin + s.now⟩
  | _ => none

inductive Starting.Tends [CommandLog μ κ] (config : Config) (serves : List Record → μ → κ → Prop)
    (rs : List Record) (s s' : Site μ κ ε) (found wrote : Prop) (stage : Starting)
    (next : Option Starting) : List Record → Prop where
  | look : s.Looks serves rs s' → stage.record? s = none →
      (∀ stage' ∈ next, stage'.Allows config s' (found ∨ stage.isProbing = true ∧ rs = []) wrote) →
      Tends config serves rs s s' found wrote stage next rs
  | write {r : Record} : r.Creates config → stage.record? s = some r →
      CommandLog.append s.log s.node.client r = (.ok rs.length, s'.log) →
      (∀ k, serves rs s.log k → serves (rs ++ [r]) s'.log k) →
      s'.node = s.node → found → ¬ wrote →
      (∀ stage' ∈ next, ∀ found wrote, stage'.Allows config s' found wrote) →
      Tends config serves rs s s' found wrote stage next (rs ++ [r])

namespace Starting

variable [CommandLog μ κ] [Executor ε] {config : Config} {serves : List Record → μ → κ → Prop}
  {look : Option Nat} {rs : List Record} {s s' : Site μ κ ε} {found wrote : Prop}
  {stage stage' : Starting} {time : Int64} {task : Nat}

omit [Executor ε] in
theorem Tends.rest {next : Option Starting} (h : serves rs s.log s.node.client)
    (hr : stage.record? s = none)
    (hn : ∀ stage' ∈ next,
      stage'.Allows config s (found ∨ stage.isProbing = true ∧ rs = []) wrote) :
    Tends config serves rs s s found wrote stage next rs :=
  .look (.of_log rfl h) hr hn

omit [CommandLog μ κ] [Executor ε] in
theorem Allows.mono {found' wrote' : Prop} (hs : s'.node.config = s.node.config)
    (hf : found → found') (hw : wrote' → wrote) (h : stage.Allows config s found wrote) :
    stage.Allows config s' found' wrote' := by
  cases stage with
  | checking parts | probing broker => exact ⟨hs.trans h.1, mt hw h.2⟩
  | provisioning broker | creatingTopic => exact ⟨hs.trans h.1, hf h.2.1, mt hw h.2.2⟩
  | enqueuing stage =>
    cases stage with
    | gate request | testing request => exact h.elim
    | naming request => exact ⟨h.1, hf h.2.1, mt hw h.2.2⟩
    | appending id stage =>
      cases stage with
      | writing id' payload =>
        exact ⟨h.1, h.2.1, h.2.2.1, hf h.2.2.2.1, mt hw h.2.2.2.2⟩
      | announcing offset => trivial
    | marking slot => trivial
  | _ => trivial

theorem writing_tends (hlog : Service serves look) (h : serves rs s.log s.node.client)
    (ht : s.origin + s.now = time.toInt) {id id' : CommandId} {payload : Payload}
    (ha : (enqueuing (.appending id (.writing id' payload))).Allows config s found wrote) :
    ((enqueuing (.appending id (.writing id' payload))).step task s).Leads fun s' next =>
      ∃ rs', Tends config serves rs s s' found wrote
        (enqueuing (.appending id (.writing id' payload))) next rs' := by
  obtain ⟨rfl, htext, hid, hf, hw⟩ := ha
  have hr : Record.Readable ⟨id', payload, s.origin + s.now⟩ :=
    ⟨Statement.readId_entity hid, ht ▸ time.le_toInt, ht ▸ time.toInt_lt⟩
  obtain ⟨m', happ, hkept, -⟩ := hlog.append h hr
  simp only [step, Submitting.step, Appending.step, happ]
  exact ⟨_, .write ⟨htext ▸ hid, htext⟩ rfl happ hkept rfl hf hw
    fun stage' hn _ _ => by cases hn; trivial⟩

theorem enqueuing_tends (hlog : Service serves look) (h : serves rs s.log s.node.client)
    (ht : s.origin + s.now = time.toInt) {stage : Submitting}
    (ha : (enqueuing stage).Allows config s found wrote) :
    ((enqueuing stage).step task s).Leads fun s' next =>
      ∃ rs', Tends config serves rs s s' found wrote (enqueuing stage) next rs' := by
  cases stage with
  | gate request | testing request => exact ha.elim
  | naming request =>
    obtain ⟨htext, hf, hw⟩ := ha
    simp only [step, Submitting.step]
    cases hid : Statement.readId request.text with
    | error fault => exact ⟨_, .rest h rfl fun stage' hn => by cases hn⟩
    | ok id =>
      refine ⟨_, .rest h rfl fun stage' hn => ?_⟩
      cases hn
      exact ⟨rfl, htext, hid, .inl hf, hw⟩
  | appending id stage =>
    cases stage with
    | writing id' payload => exact writing_tends hlog h ht ha
    | announcing offset =>
      obtain ⟨hkept, -⟩ := hlog.announce h
      exact ⟨_, .look ⟨hkept, hkept _ h⟩ rfl fun stage' hn => by cases hn; trivial⟩
  | marking slot => exact ⟨_, .look (.of_log rfl h) rfl fun stage' hn => by cases hn; trivial⟩

theorem step_tends (hlog : Service serves look) (h : serves rs s.log s.node.client)
    (ht : s.origin + s.now = time.toInt) (ha : stage.Allows config s found wrote) (task : Nat) :
    (stage.step task s).Leads fun s' next =>
      ∃ rs', Tends config serves rs s s' found wrote stage next rs' := by
  cases stage with
  | checking parts =>
    rw [step]
    split
    · exact ⟨_, .rest h rfl fun stage' hn => by cases hn⟩
    · split <;> refine ⟨_, .rest h rfl fun stage' hn => ?_⟩ <;> cases hn
      · exact ha
      · trivial
  | probing broker =>
    obtain ⟨hend, hlooks, hnode⟩ := Site.endPosition_looks hlog h
    rcases he : s.endPosition with ⟨r, s'⟩
    rw [he] at hend hlooks hnode
    cases hend
    simp only [step, he]
    split <;> refine ⟨_, .look hlooks rfl fun stage' hn => ?_⟩ <;> cases hn
    · next hz =>
      exact ⟨(congrArg Node.config hnode).trans ha.1,
        .inr ⟨rfl, List.eq_nil_of_length_eq_zero hz⟩, ha.2⟩
    · trivial
  | provisioning broker =>
    rw [step]
    split
    · exact ⟨_, .rest h rfl fun stage' hn => by cases hn; trivial⟩
    · split <;> refine ⟨_, .rest h rfl fun stage' hn => ?_⟩ <;> cases hn
      · trivial
      · exact ⟨congrArg Config.processingLogStatement ha.1, .inl ha.2.1, ha.2.2⟩
      · exact ⟨ha.1, .inl ha.2.1, ha.2.2⟩
  | creatingTopic =>
    rw [step]
    split <;> refine ⟨_, .look (.of_log rfl h) rfl fun stage' hn => ?_⟩ <;> cases hn
    · trivial
    · exact ⟨congrArg Config.processingLogStatement ha.1, .inl ha.2.1, ha.2.2⟩
  | enqueuing stage => exact enqueuing_tends hlog h ht ha
  | replaying stage =>
    have hs := stage.step_looks hlog h task
    rw [step]
    cases hm : stage.step task s with
    | wait => trivial
    | next s' stage' =>
      rw [hm] at hs
      exact ⟨_, .look hs rfl fun stage'' hn => by cases hn; trivial⟩
    | done s' r =>
      rw [hm] at hs
      rcases r with e | ⟨n⟩ | e | _
      · exact ⟨_, .look hs rfl fun stage' hn => by cases hn⟩
      · exact ⟨_, .look hs rfl fun stage' hn => by cases hn; trivial⟩
      · exact ⟨_, .look hs rfl fun stage' hn => by cases hn; trivial⟩
      · exact ⟨_, .look hs rfl fun stage' hn => by cases hn⟩
  | opening replayed => exact ⟨_, .look (.of_log rfl h) rfl fun stage' hn => by cases hn; trivial⟩
  | launching replayed => exact ⟨_, .look (.of_log rfl h) rfl fun stage' hn => by cases hn⟩
  | refusing error => exact ⟨_, .look (.of_log rfl h) rfl fun stage' hn => by cases hn⟩

end Starting

/-- What a member itself holds of the log, the broker and the time is out of date; the cohort has
them. -/
structure Cohort (μ κ ε : Type) where
  log : μ
  broker : Broker
  now : Nat := 0
  time : Int64 := 0
  members : List (Station μ κ ε)

namespace Cohort

inductive Event where
  | turn (member : Nat)
  | clock (now : Nat) (time : Int64)
  | broker (broker : Broker)

def view (x : Cohort μ κ ε) (m : Station μ κ ε) : Site μ κ ε :=
  { m.site with log := x.log, broker := x.broker, now := x.now, origin := x.time.toInt - x.now }

def put (x : Cohort μ κ ε) (i : Nat) (m : Station μ κ ε) : Cohort μ κ ε :=
  { x with log := m.site.log, broker := m.site.broker, members := x.members.set i m }

variable [CommandLog μ κ] [Executor ε]

def turn? (x : Cohort μ κ ε) (i : Nat) : Option (Cohort μ κ ε) := do
  let m ← x.members[i]?
  return x.put i (← (m.move (x.view m)).advance?)

def act (x : Cohort μ κ ε) : Event → Cohort μ κ ε
  | .turn i => (x.turn? i).getD x
  | .clock now time => { x with now, time }
  | .broker broker => { x with broker }

def play (x : Cohort μ κ ε) (es : List Event) : Cohort μ κ ε :=
  es.foldl act x

def Holds (serves : List Record → μ → κ → Prop) (rs : List Record) (x : Cohort μ κ ε) : Prop :=
  ∀ m ∈ x.members, serves rs x.log m.site.node.client

/-- The member is about to look whether the log is empty and finds it so; there is no record on
it. -/
def Tests (serves : List Record → μ → κ → Prop) (x : Cohort μ κ ε) (i : Nat) : Prop :=
  (∃ m stage, x.members[i]? = some m ∧ m.start = some stage ∧ stage.isProbing = true ∧
    (x.view m).endPosition.1 = .ok 0) ∧ x.Holds serves []

/-- In its turn the member hands the record to the log, which takes it at the offset. -/
def Appends (x : Cohort μ κ ε) (n : Nat) (r : Record) (i : Nat) : Prop :=
  ∃ m stage y, x.members[i]? = some m ∧ m.start = some stage ∧ stage.record? (x.view m) = some r ∧
    x.turn? i = some y ∧ CommandLog.append x.log m.site.node.client r = (.ok n, y.log)

/-- At this place among the events, it is the member's turn and so it is with it. -/
def At (x : Cohort μ κ ε) (es : List Event) (t i : Nat) (so : Cohort μ κ ε → Nat → Prop) : Prop :=
  es[t]? = some (.turn i) ∧ so (x.play (es.take t)) i

def Finds (serves : List Record → μ → κ → Prop) (x : Cohort μ κ ε) (es : List Event)
    (t i : Nat) : Prop :=
  x.At es t i (Tests serves)

def Writes (x : Cohort μ κ ε) (es : List Event) (t i n : Nat) (r : Record) : Prop :=
  x.At es t i fun y => y.Appends n r

structure Fresh (config : Config) (serves : List Record → μ → κ → Prop) (x : Cohort μ κ ε) :
    Prop where
  holds : x.Holds serves []
  config : ∀ m ∈ x.members, m.site.node.config = config
  start : ∀ m ∈ x.members, ∃ parts, m.start = some (.checking parts)

structure Ledger (config : Config) (serves : List Record → μ → κ → Prop) (x : Cohort μ κ ε)
    (es : List Event) (rs : List Record) : Prop where
  writer {n : Nat} {r : Record} : rs[n]? = some r → ∃ t i, x.Writes es t i n r
  record {t i n : Nat} {r : Record} : x.Writes es t i n r → rs[n]? = some r
  found {t i n : Nat} {r : Record} : x.Writes es t i n r → ∃ t' < t, x.Finds serves es t' i
  alone {t t' i n n' : Nat} {r r' : Record} :
    x.Writes es t i n r → x.Writes es t' i n' r' → t' = t
  once {t t' i i' n : Nat} {r r' : Record} :
    x.Writes es t i n r → x.Writes es t' i' n r' → t' = t
  creates : ∀ r ∈ rs, r.Creates config

structure Founded (config : Config) (serves : List Record → μ → κ → Prop) (x : Cohort μ κ ε)
    (es : List Event) (rs : List Record) : Prop extends x.Ledger config serves es rs where
  holds : (x.play es).Holds serves rs
  stage {i : Nat} {m : Station μ κ ε} : (x.play es).members[i]? = some m → ∀ stage ∈ m.start,
    stage.Allows config m.site (∃ t, x.Finds serves es t i) (∃ t n r, x.Writes es t i n r)

variable {config : Config} {serves : List Record → μ → κ → Prop} {look : Option Nat}
  {rs rs' : List Record} {x y : Cohort μ κ ε} {k m : Station μ κ ε} {es : List Event} {e : Event}
  {t i n : Nat} {r : Record} {so : Cohort μ κ ε → Nat → Prop}

theorem turn?_cases (h : x.turn? i = some y) :
    ∃ k m, x.members[i]? = some k ∧ (k.move (x.view k)).advance? = some m ∧ y = x.put i m := by
  obtain ⟨k, hk, h⟩ := Option.bind_eq_some_iff.1 h
  obtain ⟨m, hm, h⟩ := Option.bind_eq_some_iff.1 h
  cases h
  exact ⟨k, m, hk, hm, rfl⟩

theorem play_concat (x : Cohort μ κ ε) (es : List Event) (e : Event) :
    x.play (es ++ [e]) = (x.play es).act e := by
  rw [play, List.foldl_append]
  rfl

theorem at_concat : x.At (es ++ [e]) t i so ↔
    x.At es t i so ∨ t = es.length ∧ e = .turn i ∧ so (x.play es) i := by
  rcases Nat.lt_trichotomy t es.length with ht | rfl | ht
  · rw [At, At, List.getElem?_append_left ht, List.take_append_of_le_length (Nat.le_of_lt ht)]
    simp [Nat.ne_of_lt ht]
  · rw [At, At, List.getElem?_concat_length, List.take_left, List.getElem?_eq_none (Nat.le_refl _)]
    simp
  · rw [At, At, List.getElem?_eq_none (by rw [List.length_append]; exact ht),
      List.getElem?_eq_none (Nat.le_of_lt ht)]
    simp [Nat.ne_of_gt ht]

theorem At.concat (h : x.At es t i so) (e : Event) : x.At (es ++ [e]) t i so :=
  at_concat.2 (.inl h)

theorem At.lt (h : x.At es t i so) : t < es.length :=
  (List.getElem?_eq_some_iff.1 h.1).1

theorem Appends.unique {n' : Nat} {r' : Record} (h : x.Appends n r i) (h' : x.Appends n' r' i) :
    n' = n ∧ r' = r := by
  obtain ⟨m, stage, y, hm, hs, hr, hy, ha⟩ := h
  obtain ⟨_, _, _, hm', hs', hr', hy', ha'⟩ := h'
  cases hm.symm.trans hm'
  cases hs.symm.trans hs'
  cases hr.symm.trans hr'
  cases hy.symm.trans hy'
  cases ha.symm.trans ha'
  exact ⟨rfl, rfl⟩

theorem Writes.unique {i' n' : Nat} {r' : Record} (h : x.Writes es t i n r)
    (h' : x.Writes es t i' n' r') : i' = i ∧ n' = n := by
  cases h.1.symm.trans h'.1
  exact ⟨rfl, (h.2.unique h'.2).1⟩

theorem Ledger.rests (h : x.Ledger config serves es rs)
    (hw : ∀ {t i n r}, x.Writes (es ++ [e]) t i n r → x.Writes es t i n r) :
    x.Ledger config serves (es ++ [e]) rs where
  writer hn := by
    obtain ⟨t, i, hn⟩ := h.writer hn
    exact ⟨t, i, hn.concat e⟩
  record hn := h.record (hw hn)
  found hn := by
    obtain ⟨t', ht, hfound⟩ := h.found (hw hn)
    exact ⟨t', ht, hfound.concat e⟩
  alone hn hn' := h.alone (hw hn) (hw hn')
  once hn hn' := h.once (hw hn) (hw hn')
  creates := h.creates

theorem Ledger.writes (h : x.Ledger config serves es rs)
    (ha : (x.play es).Appends rs.length r i) (hc : r.Creates config)
    (hfound : ∃ t, x.Finds serves es t i) (hfirst : ¬ ∃ t n r, x.Writes es t i n r) :
    x.Ledger config serves (es ++ [.turn i]) (rs ++ [r]) := by
  have hnew {t j n : Nat} {r' : Record} (hn : x.Writes (es ++ [.turn i]) t j n r') :
      x.Writes es t j n r' ∨ t = es.length ∧ j = i ∧ n = rs.length ∧ r' = r := by
    refine (at_concat.1 hn).imp_right ?_
    rintro ⟨rfl, he, hn⟩
    cases he
    exact ⟨rfl, rfl, ha.unique hn⟩
  have hlt {t j n : Nat} {r' : Record} (hn : x.Writes es t j n r') : n < rs.length :=
    (List.getElem?_eq_some_iff.1 (h.record hn)).1
  refine ⟨fun {n r'} hn => ?_, fun {t j n r'} hn => ?_, fun {t j n r'} hn => ?_,
    fun {t t' j n n' r' r''} hn hn' => ?_, fun {t t' j j' n r' r''} hn hn' => ?_, fun r' hr' => ?_⟩
  · rcases Nat.lt_or_ge n rs.length with hlen | hlen
    · rw [List.getElem?_append_left hlen] at hn
      obtain ⟨t, j, hn⟩ := h.writer hn
      exact ⟨t, j, hn.concat _⟩
    · obtain ⟨rfl, rfl⟩ : n = rs.length ∧ r' = r := by
        have hend := (List.getElem?_eq_some_iff.1 hn).1
        rw [List.length_append, List.length_singleton] at hend
        obtain rfl : n = rs.length := by omega
        rw [List.getElem?_concat_length] at hn
        exact ⟨rfl, (Option.some.inj hn).symm⟩
      exact ⟨es.length, i, at_concat.2 (.inr ⟨rfl, rfl, ha⟩)⟩
  · rcases hnew hn with hn | ⟨-, -, rfl, rfl⟩
    · rw [List.getElem?_append_left (hlt hn)]
      exact h.record hn
    · exact List.getElem?_concat_length
  · rcases hnew hn with hn | ⟨rfl, rfl, -, -⟩
    · obtain ⟨t', ht, hfound⟩ := h.found hn
      exact ⟨t', ht, hfound.concat _⟩
    · obtain ⟨t', hfound⟩ := hfound
      exact ⟨t', hfound.lt, hfound.concat _⟩
  · rcases hnew hn with hn | ⟨rfl, rfl, -, -⟩ <;> rcases hnew hn' with hn' | ⟨rfl, hj, -, -⟩
    · exact h.alone hn hn'
    · exact absurd ⟨t, n, r', hj ▸ hn⟩ hfirst
    · exact absurd ⟨t', n', r'', hn'⟩ hfirst
    · rfl
  · rcases hnew hn with hn | ⟨rfl, -, rfl, -⟩ <;> rcases hnew hn' with hn' | ⟨rfl, -, he, -⟩
    · exact h.once hn hn'
    · exact absurd (hlt hn) (he ▸ Nat.lt_irrefl _)
    · exact absurd (hlt hn') (Nat.lt_irrefl _)
    · rfl
  · rcases List.mem_append.1 hr' with hr' | hr'
    · exact h.creates r' hr'
    · exact List.mem_singleton.1 hr' ▸ hc

theorem Founded.rests (h : x.Founded config serves es rs) (hl : y.log = (x.play es).log)
    (hm : y.members = (x.play es).members) (hy : x.play (es ++ [e]) = y)
    (hw : ∀ {t i n r}, x.Writes (es ++ [e]) t i n r → x.Writes es t i n r) :
    x.Founded config serves (es ++ [e]) rs := by
  refine ⟨h.toLedger.rests hw, ?_, fun {i m} hi stage hs => ?_⟩
  · intro m hmem
    rw [hy, hm] at hmem
    rw [hy, hl]
    exact h.holds m hmem
  · rw [hy, hm] at hi
    refine (h.stage hi stage hs).mono rfl ?_ ?_
    · rintro ⟨t, hfound⟩
      exact ⟨t, hfound.concat e⟩
    · rintro ⟨t, n, r, hn⟩
      exact ⟨t, n, r, hw hn⟩

theorem Founded.put (h : x.Founded config serves es rs) (hi : (x.play es).members[i]? = some k)
    (hy : x.play (es ++ [.turn i]) = (x.play es).put i m)
    (hledger : x.Ledger config serves (es ++ [.turn i]) rs')
    (hkept : ∀ c, serves rs (x.play es).log c → serves rs' m.site.log c)
    (hown : serves rs' m.site.log m.site.node.client)
    (hstage : ∀ stage ∈ m.start, stage.Allows config m.site
      (∃ t, x.Finds serves (es ++ [.turn i]) t i)
      (∃ t n r, x.Writes (es ++ [.turn i]) t i n r)) :
    x.Founded config serves (es ++ [.turn i]) rs' := by
  have hlt := (List.getElem?_eq_some_iff.1 hi).1
  refine ⟨hledger, ?_, fun {j m'} hm' stage hs => ?_⟩
  · rw [hy]
    intro m' hm'
    rcases List.mem_or_eq_of_mem_set hm' with hm' | rfl
    · exact hkept _ (h.holds m' hm')
    · exact hown
  · rw [hy] at hm'
    by_cases hj : i = j
    · subst hj
      have hm' : ((x.play es).members.set i m)[i]? = some m' := hm'
      rw [List.getElem?_set_self hlt] at hm'
      cases hm'
      exact hstage stage hs
    · have hm' : ((x.play es).members.set i m)[j]? = some m' := hm'
      rw [List.getElem?_set_ne hj] at hm'
      refine (h.stage hm' stage hs).mono rfl ?_ ?_
      · rintro ⟨t, hfound⟩
        exact ⟨t, hfound.concat _⟩
      · rintro ⟨t, n, r, hn⟩
        rcases at_concat.1 hn with hn | ⟨-, he, -⟩
        · exact ⟨t, n, r, hn⟩
        · cases he
          exact absurd rfl hj

theorem Founded.turn (hlog : Service serves look) (h : x.Founded config serves es rs)
    (hy : (x.play es).turn? i = some y) :
    ∃ rs', x.Founded config serves (es ++ [.turn i]) rs' := by
  have hplay : x.play (es ++ [.turn i]) = y := by rw [play_concat, act, hy, Option.getD_some]
  obtain ⟨k, m, hk, hm, rfl⟩ := turn?_cases hy
  have hserves : serves rs ((x.play es).view k).log ((x.play es).view k).node.client :=
    h.holds k (List.mem_of_getElem? hk)
  have hkeep (hs : ((x.play es).view k).Looks serves rs m.site)
      (hr : ∀ n r, ¬ (x.play es).Appends n r i)
      (hstage : ∀ stage ∈ m.start, stage.Allows config m.site
        (∃ t, x.Finds serves (es ++ [.turn i]) t i) (∃ t n r, x.Writes es t i n r)) :
      x.Founded config serves (es ++ [.turn i]) rs := by
    have hw {t j n : Nat} {r : Record} (hn : x.Writes (es ++ [.turn i]) t j n r) :
        x.Writes es t j n r := by
      rcases at_concat.1 hn with hn | ⟨-, he, hn⟩
      · exact hn
      · cases he
        exact absurd hn (hr n r)
    refine h.put hk hplay (h.toLedger.rests hw) hs.others hs.own fun stage hstart => ?_
    refine (hstage stage hstart).mono rfl id ?_
    rintro ⟨t, n, r, hn⟩
    exact ⟨t, n, r, hw hn⟩
  cases hstart : k.start with
  | none =>
    obtain ⟨hlife, hnone, -⟩ := Station.started_advance (x := k.move ((x.play es).view k)) hstart hm
    refine ⟨rs, hkeep (Lifetime.advance?_looks hlog hserves hlife) ?_ fun stage hs => ?_⟩
    · rintro n r ⟨k', stage, -, hk', hs, -⟩
      cases hk.symm.trans hk'
      cases hstart.symm.trans hs
    · rw [hnone] at hs
      cases hs
  | some stage =>
    have hallows : stage.Allows config ((x.play es).view k) (∃ t, x.Finds serves es t i)
        (∃ t n r, x.Writes es t i n r) := (h.stage hk stage hstart).mono rfl id id
    have hlead := Starting.step_tends hlog hserves
      (Int.sub_add_cancel (x.play es).time.toInt (x.play es).now) hallows k.life.task
    obtain ⟨⟨rs', hs⟩, -⟩ :=
      Station.starting_leads (x := k.move ((x.play es).view k)) hstart hlead hm
    -- the ledger grows in this turn only if the member hands its record to the log
    cases hs with
    | look hs hr hnext =>
      refine ⟨rs, hkeep hs ?_ fun stage' hstage' => (hnext stage' hstage').mono rfl ?_ id⟩
      · rintro n r ⟨k', stage', -, hk', hs', hr', -⟩
        cases hk.symm.trans hk'
        cases hstart.symm.trans hs'
        cases hr.symm.trans hr'
      · rintro (⟨t, hfound⟩ | ⟨hprobing, rfl⟩)
        · exact ⟨t, hfound.concat _⟩
        · obtain ⟨hend, -⟩ := Site.endPosition_looks hlog hserves
          exact ⟨es.length,
            at_concat.2 (.inr ⟨rfl, rfl, ⟨k, stage, hk, hstart, hprobing, hend⟩, h.holds⟩)⟩
    | @write r hc hr happ hkept hsite hfound hw hnext =>
      have ha : (x.play es).Appends rs.length r i := ⟨k, stage, _, hk, hstart, hr, hy, happ⟩
      refine ⟨rs ++ [r], h.put hk hplay (h.toLedger.writes ha hc hfound hw) hkept ?_
        fun stage' hstage' => hnext stage' hstage' _ _⟩
      rw [hsite]
      exact hkept _ hserves

theorem Fresh.founded (h : x.Fresh config serves) : x.Founded config serves [] [] := by
  have hnone {t i : Nat} {so : Cohort μ κ ε → Nat → Prop} : ¬ x.At [] t i so := fun hn =>
    absurd hn.lt (Nat.not_lt_zero _)
  refine ⟨⟨nofun, fun hn => absurd hn hnone, fun hn => absurd hn hnone,
    fun hn => absurd hn hnone, fun hn => absurd hn hnone, by simp⟩, h.holds,
    fun {i m} hm stage hs => ?_⟩
  have hm := List.mem_of_getElem? hm
  obtain ⟨parts, hstart⟩ := h.start m hm
  cases hstart.symm.trans hs
  exact ⟨h.config m hm, fun ⟨_, _, _, hn⟩ => hnone hn⟩

theorem Fresh.play (hlog : Service serves look) (h : x.Fresh config serves) (es : List Event) :
    ∃ rs, x.Founded config serves es rs := by
  induction es using List.reverseRecOn with
  | nil => exact ⟨[], h.founded⟩
  | append_singleton es e ih =>
    obtain ⟨rs, hx⟩ := ih
    have hsilent (hl : (x.play (es ++ [e])).log = (x.play es).log)
        (hm : (x.play (es ++ [e])).members = (x.play es).members)
        (hr : ∀ i, e = .turn i → (x.play es).turn? i = none) :
        x.Founded config serves (es ++ [e]) rs := by
      refine hx.rests hl hm rfl fun hn => ?_
      rcases at_concat.1 hn with hn | ⟨-, he, -, -, _, -, -, -, hy, -⟩
      · exact hn
      · cases (hr _ he).symm.trans hy
    cases e with
    | clock now time =>
      exact ⟨rs, hsilent (by rw [play_concat]; rfl) (by rw [play_concat]; rfl) nofun⟩
    | broker broker =>
      exact ⟨rs, hsilent (by rw [play_concat]; rfl) (by rw [play_concat]; rfl) nofun⟩
    | turn i =>
      cases hy : (x.play es).turn? i with
      | none =>
        have hplay : x.play (es ++ [.turn i]) = x.play es := by
          rw [play_concat, act, hy, Option.getD_none]
        refine ⟨rs, hsilent (by rw [hplay]) (by rw [hplay]) fun j he => ?_⟩
        cases he
        exact hy
      | some y => exact hx.turn hlog hy

theorem Ledger.length_le (h : x.Ledger config serves es rs) {finders : List Nat}
    (hf : ∀ t i, x.Finds serves es t i → i ∈ finders) : rs.length ≤ finders.length := by
  have hwriter (n : Fin rs.length) : ∃ i ∈ finders, ∃ t, x.Writes es t i n rs[n] := by
    obtain ⟨t, i, hn⟩ := h.writer (List.getElem?_eq_getElem n.isLt)
    obtain ⟨t', -, hfound⟩ := h.found hn
    exact ⟨i, hf t' i hfound, t, hn⟩
  choose i hi t hn using hwriter
  -- a finder that had written two of them would have had one turn for both
  have hinj : Function.Injective i := by
    intro a b hab
    have ht : t b = t a := h.alone (hn a) (hab ▸ hn b)
    exact Fin.ext ((hn a).unique (ht ▸ hn b)).2.symm
  calc rs.length = (List.ofFn i).length := List.length_ofFn.symm
    _ ≤ finders.length := (List.subperm_of_subset (List.nodup_ofFn.2 hinj) fun j hj => by
      obtain ⟨n, rfl⟩ := List.mem_ofFn.1 hj
      exact hi n).length_le

/-- However the starts of some nodes with one configuration are interleaved before a log that is
empty at first, all that it comes to hold are records that create the processing-log stream. Each of
them is appended in a turn of its own, by a node whose own look at the log has found it empty before,
when there was no record on it, and no node appends two. So there are no more such records than nodes
that looked before the first of them was there. -/
theorem one_creation_for_each_that_found_none (hlog : Service serves look)
    (h : x.Fresh config serves) (es : List Event) :
    ∃ rs : List Record, (x.play es).Holds serves rs ∧ (∀ r ∈ rs, r.Creates config) ∧
      (∀ n (hn : n < rs.length), ∃! t, ∃ i, x.Writes es t i n rs[n]) ∧
      (∀ t i n r, x.Writes es t i n r → rs[n]? = some r ∧ (∃ t' < t, x.Finds serves es t' i) ∧
        ∀ t' n' r', x.Writes es t' i n' r' → t' = t) ∧
      ∀ finders : List Nat, (∀ t i, x.Finds serves es t i → i ∈ finders) →
        rs.length ≤ finders.length := by
  obtain ⟨rs, hx⟩ := h.play hlog es
  refine ⟨rs, hx.holds, hx.creates, fun n hn => ?_, fun t i n r hn =>
    ⟨hx.record hn, hx.found hn, fun t' n' r' hn' => hx.alone hn hn'⟩, fun finders hf =>
    hx.toLedger.length_le hf⟩
  obtain ⟨t, i, ht⟩ := hx.writer (List.getElem?_eq_getElem hn)
  refine ⟨t, ⟨i, ht⟩, ?_⟩
  rintro t' ⟨i', ht'⟩
  exact hx.once ht ht'

def founding : Config where
  serviceId := "it_"
  processingLog := true

def founder : Station Tape TapeClient Script where
  life := .ofSite 0 ((Lifetime.onTape [] {} {}).mapNode fun n => { n with config := founding })
  start := some (.checking {})

def pair : Cohort Tape TapeClient Script where
  log := {}
  broker := {}
  members := [founder, founder]

def overlapping : List Event :=
  (List.replicate 6 [Event.turn 0, .turn 1]).flatten

theorem pair_fresh : pair.Fresh founding Tape.Serves := by
  have hmem {m : Station Tape TapeClient Script} (hm : m ∈ pair.members) : m = founder := by
    simpa [pair] using hm
  refine ⟨fun m hm => ?_, fun m hm => ?_, fun m hm => ?_⟩ <;> rw [hmem hm]
  · exact ⟨rfl, by simp, rfl, rfl, Nat.le_refl _⟩
  · rfl
  · exact ⟨{}, rfl⟩

set_option maxRecDepth 10000 in
theorem overlapping_run :
    (pair.play overlapping).broker.available = true ∧
      (pair.play overlapping).members.length = 2 ∧
      (pair.play overlapping).log.lines.length = 2 := by
  decide +kernel

theorem overlapping_holds {rs : List Record} (h : (pair.play overlapping).Holds Tape.Serves rs) :
    rs.length = 2 := by
  obtain ⟨-, hmembers, hlines⟩ := overlapping_run
  have hs := h _ (List.getElem_mem (n := 0) (hmembers ▸ Nat.zero_lt_two))
  rw [hs.lines, List.length_map] at hlines
  exact hlines

theorem one_creation_for_each_that_found_none_pair :
    ∃ rs, (pair.play overlapping).Holds Tape.Serves rs ∧ rs.length = 2 ∧
      (∀ r ∈ rs, r.Creates founding) ∧ ∀ i < 2, ∃ t n r, pair.Writes overlapping t i n r ∧
        ∃ t' < t, pair.Finds Tape.Serves overlapping t' i := by
  obtain ⟨rs, hholds, hcreates, hturns, hwrites, -⟩ :=
    one_creation_for_each_that_found_none Tape.service pair_fresh overlapping
  have hlen := overlapping_holds hholds
  have hmember {t i n : Nat} {r : Record} (hn : pair.Writes overlapping t i n r) :
      i = 0 ∨ i = 1 := by
    have hturn := List.mem_of_getElem? hn.1
    simp only [overlapping, List.mem_flatten, List.mem_replicate] at hturn
    obtain ⟨_, ⟨-, rfl⟩, hturn⟩ := hturn
    simpa using hturn
  obtain ⟨t₀, ⟨i₀, h₀⟩, -⟩ := hturns 0 (by omega)
  obtain ⟨t₁, ⟨i₁, h₁⟩, -⟩ := hturns 1 (by omega)
  -- of two records of one member the turns would be the same, and so would be the offsets
  have hne : i₀ ≠ i₁ := by
    intro he
    obtain ⟨-, -, halone⟩ := hwrites t₀ i₀ 0 _ h₀
    have ht := halone t₁ 1 _ (he ▸ h₁)
    exact absurd (h₀.unique (ht ▸ h₁)).2 Nat.one_ne_zero
  refine ⟨rs, hholds, hlen, hcreates, fun i hi => ?_⟩
  have hfound₀ := (hwrites t₀ i₀ 0 _ h₀).2.1
  have hfound₁ := (hwrites t₁ i₁ 1 _ h₁).2.1
  have hm₀ := hmember h₀
  have hm₁ := hmember h₁
  obtain rfl | rfl : i = i₀ ∨ i = i₁ := by omega
  · exact ⟨t₀, 0, _, h₀, hfound₀⟩
  · exact ⟨t₁, 1, _, h₁, hfound₁⟩

/-- Both nodes have found the log empty, and it comes to hold two records that create the
processing-log stream. -/
theorem created_twice :
    founding.validate = .ok () ∧ founding.processingLog = true ∧
      pair.Fresh founding Tape.Serves ∧ pair.broker.available = true ∧
      (pair.play overlapping).broker.available = true ∧
      ∃ rs, (pair.play overlapping).Holds Tape.Serves rs ∧ rs.length = 2 ∧
        ∀ r ∈ rs, r.Creates founding := by
  obtain ⟨rs, hy⟩ := pair_fresh.play Tape.service overlapping
  exact ⟨by decide +kernel, rfl, pair_fresh, rfl, overlapping_run.1, rs, hy.holds,
    overlapping_holds hy.holds, hy.creates⟩

end Cohort

end StatementLog
