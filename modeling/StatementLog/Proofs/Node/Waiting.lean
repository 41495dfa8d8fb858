import StatementLog.Engine
import StatementLog.Proofs.Node.Admission
import StatementLog.Proofs.Runner.Verdict

namespace StatementLog

variable {μ κ ε : Type} [CommandLog μ κ] [LawfulLog μ]

structure Lodged (m : μ) (text : String) (slot : Slot) : Prop where
  named : Statement.readId text = .ok slot.id
  below : slot.offset < LawfulLog.size m
  stands {c : Command} : command? m slot.offset = some c →
    c.id = slot.id ∧ c.payload.statement = text

theorem Lodged.grows {m m' : μ} {text : String} {slot : Slot} (h : Lodged m text slot)
    (hg : Grows m m') : Lodged m' text slot where
  named := h.named
  below := Nat.lt_of_lt_of_le h.below hg.size_le
  stands hc := h.stands ((hg.kept h.below).symm.trans hc)

theorem Lodged.of_append [WritableLog μ] {m m' : μ} {k : κ} {r : Record} {n : Nat}
    (h : CommandLog.append m k r = (.ok n, m'))
    (hn : Statement.readId r.payload.statement = .ok r.id) :
    Lodged m' r.payload.statement ⟨r.id, n⟩ := by
  obtain ⟨-, hsize, -, hview⟩ := WritableLog.append_ok h
  refine ⟨hn, ?_, fun hc => ?_⟩
  · rw [hsize]
    exact Nat.lt_succ_self n
  · rw [hview _ hc]
    exact ⟨rfl, rfl⟩

section

variable (m : μ) (t : Tracker) (published : List (Slot × Status)) (r : Request)
  (offset : Option Nat)

def Submitting.Tends : Submitting → Prop
  | .gate r' | .testing r' | .naming r' => r' = r ∧ offset = none
  | .appending id (.writing id' payload) =>
    id' = id ∧ payload.statement = r.text ∧ Statement.readId r.text = .ok id ∧ offset = none
  | .appending id (.announcing n) => offset = some n ∧ Lodged m r.text ⟨id, n⟩
  | .marking slot => offset = some slot.offset ∧ Lodged m r.text slot

def Following.slot : Following → Slot
  | .registering slot _ => slot
  | .testing handle _ => handle.slot
  | .awaiting _ (.arriving handle _) => handle.slot
  | .awaiting _ (.waiting handle _) => handle.slot

def Following.waiter? : Following → Option Nat
  | .registering _ _ => none
  | .testing handle _ => some handle.waiter
  | .awaiting _ (.arriving handle _) => some handle.waiter
  | .awaiting _ (.waiting handle _) => some handle.waiter

structure Following.Tends (stage : Following) : Prop where
  offset : offset = some stage.slot.offset
  lodged : Lodged m r.text stage.slot
  waiter {w : Nat} : stage.waiter? = some w → t.Stands published w stage.slot

def Executing.Tends : Executing → Prop
  | .submitting stage _ => stage.Tends m r offset
  | .following stage => stage.Tends m t published r offset

def Answered (status : Status) : Prop :=
  ∃ slot, offset = some slot.offset ∧ Lodged m r.text slot ∧ (slot, status) ∈ published ∧
    status.isTerminal = true

def Progress.Tends : Progress → Prop
  | .busy (.executing stage) => stage.Tends m t published r offset
  | .busy _ => False
  | .answered (.ok (.status status)) => Answered m published r offset status
  | .answered _ => True

end

section

variable {m m' : μ} {t t' : Tracker} {published published' : List (Slot × Status)} {r : Request}
  {offset : Option Nat} (hg : Grows m m')
include hg

theorem Submitting.Tends.mono {stage : Submitting} (h : stage.Tends m r offset) :
    stage.Tends m' r offset := by
  cases stage with
  | gate _ | testing _ | naming _ => exact h
  | appending id stage =>
    cases stage with
    | writing _ _ => exact h
    | announcing n => exact ⟨h.1, h.2.grows hg⟩
  | marking slot => exact ⟨h.1, h.2.grows hg⟩

variable (ht : ∀ w slot, t.Stands published w slot → t'.Stands published' w slot)
  (hp : ∀ p ∈ published, p ∈ published')
include ht

theorem Executing.Tends.mono {stage : Executing} (h : stage.Tends m t published r offset) :
    stage.Tends m' t' published' r offset := by
  cases stage with
  | submitting stage _ => exact Submitting.Tends.mono hg h
  | following stage =>
    have h : stage.Tends m t published r offset := h
    exact ⟨h.offset, h.lodged.grows hg, fun hw => ht _ _ (h.waiter hw)⟩

include hp

theorem Progress.Tends.mono {p : Progress} (h : p.Tends m t published r offset) :
    p.Tends m' t' published' r offset := by
  unfold Tends at h ⊢
  split at h
  · exact Executing.Tends.mono hg ht h
  · exact h.elim
  · obtain ⟨slot, ho, hl, hs, hterm⟩ := h
    exact ⟨slot, ho, hl.grows hg, hp _ hs, hterm⟩
  · trivial

end

section

variable {s s' : Site μ κ ε} {published : List (Slot × Status)} {r : Request}
  {offset : Option Nat}

theorem Submitting.tends_next [WritableLog μ] {stage stage' : Submitting}
    (h : stage.Tends s.log r offset) (hb : LawfulLog.size s'.log ≤ Word.max)
    (hs : stage.step s = .next s' stage') :
    stage'.Tends s'.log r (offset.or stage'.appended?) := by
  cases stage with
  | gate r' =>
    obtain ⟨rfl, rfl⟩ := h
    rw [step] at hs
    split at hs <;> cases hs
    exact ⟨rfl, rfl⟩
  | testing r' =>
    obtain ⟨rfl, rfl⟩ := h
    rw [step] at hs
    split at hs <;> cases hs
    exact ⟨rfl, rfl⟩
  | naming r' =>
    obtain ⟨rfl, rfl⟩ := h
    rw [step] at hs
    split at hs <;> cases hs
    next hid => exact ⟨rfl, rfl, hid, rfl⟩
  | appending id stage =>
    cases stage with
    | writing id' payload =>
      obtain ⟨rfl, htext, hid, rfl⟩ := h
      rw [step, Appending.step] at hs
      split at hs
      · cases hs
      · next n log happ =>
        cases hs
        refine ⟨rfl, ?_⟩
        rw [← htext] at hid ⊢
        exact .of_append happ hid
    | announcing n =>
      obtain ⟨rfl, hl⟩ := h
      cases hs
      exact ⟨rfl, hl.grows (grows_announce hb)⟩
  | marking slot => cases hs

theorem Submitting.tends_done {stage : Submitting} {slot : Slot}
    (h : stage.Tends s.log r offset) (hs : stage.step s = .done s' (.ok slot)) :
    offset = some slot.offset ∧ Lodged s'.log r.text slot := by
  cases stage with
  | gate r' =>
    rw [step] at hs
    split at hs <;> cases hs
  | testing r' =>
    rw [step] at hs
    split at hs <;> cases hs
  | naming r' =>
    rw [step] at hs
    split at hs <;> cases hs
  | appending id stage =>
    obtain ⟨s'', r', -, hs⟩ := Move.within_done hs
    cases r' <;> cases hs
  | marking slot =>
    cases hs
    exact h

theorem Following.tends_next {stage stage' : Following} (ht : s.tracker.Honest published)
    (h : stage.Tends s.log s.tracker published r offset) (hs : stage.step s = .next s' stage') :
    stage'.Tends s'.log s'.tracker published r offset := by
  obtain ⟨ho, hl, hw⟩ := h
  cases stage with
  | registering slot timeout =>
    obtain ⟨hslot, hstands⟩ := ht.register_stands slot
    rcases hreg : s.tracker.register slot with ⟨handle, t⟩
    rw [hreg] at hslot hstands
    rw [step, hreg] at hs
    cases hs
    cases hslot
    refine ⟨ho, hl, ?_⟩
    rintro w ⟨⟩
    exact hstands
  | testing handle timeout =>
    rw [step] at hs
    split at hs <;> cases hs
    · exact ⟨ho, hl, hw⟩
    · exact ⟨ho, hl, hw⟩
  | awaiting stopped stage =>
    rcases Move.within_next hs with ⟨stage', hm, rfl⟩ | ⟨s'', r', -, hm⟩
    · cases stage with
      | arriving handle timeout =>
        cases hm
        exact ⟨ho, hl, hw⟩
      | waiting handle deadline =>
        rw [Awaiting.step.eq_def] at hm
        simp only at hm
        split at hm
        · cases hm
        · cases hm
        · split at hm <;> cases hm
    · cases hm

theorem Following.conclude_ok {stopped : Bool} {result : Except Error Status} {status : Status}
    (h : conclude stopped result = .ok status) : result = .ok status := by
  unfold conclude at h
  split at h
  · split at h <;> cases h
  · exact h

theorem Following.tends_done {stage : Following} {status : Status}
    (h : stage.Tends s.log s.tracker published r offset)
    (hs : stage.step s = .done s' (.ok status)) : Answered s'.log published r offset status := by
  cases stage with
  | registering slot timeout => cases hs
  | testing handle timeout =>
    rw [step] at hs
    split at hs <;> cases hs
  | awaiting stopped stage =>
    obtain ⟨s'', result, hm, hfin⟩ := Move.within_done hs
    injection hfin with hsite hres
    rw [conclude_ok hres] at hm
    cases stage with
    | arriving handle timeout => cases hm
    | waiting handle deadline =>
      rw [Awaiting.step.eq_def] at hm
      simp only at hm
      split at hm
      · next hout =>
        cases hm
        cases hsite
        exact ⟨handle.slot, h.offset, h.lodged, (h.waiter rfl).outcome hout⟩
      · cases hm
      · split at hm <;> cases hm

variable [WritableLog μ]

theorem Executing.tends_next {stage stage' : Executing} (ht : s.tracker.Honest published)
    (h : stage.Tends s.log s.tracker published r offset)
    (hb : LawfulLog.size s'.log ≤ Word.max) (hs : stage.step s = .next s' stage') :
    stage'.Tends s'.log s'.tracker published r
      (offset.or (Activity.executing stage').appended?) := by
  cases stage with
  | submitting stage timeout =>
    rcases Move.within_next hs with ⟨stage', hm, rfl⟩ | ⟨s'', result, hm, hfin⟩
    · exact Submitting.tends_next h hb hm
    · cases result with
      | error e => cases hfin
      | ok slot =>
        cases hfin
        obtain ⟨ho, hl⟩ := Submitting.tends_done h hm
        refine ⟨?_, hl, nofun⟩
        rw [ho]
        rfl
  | following stage =>
    rcases Move.within_next hs with ⟨stage', hm, rfl⟩ | ⟨s'', result, -, hfin⟩
    · have h := Following.tends_next ht h hm
      refine ⟨?_, h.lodged, h.waiter⟩
      rw [h.offset]
      rfl
    · cases hfin

omit [WritableLog μ] in
theorem Executing.tends_done {stage : Executing} {status : Status}
    (h : stage.Tends s.log s.tracker published r offset)
    (hs : stage.step s = .done s' (.ok status)) : Answered s'.log published r offset status := by
  cases stage with
  | submitting stage timeout =>
    obtain ⟨s'', result, -, hfin⟩ := Move.within_done hs
    cases result <;> cases hfin
  | following stage =>
    obtain ⟨s'', result, hm, hfin⟩ := Move.within_done hs
    cases hfin
    exact Following.tends_done h hm

end

theorem Activity.appended?_next [WritableLog μ] [Executor ε] {s s' : Site μ κ ε} {a a' : Activity}
    {task n : Nat} (hc : a.Calls) (h : a.step task s = .next s' a') (hn : a'.appended? = some n) :
    n = LawfulLog.size s.log ∧ LawfulLog.size s'.log = n + 1 := by
  obtain ⟨stage', hstage, hn⟩ := Option.bind_eq_some_iff.1 hn
  rcases submission?_next hc h hstage with ⟨stage, -, hs⟩ | ⟨request, rfl⟩
  · cases stage with
    | gate request =>
      rw [Submitting.step] at hs
      split at hs <;> cases hs
      cases hn
    | testing request =>
      rw [Submitting.step] at hs
      split at hs <;> cases hs
      cases hn
    | naming request =>
      rw [Submitting.step] at hs
      split at hs <;> cases hs
      cases hn
    | appending id stage =>
      cases stage with
      | writing id' payload =>
        rw [Submitting.step, Appending.step] at hs
        split at hs
        · cases hs
        · next happ =>
          cases hs
          cases hn
          obtain ⟨hn, hsize, -⟩ := WritableLog.append_ok happ
          exact ⟨hn, hsize⟩
      | announcing n =>
        cases hs
        cases hn
    | marking slot => cases hs
  · cases hn

namespace Station

variable {x y : Station μ κ ε}

structure Attended (x : Station μ κ ε) : Prop where
  tracker : x.site.tracker.Honest x.life.published
  tends {c : Caller} : c ∈ x.callers → ∀ request timeout,
    c.call = .executing (.submitting (.gate request) timeout) →
      c.progress.Tends x.site.log x.site.tracker x.life.published request c.offset
  below {c : Caller} : c ∈ x.callers → ∀ n, c.offset = some n → n < LawfulLog.size x.site.log
  apart {i j : Nat} {c d : Caller} {n : Nat} : x.callers[i]? = some c → x.callers[j]? = some d →
    c.offset = some n → d.offset = some n → i = j

theorem Fresh.attended (h : x.Fresh) : x.Attended := by
  obtain ⟨capacity, ht⟩ := h.tracker
  have hc := h.callers
  refine ⟨?_, ?_, ?_, ?_⟩
  · rw [ht]
    exact Tracker.ofCapacity_honest capacity _
  · rw [hc]
    exact fun hm => nomatch hm
  · rw [hc]
    exact fun hm => nomatch hm
  · rw [hc]
    exact fun hm => nomatch hm

structure Upholds (x y : Station μ κ ε) : Prop where
  log : Grows x.site.log y.site.log
  published : ∀ p ∈ x.life.published, p ∈ y.life.published
  honest : x.site.tracker.Honest x.life.published → y.site.tracker.Honest y.life.published
  stands : ∀ w slot, x.site.tracker.Stands x.life.published w slot →
    y.site.tracker.Stands y.life.published w slot

theorem Upholds.of_use (hg : Grows x.site.log y.site.log)
    (hp : y.life.published = x.life.published)
    (hu : Tracker.Use x.site.tracker y.site.tracker) : x.Upholds y := by
  refine ⟨hg, ?_, ?_, ?_⟩
  · rw [hp]
    exact fun _ h => h
  · rw [hp]
    exact hu.honest
  · rw [hp]
    exact fun _ _ => hu.stands

theorem Attended.of_callers (h : x.Attended) (hu : x.Upholds y) (hc : y.callers = x.callers) :
    y.Attended := by
  refine ⟨hu.honest h.tracker, ?_, ?_, ?_⟩
  · rw [hc]
    exact fun hm request timeout hcall =>
      (h.tends hm request timeout hcall).mono hu.log hu.stands hu.published
  · rw [hc]
    exact fun hm n hn => Nat.lt_of_lt_of_le (h.below hm n hn) hu.log.size_le
  · rw [hc]
    exact h.apart

theorem Attended.accept (h : x.Attended) (call : Activity) : (x.accept call).Attended := by
  have hold {i : Nat} {c : Caller} {n : Nat} (hi : (x.accept call).callers[i]? = some c)
      (hn : c.offset = some n) : x.callers[i]? = some c := by
    rcases Nat.lt_or_ge i x.callers.length with hlt | hge
    · rwa [Station.accept, List.getElem?_append_left hlt] at hi
    · rw [Station.accept, List.getElem?_append_right hge] at hi
      cases List.mem_singleton.1 (List.mem_of_getElem? hi)
      cases hn
  refine ⟨h.tracker, ?_, ?_, fun hi hj hn hm => h.apart (hold hi hn) (hold hj hm) hn hm⟩
  · intro c hc request timeout hcall
    rcases List.mem_append.1 hc with hc | hc
    · exact h.tends hc request timeout hcall
    · cases List.mem_singleton.1 hc
      cases hcall
      exact ⟨rfl, rfl⟩
  · intro c hc n hn
    rcases List.mem_append.1 hc with hc | hc
    · exact h.below hc n hn
    · cases List.mem_singleton.1 hc
      cases hn

theorem Attended.put (h : x.Attended) (hu : x.Upholds y) {i : Nat} {c c' : Caller}
    (hi : x.callers[i]? = some c) (hc : y.callers = x.callers.set i c')
    (hcall : c'.call = c.call)
    (ht : ∀ request timeout, c.call = .executing (.submitting (.gate request) timeout) →
      c'.progress.Tends y.site.log y.site.tracker y.life.published request c'.offset)
    (ho : ∀ n, c'.offset = some n → c.offset = some n ∨
      n = LawfulLog.size x.site.log ∧ LawfulLog.size y.site.log = n + 1) : y.Attended := by
  have hold {d : Caller} {n : Nat} (hd : d ∈ x.callers) (hn : d.offset = some n) :
      n < LawfulLog.size y.site.log :=
    Nat.lt_of_lt_of_le (h.below hd n hn) hu.log.size_le
  have hlt : i < x.callers.length := (List.getElem?_eq_some_iff.1 hi).1
  have hnew {j : Nat} {d : Caller} (hd : y.callers[j]? = some d) :
      (j = i ∧ d = c') ∨ j ≠ i ∧ x.callers[j]? = some d := by
    rw [hc, List.getElem?_set, if_pos hlt] at hd
    split at hd
    · next he =>
      exact .inl ⟨he.symm, (Option.some.inj hd).symm⟩
    · next hne => exact .inr ⟨fun he => hne he.symm, hd⟩
  have hclash {j : Nat} {d : Caller} {n : Nat} (hne : j ≠ i) (hd : x.callers[j]? = some d)
      (hn : c'.offset = some n) (hdn : d.offset = some n) : False := by
    rcases ho n hn with hn | ⟨hn, -⟩
    · exact hne (h.apart hd hi hdn hn)
    · rw [hn] at hdn
      exact Nat.lt_irrefl _ (h.below (List.mem_of_getElem? hd) _ hdn)
  refine ⟨hu.honest h.tracker, ?_, ?_, ?_⟩
  · intro d hd request timeout hdcall
    rw [hc] at hd
    rcases List.mem_or_eq_of_mem_set hd with hd | rfl
    · exact (h.tends hd request timeout hdcall).mono hu.log hu.stands hu.published
    · exact ht request timeout (hcall.symm.trans hdcall)
  · intro d hd n hn
    rw [hc] at hd
    rcases List.mem_or_eq_of_mem_set hd with hd | rfl
    · exact hold hd hn
    · rcases ho n hn with hn | ⟨-, hsize⟩
      · exact hold (List.mem_of_getElem? hi) hn
      · rw [hsize]
        exact Nat.lt_succ_self n
  · intro j k d e n hj hk hdn hen
    rcases hnew hj with ⟨rfl, rfl⟩ | ⟨hj, hd⟩
    · rcases hnew hk with ⟨rfl, -⟩ | ⟨hk, he⟩
      · rfl
      · exact (hclash hk he hdn hen).elim
    · rcases hnew hk with ⟨rfl, rfl⟩ | ⟨-, he⟩
      · exact (hclash hj hd hen hdn).elim
      · exact h.apart hd he hdn hen

variable [Executor ε]

theorem Upholds.of_advance (hy : x.life.advance? = some y.life)
    (hb : LawfulLog.size y.site.log ≤ Word.max) : x.Upholds y := by
  obtain ⟨hview, hsize, -⟩ := Lifetime.advance?_view hy
  obtain ⟨ps, hp, ht⟩ := Lifetime.advance?_published hy
  have ht : y.site.tracker = ps.foldr (fun p t => t.publish p.1 p.2) x.site.tracker := ht
  refine ⟨⟨Nat.le_of_eq hsize.symm, fun _ => congrFun hview _, hb⟩, ?_, ?_, ?_⟩
  · rw [hp]
    exact fun p hm => List.mem_append_right _ hm
  · rw [hp, ht]
    exact fun h => h.publish_all ps
  · rw [hp, ht]
    exact fun _ _ h => h.publish_all ps

variable [WritableLog μ]

theorem Attended.step (h : x.Attended) (hx : x.Sound) (hs : Step x y) : y.Attended := by
  cases hs with
  | own hy hb =>
    obtain ⟨hc, -, hl⟩ := advance?_cases hx.synchronous hy
    refine h.of_callers ?_ hc
    rcases hl with hl | ⟨hl, hs | ⟨-, hs⟩⟩
    · exact .of_advance hl hb
    · exact .of_use (hs hb).log (by rw [hl]) (hs hb).tracker
    · refine .of_use ?_ (by rw [hl]) ?_
      · rw [hs] at hb ⊢
        exact .refl hb
      · rw [hs]
        exact .none _
  | call _ => exact h.accept _
  | serve i hy hb =>
    obtain ⟨c, c', hi, hc, hcall, hl, -, hs, a, ha, hc'⟩ := serve?_bears hx hy
    have hmem := List.mem_of_getElem? hi
    have hu : x.Upholds y := .of_use (hs hb).log (by rw [hl]) (hs hb).tracker
    have htends : ∀ request timeout, c.call = .executing (.submitting (.gate request) timeout) →
        ∃ stage, a = .executing stage ∧
          stage.Tends x.site.log x.site.tracker x.life.published request c.offset := by
      intro request timeout hcall
      have ht := h.tends hmem request timeout hcall
      rw [ha] at ht
      cases a with
      | executing stage => exact ⟨stage, rfl, ht⟩
      | _ => exact ht.elim
    have hpub : y.life.published = x.life.published := by rw [hl]
    refine h.put hu hi hc hcall ?_ ?_
    · intro request timeout hexec
      obtain ⟨stage, rfl, ht⟩ := htends request timeout hexec
      rw [hpub]
      rcases hc' with ⟨a', hm, rfl, -⟩ | ⟨reply, hm, rfl⟩
      · rcases Move.within_next hm with ⟨stage', hstep, rfl⟩ | ⟨s, result, -, hfin⟩
        · exact Executing.tends_next h.tracker ht hb hstep
        · cases hfin
      · obtain ⟨s, result, hstep, hfin⟩ := Move.within_done hm
        cases hfin
        cases result with
        | error e => trivial
        | ok status => exact Executing.tends_done ht hstep
    · intro n hn
      rcases hc' with ⟨a', hm, rfl, -⟩ | ⟨reply, -, rfl⟩
      · have hn : c.offset.or a'.appended? = some n := hn
        rcases Option.or_eq_some_iff.1 hn with hn | ⟨-, hn⟩
        · exact .inl hn
        · exact .inr (Activity.appended?_next (hx.calls c hmem a ha) hm hn)
      · exact .inl hn
  | abroad hs =>
    refine h.of_callers (.of_use hs.log rfl ?_) rfl
    have ht : (x.move _).site.tracker = x.site.tracker := hs.tracker
    rw [ht]
    exact .none _

theorem Attended.reaches (h : x.Attended) (hx : x.Sound) (hr : Reaches x y) : y.Attended := by
  induction hr with
  | refl => exact h
  | tail hr hs ih => exact ih.step (life_reaches hx hr).1 hs

omit [Executor ε] [WritableLog μ] in
theorem Fresh.faithful (h : x.Fresh) : x.life.Faithful := by
  obtain ⟨task, hl⟩ := h.life
  rw [hl]
  exact fun c status hc => nomatch hc

/-- Whoever submits a statement and waits gets a status only if it is final, and the only one that
the node's own runner published for the record of this very statement, at the offset that the
caller's own append returned: it says what the last application of the statement came to. No other
caller has its record at this offset. -/
theorem execution_answers_own_statement (hfresh : x.Fresh) (hr : Reaches x y) {i timeout : Nat}
    {c : Caller} {request : Request} {status : Status} (hi : y.callers[i]? = some c)
    (hcall : c.call = .executing (.submitting (.gate request) timeout))
    (hanswer : c.progress = .answered (.ok (.status status))) :
    (status.kind = .success ∨ status.kind = .error) ∧
      ∃ n command, c.offset = some n ∧ y.life.view n = some command ∧
        command.payload.statement = request.text ∧
        Statement.readId request.text = .ok command.id ∧
        terminals y.life.published ⟨command.id, n⟩ = [status] ∧
        CameTo y.site.calls command status ∧
        ∀ j d, y.callers[j]? = some d → j ≠ i → d.offset ≠ some n := by
  have ha := hfresh.attended.reaches hfresh.sound hr
  have hl := (life_reaches hfresh.sound hr).2
  have hmem := List.mem_of_getElem? hi
  have ht := ha.tends hmem request timeout hcall
  rw [hanswer] at ht
  obtain ⟨slot, ho, hlodged, hpub, hterm⟩ := ht
  have hclear : ∃ limit, y.life.Cleared limit := by
    rcases hfresh.guarded.reaches hfresh.sound hfresh.fate hr with h | ⟨-, hout⟩
    · exact h
    · rw [(hout c hmem).offset] at ho
      cases ho
  have hfaith : y.life.Faithful := hfresh.fate.faithful_reaches hfresh.faithful hl hclear
  obtain ⟨limit, hclear⟩ := hclear
  obtain ⟨command, hview, hid, hsingle, hcame⟩ := hclear.came_to hfaith hpub hterm
  obtain ⟨-, htext⟩ := hlodged.stands hview
  refine ⟨?_, slot.offset, command, ho, hview, htext, ?_, ?_, hcame, ?_⟩
  · unfold Status.isTerminal at hterm
    cases hk : status.kind with
    | success => exact .inl rfl
    | error => exact .inr rfl
    | _ =>
      rw [hk] at hterm
      cases hterm
  · rw [hid]
    exact hlodged.named
  · rw [hid]
    exact hsingle
  · exact fun j d hj hne hd => hne (ha.apart hj hi hd ho)

omit [WritableLog μ] in
def serves? (i : Nat) : Nat → Station μ κ ε → Option (Station μ κ ε)
  | 0, x => some x
  | n + 1, x => (x.serve? i).bind fun y =>
    if LawfulLog.size y.site.log ≤ Word.max then serves? i n y else none

omit [WritableLog μ] in
theorem serves?_run {r : Station μ κ ε → Station μ κ ε → Prop} {i : Nat}
    (hr : ∀ {x y : Station μ κ ε}, x.serve? i = some y → LawfulLog.size y.site.log ≤ Word.max → r x y)
    {n : Nat} (h : serves? i n x = some y) : Relation.ReflTransGen r x y := by
  induction n generalizing x with
  | zero =>
    cases h
    exact .refl
  | succ n ih =>
    obtain ⟨z, hz, hy⟩ := Option.bind_eq_some_iff.1 h
    split at hy
    · next hb => exact .head (hr hz hb) (ih hy)
    · cases hy

omit [WritableLog μ] in
theorem serves?_reaches {i n : Nat} (h : serves? i n x = some y) : Reaches x y :=
  serves?_run (.serve i) h

end Station

def Caller.executed? (c : Caller) : Option (Request × Status) :=
  match c.call, c.progress with
  | .executing (.submitting (.gate request) _), .answered (.ok (.status status)) =>
    some (request, status)
  | _, _ => none

theorem Caller.of_executed? {c : Caller} {request : Request} {status : Status}
    (h : c.executed? = some (request, status)) :
    (∃ timeout, c.call = .executing (.submitting (.gate request) timeout)) ∧
      c.progress = .answered (.ok (.status status)) := by
  unfold executed? at h
  split at h
  · next hcall hprogress =>
    cases h
    exact ⟨⟨_, hcall⟩, hprogress⟩
  · cases h

namespace Station

def rival : Activity :=
  .executing (.submitting (.gate { text := "CREATE STREAM A;" }) 100)

def rivals (x : Station Tape TapeClient Engine) : Station Tape TapeClient Engine :=
  (x.accept rival).accept rival

def success : Status :=
  .success "Stream created"

def rejection : Status :=
  .error "Cannot add stream 'A': A stream with the same name already exists"

theorem reaches_rivals (x : Station Tape TapeClient Engine) : Reaches x x.rivals := by
  have hc : rival.IsCall := trivial
  exact .tail (.single (.call hc)) (.call hc)

set_option maxRecDepth 10000 in
theorem execution_answers_own_statement_rivals :
    ∃ (y : Station Tape TapeClient Engine) (n m : Nat),
      Reaches (onTape [] (.ofTopics ["A"]) {}) y ∧ n ≠ m ∧
        (∃ command, y.life.view n = some command ∧
          terminals y.life.published ⟨command.id, n⟩ = [success] ∧
          CameTo y.site.calls command success) ∧
        ∃ command, y.life.view m = some command ∧
          terminals y.life.published ⟨command.id, m⟩ = [rejection] ∧
          CameTo y.site.calls command rejection := by
  have hrun : ((advances? 19 (onTape [] (.ofTopics ["A"]) ({} : Engine))).bind fun x =>
      (serves? 0 9 x.rivals).bind fun x => (serves? 1 9 x).bind fun x =>
        (advances? 21 x).bind fun x => (serves? 0 1 x).bind fun x =>
          (serves? 1 1 x).map fun y => decide (y.callers.map Caller.executed? =
            [some ({ text := "CREATE STREAM A;" }, success),
              some ({ text := "CREATE STREAM A;" }, rejection)])) =
                some true := by
    decide +kernel
  obtain ⟨x₁, h₁, hrun⟩ := Option.bind_eq_some_iff.1 hrun
  obtain ⟨x₂, h₂, hrun⟩ := Option.bind_eq_some_iff.1 hrun
  obtain ⟨x₃, h₃, hrun⟩ := Option.bind_eq_some_iff.1 hrun
  obtain ⟨x₄, h₄, hrun⟩ := Option.bind_eq_some_iff.1 hrun
  obtain ⟨x₅, h₅, hrun⟩ := Option.bind_eq_some_iff.1 hrun
  obtain ⟨y, hy, hrun⟩ := Option.map_eq_some_iff.1 hrun
  have hreach : Reaches (onTape [] (.ofTopics ["A"]) {}) y :=
    ((((((advances?_reaches h₁).trans (reaches_rivals x₁)).trans (serves?_reaches h₂)).trans
      (serves?_reaches h₃)).trans (advances?_reaches h₄)).trans (serves?_reaches h₅)).trans
        (serves?_reaches hy)
  obtain ⟨c, tail, hcallers, hc, htail⟩ := List.map_eq_cons_iff.1 (of_decide_eq_true hrun)
  obtain ⟨d, tail, rfl, hd, -⟩ := List.map_eq_cons_iff.1 htail
  obtain ⟨⟨_, hccall⟩, hcanswer⟩ := Caller.of_executed? hc
  obtain ⟨⟨_, hdcall⟩, hdanswer⟩ := Caller.of_executed? hd
  have hfresh : (onTape [] (.ofTopics ["A"]) ({} : Engine)).Fresh := onTape_fresh (by decide) _ _
  have hci : y.callers[0]? = some c := by rw [hcallers]; rfl
  have hdi : y.callers[1]? = some d := by rw [hcallers]; rfl
  obtain ⟨-, n, command, -, hview, -, -, hterm, hcame, hother⟩ :=
    execution_answers_own_statement hfresh hreach hci hccall hcanswer
  obtain ⟨-, m, command', hm, hview', -, -, hterm', hcame', -⟩ :=
    execution_answers_own_statement hfresh hreach hdi hdcall hdanswer
  refine ⟨y, n, m, hreach, ?_, ⟨command, hview, hterm, hcame⟩, command', hview', hterm', hcame'⟩
  rintro rfl
  exact hother 1 d hdi (by decide) hm

end Station

end StatementLog
