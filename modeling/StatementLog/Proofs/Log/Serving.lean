import Mathlib.Data.List.Induction
import StatementLog.Proofs.Log.Clientele
import StatementLog.Proofs.Log.Service

namespace StatementLog

variable {μ κ ε : Type}

def Progress.announces : Progress → Bool
  | .busy (.appending (.announcing _)) => true
  | _ => false

def Demand.takesTurn : Demand → Bool
  | poll _ | rewind => true
  | _ => false

section

variable [CommandLog μ κ] {serves : List Record → μ → κ → Prop} {look : Option Nat}

inductive Feat (serves : List Record → μ → κ → Prop) (look : Option Nat) (rs : List Record)
    (s s' : Site μ κ ε) (d : Demand) (p : Progress) : Progress → List Record → Prop where
  | rest {p' : Progress} : (∀ k, serves rs s.log k → serves rs s'.log k) →
      serves rs s'.log s'.node.client →
      (look = none → ∀ k, CommandLog.epoch s'.log k = CommandLog.epoch s.log k) →
      (d.takesTurn = false → s'.node = s.node) → p.announces = false → p'.announces = false →
      Feat serves look rs s s' d p p' rs
  | write {r : Record} {n : Nat} : d.takesTurn = false →
      (∀ k, serves rs s.log k → serves (rs ++ [r]) s'.log k) →
      (look = none → ∀ k, CommandLog.epoch s'.log k = CommandLog.epoch s.log k) →
      s'.node = s.node →
      Feat serves look rs s s' d p (.busy (.appending (.announcing n))) (rs ++ [r])
  | announce {reply : Reply} : d.takesTurn = false → p.announces = true →
      (∀ k, serves rs s.log k → serves rs s'.log k) →
      (look = none → ∀ k, CommandLog.epoch s'.log k = CommandLog.epoch s.log k + 1) →
      s'.node = s.node → Feat serves look rs s s' d p (.answered reply) rs

variable {s s' : Site μ κ ε} {rs : List Record}

theorem Polling.step_serves (hlog : Service serves look) (h : serves rs s.log s.node.client)
    (stage : Polling) (task : Nat) :
    (stage.step task s).Holds fun s' => s'.log = s.log ∧ serves rs s.log s'.node.client := by
  cases stage with
  | arriving timeout => exact ⟨rfl, h⟩
  | queued timeout =>
    rw [step]
    split
    · exact ⟨rfl, h⟩
    · trivial
  | enlisting deadline => exact ⟨rfl, h⟩
  | checking deadline epoch =>
    rw [step]
    split <;> exact ⟨rfl, h⟩
  | reading deadline epoch =>
    obtain ⟨k', hread, hk', -⟩ := hlog.read h
    rw [step, hread]
    split
    · next he => cases he
    · next he =>
      obtain ⟨-, rfl⟩ := Prod.mk.inj he
      simp only
      split
      · exact ⟨rfl, hk'⟩
      · split <;> exact ⟨rfl, hk'⟩
    · next he =>
      obtain ⟨-, rfl⟩ := Prod.mk.inj he
      exact ⟨rfl, hk'⟩
  | waiting deadline epoch look =>
    rw [step.eq_def]
    simp only
    split
    · exact ⟨rfl, h⟩
    · split
      · split
        · exact ⟨rfl, h⟩
        · trivial
      · split
        · exact ⟨rfl, h⟩
        · trivial

theorem Rewinding.step_serves (hlog : Service serves look) (h : serves rs s.log s.node.client)
    (stage : Rewinding) (task : Nat) :
    (stage.step task s).Holds fun s' => s'.log = s.log ∧ serves rs s.log s'.node.client := by
  cases stage with
  | arriving =>
    rw [step]
    split <;> exact ⟨rfl, h⟩
  | queued =>
    rw [step]
    split
    · exact ⟨rfl, hlog.rewind h⟩
    · trivial

theorem Feat.of_turn {d : Demand} {p p' : Progress} (hl : s'.log = s.log)
    (h : serves rs s.log s'.node.client) (hd : d.takesTurn = true) (hp : p.announces = false)
    (hp' : p'.announces = false) : Feat serves look rs s s' d p p' rs :=
  .rest (fun _ hk => hl ▸ hk) (hl ▸ h) (fun _ _ => hl ▸ rfl) (fun hn => by rw [hd] at hn; cases hn)
    hp hp'

variable [Executor ε] {d : Demand} {a a' : Activity} {task : Nat} {time : Int64}

theorem Demand.Suits.feat_next (hlog : Service serves look) (h : serves rs s.log s.node.client)
    (hd : d.Suits a) (hsound : d.Sound) (hc : d ≠ .close) (ht : s.origin + s.now = time.toInt)
    (hstep : a.step task s = .next s' a') :
    d.Suits a' ∧ ∃ rs', Feat serves look rs s s' d (.busy a) (.busy a') rs' := by
  unfold Suits at hd
  split at hd
  · next id payload id' payload' =>
    obtain ⟨rfl, rfl⟩ := hd
    rcases Move.within_next hstep with ⟨stage', hs, rfl⟩ | ⟨s₁, r, -, hs⟩
    · have hr : Record.Readable ⟨id', payload', s.origin + s.now⟩ :=
        ⟨hsound, ht ▸ time.le_toInt, ht ▸ time.toInt_lt⟩
      obtain ⟨m', happ, hkept, hepoch⟩ := hlog.append h hr
      simp only [Appending.step, happ] at hs
      cases hs
      exact ⟨trivial, _, .write rfl hkept hepoch rfl⟩
    · cases hs
  · cases hstep
  · next timeout stage =>
    rcases Move.within_next hstep with ⟨stage', hs, rfl⟩ | ⟨s₁, r, -, hs⟩
    · have hk := stage.step_serves hlog h task
      rw [hs] at hk
      exact ⟨trivial, _, .of_turn hk.1 hk.2 rfl rfl rfl⟩
    · cases hs
  · cases hstep
  · next stage =>
    rcases Move.within_next hstep with ⟨stage', hs, rfl⟩ | ⟨s₁, r, -, hs⟩
    · have hk := stage.step_serves hlog h task
      rw [hs] at hk
      exact ⟨trivial, _, .of_turn hk.1 hk.2 rfl rfl rfl⟩
    · cases hs
  · exact absurd rfl hc
  · exact hd.elim

theorem Demand.Suits.feat_done (hlog : Service serves look) (h : serves rs s.log s.node.client)
    (hd : d.Suits a) (hsound : d.Sound) (hc : d ≠ .close) (ht : s.origin + s.now = time.toInt)
    {reply : Reply} (hstep : a.step task s = .done s' reply) :
    ∃ rs', Feat serves look rs s s' d (.busy a) (.answered reply) rs' := by
  unfold Suits at hd
  split at hd
  · next id payload id' payload' =>
    obtain ⟨rfl, rfl⟩ := hd
    obtain ⟨s₁, r, hs, hf⟩ := Move.within_done hstep
    have hr : Record.Readable ⟨id', payload', s.origin + s.now⟩ :=
      ⟨hsound, ht ▸ time.le_toInt, ht ▸ time.toInt_lt⟩
    obtain ⟨m', happ, -⟩ := hlog.append h hr
    simp only [Appending.step, happ] at hs
    cases hs
  · cases hstep
    obtain ⟨hkept, hepoch⟩ := hlog.announce h
    exact ⟨_, .announce rfl rfl hkept hepoch rfl⟩
  · next timeout stage =>
    obtain ⟨s₁, r, hs, hf⟩ := Move.within_done hstep
    have hk := stage.step_serves hlog h task
    rw [hs] at hk
    cases hf
    exact ⟨_, .of_turn hk.1 hk.2 rfl rfl rfl⟩
  · obtain ⟨m', hend, hkept, hepoch⟩ := hlog.endPosition h
    simp only [Activity.step, Site.endPosition, hend] at hstep
    cases hstep
    exact ⟨_, .rest hkept (hkept _ h) hepoch (fun _ => rfl) rfl rfl⟩
  · next stage =>
    obtain ⟨s₁, r, hs, hf⟩ := Move.within_done hstep
    have hk := stage.step_serves hlog h task
    rw [hs] at hk
    cases hf
    exact ⟨_, .of_turn hk.1 hk.2 rfl rfl rfl⟩
  · exact absurd rfl hc
  · exact hd.elim

end

section

variable [CommandLog μ κ] {serves : List Record → μ → κ → Prop} {look : Option Nat}
  {s s' : Site μ κ ε} {rs rs' : List Record} {d : Demand} {p p' : Progress}

namespace Feat

theorem kept (h : Feat serves look rs s s' d p p' rs') {k : κ} (hk : serves rs s.log k) :
    serves rs' s'.log k := by
  cases h with
  | rest hkept _ _ _ _ _ => exact hkept k hk
  | write _ hkept _ _ => exact hkept k hk
  | announce _ _ hkept _ _ => exact hkept k hk

theorem client (h : Feat serves look rs s s' d p p' rs') (hk : serves rs s.log s.node.client) :
    serves rs' s'.log s'.node.client := by
  cases h with
  | rest _ hclient _ _ _ _ => exact hclient
  | write _ hkept _ hn => exact hn ▸ hkept _ hk
  | announce _ _ hkept _ hn => exact hn ▸ hkept _ hk

theorem epoch_le (h : Feat serves look rs s s' d p p' rs') (hn : look = none) (k : κ) :
    CommandLog.epoch s.log k ≤ CommandLog.epoch s'.log k := by
  cases h with
  | rest _ _ he _ _ _ => exact Nat.le_of_eq (he hn k).symm
  | write _ _ he _ => exact Nat.le_of_eq (he hn k).symm
  | announce _ _ _ he _ => exact Nat.le_of_lt (Nat.lt_of_lt_of_eq (Nat.lt_succ_self _) (he hn k).symm)

theorem grown (h : Feat serves look rs s s' d p p' rs') : rs <+: rs' := by
  cases h with
  | write _ _ _ _ => exact List.prefix_append ..
  | _ => exact List.prefix_rfl

theorem records_eq (h : Feat serves look rs s s' d p p' rs') (hd : d.takesTurn = true) :
    rs' = rs := by
  cases h with
  | rest _ _ _ _ _ _ => rfl
  | write hn _ _ _ => cases hd.symm.trans hn
  | announce hn _ _ _ _ => cases hd.symm.trans hn

theorem node_eq (h : Feat serves look rs s s' d p p' rs') (hd : d.takesTurn = false) :
    s'.node = s.node := by
  cases h with
  | rest _ _ _ hn _ _ => exact hn hd
  | write _ _ _ hn => exact hn
  | announce _ _ _ _ hn => exact hn

end Feat

namespace Clientele

structure Flow (serves : List Record → μ → κ → Prop) (x : Clientele μ κ ε) (rs : List Record) :
    Prop where
  serves : ∀ s ∈ x.clients, serves rs x.log s.node.client
  demands : ∀ e ∈ x.errands, e.demand.Sound ∧ e.demand ≠ .close ∧
    ∀ a, e.progress = .busy a → e.demand.Suits a
  placed : ∀ e ∈ x.errands, e.progress.announces = true → e.client < x.clients.length

structure Turns (serves : List Record → μ → κ → Prop) (look : Option Nat) (x y : Clientele μ κ ε)
    (j : Nat) (e : Errand) (s s' : Site μ κ ε) (p : Progress) (rs rs' : List Record) : Prop where
  errand : x.errands[j]? = some e
  busy : ∃ a, e.progress = .busy a
  site : x.site? e.client = some s
  feat : Feat serves look rs s s' e.demand e.progress p rs'
  suits : ∀ a, p = .busy a → e.demand.Suits a
  log : y.log = s'.log
  now : y.now = x.now
  clients : y.clients = x.clients.set e.client s'
  errands : y.errands = x.errands.set j { e with progress := p }

variable {x y : Clientele μ κ ε} {i j : Nat} {e : Errand}

omit [CommandLog μ κ] in
theorem Flow.site (hx : x.Flow serves rs) (h : x.site? i = some s) :
    serves rs s.log s.node.client := by
  obtain ⟨k, hk, hnode, hl, -⟩ := site?_eq_some h
  rw [hnode, hl]
  exact hx.serves k (List.mem_of_getElem? hk)

theorem Flow.turns [Executor ε] (hlog : Service serves look) (hx : x.Flow serves rs)
    (h : x.turn? j = some y) :
    ∃ e s s' p rs', Turns serves look x y j e s s' p rs rs' := by
  obtain ⟨e, a, s, he, ha, hs, hy⟩ := turn?_cases h
  obtain ⟨hsound, hc, hsuits⟩ := hx.demands e (List.mem_of_getElem? he)
  obtain ⟨k, -, -, -, -, htime⟩ := site?_eq_some hs
  have hserves := hx.site hs
  rcases hy with ⟨s', a', hstep, rfl⟩ | ⟨s', reply, hstep, rfl⟩
  · obtain ⟨hsuits', rs', hf⟩ := (hsuits a ha).feat_next hlog hserves hsound hc htime hstep
    rw [← ha] at hf
    refine ⟨e, s, s', _, rs', he, ⟨a, ha⟩, hs, hf, ?_, rfl, rfl, rfl, rfl⟩
    rintro _ ⟨⟩
    exact hsuits'
  · obtain ⟨rs', hf⟩ := (hsuits a ha).feat_done hlog hserves hsound hc htime hstep
    rw [← ha] at hf
    refine ⟨e, s, s', _, rs', he, ⟨a, ha⟩, hs, hf, ?_, rfl, rfl, rfl, rfl⟩
    rintro _ ⟨⟩

namespace Turns

variable (h : Turns serves look x y j e s s' p rs rs')
include h

theorem mem_errands {e' : Errand} (he : e' ∈ y.errands) :
    e' ∈ x.errands ∨ e' = { e with progress := p } :=
  List.mem_or_eq_of_mem_set (h.errands ▸ he)

theorem errand_of_ne {k : Nat} (hk : k ≠ j) : y.errands[k]? = x.errands[k]? := by
  rw [h.errands, List.getElem?_set_ne (Ne.symm hk)]

theorem errand_self : y.errands[j]? = some { e with progress := p } := by
  rw [h.errands, List.getElem?_set_self (List.getElem?_eq_some_iff.1 h.errand).1]

theorem client_lt : e.client < x.clients.length := by
  obtain ⟨k, hk, -⟩ := site?_eq_some h.site
  exact (List.getElem?_eq_some_iff.1 hk).1

theorem flow (hx : x.Flow serves rs) : y.Flow serves rs' := by
  obtain ⟨k, hk, hnode, hl, -⟩ := site?_eq_some h.site
  refine ⟨fun s₁ hs₁ => ?_, fun e' he' => ?_, fun e' he' ha => ?_⟩
  · rw [h.clients] at hs₁
    rw [h.log]
    rcases List.mem_or_eq_of_mem_set hs₁ with hs₁ | rfl
    · have hold := hx.serves s₁ hs₁
      rw [← hl] at hold
      exact h.feat.kept hold
    · exact h.feat.client (hx.site h.site)
  · rcases h.mem_errands he' with he' | rfl
    · exact hx.demands e' he'
    · obtain ⟨hsound, hc, -⟩ := hx.demands e (List.mem_of_getElem? h.errand)
      exact ⟨hsound, hc, h.suits⟩
  · rw [h.clients, List.length_set]
    rcases h.mem_errands he' with he' | rfl
    · exact hx.placed e' he' ha
    · exact h.client_lt

end Turns

variable [Executor ε]

omit [CommandLog μ κ] [Executor ε] in
theorem errand_ask {e : Errand} {k : Nat} (h : x.errands[k]? = some e) (client : Nat)
    (d : Demand) : (x.ask client d).errands[k]? = some e :=
  (List.getElem?_append_left (List.getElem?_eq_some_iff.1 h).1).trans h

omit [CommandLog μ κ] [Executor ε] in
theorem Flow.ask (hx : x.Flow serves rs) (client : Nat) {d : Demand} (hd : d.Sound)
    (hc : d ≠ .close) : (x.ask client d).Flow serves rs := by
  refine ⟨hx.serves, fun e he => ?_, fun e he ha => ?_⟩
  · rcases List.mem_append.1 he with he | he
    · exact hx.demands e he
    · cases List.mem_singleton.1 he
      refine ⟨hd, hc, ?_⟩
      rintro _ ⟨⟩
      exact d.suits_activity
  · rcases List.mem_append.1 he with he | he
    · exact hx.placed e he ha
    · cases List.mem_singleton.1 he
      cases d <;> cases ha

theorem Flow.silent (hx : x.Flow serves rs) (h : x.isStill = true) :
    ∀ e ∈ x.errands, e.progress.announces = false := by
  intro e he
  cases ha : e.progress.announces with
  | false => rfl
  | true =>
    obtain ⟨k, hk⟩ := List.mem_iff_getElem?.1 he
    have hlt := (List.getElem?_eq_some_iff.1 hk).1
    have hwaits := List.all_eq_true.1 h k (List.mem_range.2 hlt)
    obtain ⟨s, hs⟩ : ∃ s, x.site? e.client = some s := by
      rw [site?, List.getElem?_eq_getElem (hx.placed e he ha)]
      exact ⟨_, rfl⟩
    unfold Progress.announces at ha
    split at ha
    · next n hp =>
      rw [turn?, hk] at hwaits
      simp only [Option.bind_eq_bind, Option.bind_some, hp, Progress.activity?, hs] at hwaits
      cases hwaits
    · cases ha

inductive Event where
  | ask (client : Nat) (demand : Demand)
  | turn (errand : Nat)
  | tick
  | wall (time : Int64)
  deriving DecidableEq

def Event.Gentle : Event → Prop
  | ask _ d => d.Sound ∧ d ≠ .close
  | _ => True

def Event.Spares (client : Nat) : Event → Prop
  | ask client' d => client' = client → d.takesTurn = false
  | _ => True

instance : (e : Event) → Decidable e.Gentle
  | .ask _ d => inferInstanceAs (Decidable (d.Sound ∧ d ≠ .close))
  | .turn _ | .tick | .wall _ => isTrue trivial

instance (client : Nat) : (e : Event) → Decidable (e.Spares client)
  | .ask client' d => inferInstanceAs (Decidable (client' = client → d.takesTurn = false))
  | .turn _ | .tick | .wall _ => isTrue trivial

def Event.isOther (errand : Nat) : Event → Bool
  | turn errand' => errand' != errand
  | _ => false

def act (x : Clientele μ κ ε) : Event → Clientele μ κ ε
  | .ask client d => x.ask client d
  | .turn errand => x.turn errand
  | .tick => if x.isStill then { x with now := x.now + 1 } else x
  | .wall time => { x with time }

def run (x : Clientele μ κ ε) (es : List Event) : Clientele μ κ ε :=
  es.foldl act x

theorem run_concat (x : Clientele μ κ ε) (es : List Event) (e : Event) :
    x.run (es ++ [e]) = (x.run es).act e :=
  List.foldl_concat ..

theorem turn_eq (h : x.turn? j = some y) : x.act (.turn j) = y := by
  rw [Clientele.act, turn, h, Option.getD_some]

theorem now_act (x : Clientele μ κ ε) (ev : Event) : x.now ≤ (x.act ev).now := by
  cases ev with
  | turn k =>
    rw [act]
    rcases x.turn_cases k with h | h
    · rw [h]
    · obtain ⟨e, a, s, -, -, -, ⟨s', a', -, hy⟩ | ⟨s', reply, -, hy⟩⟩ := turn?_cases h <;>
        exact Nat.le_of_eq (congrArg Clientele.now hy).symm
  | tick =>
    rw [act]
    split
    · exact Nat.le_succ _
    · exact Nat.le_refl _
  | _ => exact Nat.le_refl _

omit [CommandLog μ κ] [Executor ε] in
theorem reply?_of_busy {e : Errand} {a : Activity} (he : x.errands[j]? = some e)
    (ha : e.progress = .busy a) : x.reply? j = none := by
  rw [reply?, he, Option.bind_some, ha]
  rfl

theorem reply?_act {reply : Reply} (h : x.reply? j = some reply) (ev : Event) :
    (x.act ev).reply? j = some reply := by
  obtain ⟨e, he, hp⟩ := answered_of_reply? h
  cases ev with
  | ask client d =>
    rw [act, reply?, errand_ask he, Option.bind_some, hp]
    rfl
  | turn k =>
    rw [act]
    rcases x.turn_cases k with hk | hk
    · rw [hk, h]
    · obtain ⟨e', a, s, he', ha, -, hy⟩ := turn?_cases hk
      have hkj : k ≠ j := by
        rintro rfl
        cases he.symm.trans he'
        rw [hp] at ha
        cases ha
      have hkept (e'' : Errand) : (x.errands.set k e'')[j]? = some e := by
        rw [List.getElem?_set_ne hkj, he]
      rcases hy with ⟨s', a', -, hy⟩ | ⟨s', r, -, hy⟩
      · rw [hy, reply?, put, hkept, Option.bind_some, hp]
        rfl
      · rw [hy, reply?, remember, put, hkept, Option.bind_some, hp]
        rfl
  | tick =>
    rw [act]
    split <;> exact h
  | wall time => exact h

theorem reply?_stays {reply : Reply} {es pre : List Event} (hp : pre <+: es)
    (h : (x.run pre).reply? j = some reply) : (x.run es).reply? j = some reply := by
  induction es using List.reverseRecOn with
  | nil => rwa [List.prefix_nil.1 hp] at h
  | append_singleton es ev ih =>
    rcases List.prefix_concat_iff.1 hp with rfl | hp
    · exact h
    · rw [run_concat]
      exact reply?_act (ih hp) ev

theorem Flow.act (hlog : Service serves look) (hx : x.Flow serves rs) {ev : Event}
    (hev : ev.Gentle) : ∃ rs', (x.act ev).Flow serves rs' := by
  cases ev with
  | ask client d => exact ⟨rs, hx.ask client hev.1 hev.2⟩
  | turn j =>
    rw [Clientele.act]
    rcases x.turn_cases j with hj | hj
    · exact ⟨rs, hj.symm ▸ hx⟩
    · obtain ⟨e, s, s', p, rs', ht⟩ := hx.turns hlog hj
      exact ⟨rs', ht.flow hx⟩
  | tick =>
    rw [Clientele.act]
    split
    · exact ⟨rs, hx.serves, hx.demands, hx.placed⟩
    · exact ⟨rs, hx⟩
  | wall time => exact ⟨rs, hx.serves, hx.demands, hx.placed⟩

theorem Flow.run (hlog : Service serves look) (hx : x.Flow serves rs) {es : List Event}
    (hes : ∀ e ∈ es, e.Gentle) : ∃ rs', (x.run es).Flow serves rs' := by
  induction es generalizing x rs with
  | nil => exact ⟨rs, hx⟩
  | cons e es ih =>
    obtain ⟨rs', hx'⟩ := hx.act hlog (hes e (List.mem_cons_self ..))
    exact ih hx' fun e he => hes e (List.mem_cons_of_mem _ he)

end Clientele

end

end StatementLog
