import StatementLog.Proofs.Log.Serving

namespace StatementLog

variable {μ κ ε : Type}

structure Vigil where
  errand : Nat
  client : Nat
  timeout : Nat
  deadline : Nat
  position : Nat
  known : Nat

namespace Polling

def turns (task : Nat) : Polling → List Nat
  | arriving _ => []
  | _ => [task]

def ahead (look : Option Nat) (epoch : Nat) : Polling → Nat
  | arriving _ => 6
  | queued _ => 5
  | enlisting _ => 4
  | checking _ e => if look = none ∧ e ≠ epoch then 7 else 3
  | reading _ e => if look = none ∧ e ≠ epoch then 6 else 2
  | waiting _ e _ => if look = none ∧ e = epoch then 1 else 5

theorem ahead_le (look : Option Nat) (epoch : Nat) (stage : Polling) :
    stage.ahead look epoch ≤ 7 := by
  cases stage <;> simp only [ahead] <;> (try split) <;> omega

theorem ahead_epoch (look : Option Nat) (epoch epoch' : Nat) (stage : Polling) :
    stage.ahead look epoch' ≤ stage.ahead look epoch + 4 := by
  cases stage <;> simp only [ahead] <;> (try split) <;> (try split) <;> omega

end Polling

namespace Clientele

section

variable [CommandLog μ κ] {serves : List Record → μ → κ → Prop} {look : Option Nat}
  {x y : Clientele μ κ ε} {s s' : Site μ κ ε} {rs rs' : List Record} {v : Vigil} {stage : Polling}
  {j : Nat} {e : Errand} {p : Progress}

def Noted (look : Option Nat) (v : Vigil) (x : Clientele μ κ ε) (rs : List Record) (epoch : Nat) :
    Polling → Prop
  | .arriving timeout | .queued timeout => timeout = v.timeout ∧ x.now + v.timeout = v.deadline
  | .enlisting deadline => deadline = v.deadline
  | .checking deadline e | .reading deadline e => deadline = v.deadline ∧ (look = none → e ≤ epoch)
  | .waiting deadline e l => deadline = v.deadline ∧ v.known ≤ v.position ∧
    (l = none ↔ look = none) ∧ (look = none → e ≤ epoch ∧
      (e = epoch → rs.length = v.position ∨ ∃ e ∈ x.errands, e.progress.announces = true))

structure Watched (serves : List Record → μ → κ → Prop) (look : Option Nat) (v : Vigil)
    (x : Clientele μ κ ε) (rs : List Record) (s : Site μ κ ε) (stage : Polling) : Prop
    extends x.Flow serves rs where
  errand : x.errands[v.errand]? = some ⟨v.client, .poll v.timeout, .busy (.polling stage)⟩
  client : x.clients[v.client]? = some s
  turns : s.node.turns = stage.turns v.errand
  position : CommandLog.position μ s.node.client = v.position
  known : v.known ≤ rs.length
  alone {k : Nat} {e : Errand} : x.errands[k]? = some e → k ≠ v.errand → e.client = v.client →
    e.demand.takesTurn = true → ∀ a, e.progress ≠ .busy a
  punctual : x.now ≤ v.deadline
  noted : Noted look v x rs (CommandLog.epoch x.log s.node.client) stage

omit [CommandLog μ κ] in
theorem Noted.later {epoch : Nat} (h : Noted look v x rs epoch stage) (hn : y.now = x.now)
    (ha : (∃ e ∈ x.errands, e.progress.announces = true) →
      ∃ e ∈ y.errands, e.progress.announces = true) : Noted look v y rs epoch stage := by
  cases stage with
  | arriving timeout => exact ⟨h.1, hn ▸ h.2⟩
  | queued timeout => exact ⟨h.1, hn ▸ h.2⟩
  | waiting deadline noted l =>
    obtain ⟨hdeadline, hknown, hl, hcurrent⟩ := h
    exact ⟨hdeadline, hknown, hl, fun hlook =>
      ⟨(hcurrent hlook).1, fun he => ((hcurrent hlook).2 he).imp_right ha⟩⟩
  | _ => exact h

theorem Turns.noted (h : Turns serves look x y j e s s' p rs rs') {k : κ}
    (hn : Noted look v x rs (CommandLog.epoch x.log k) stage) :
    Noted look v y rs' (CommandLog.epoch y.log k) stage := by
  obtain ⟨_, -, -, hl, -⟩ := site?_eq_some h.site
  have hle (hlook : look = none) : CommandLog.epoch x.log k ≤ CommandLog.epoch y.log k := by
    rw [h.log, ← hl]
    exact h.feat.epoch_le hlook k
  cases stage with
  | arriving timeout => exact ⟨hn.1, h.now ▸ hn.2⟩
  | queued timeout => exact ⟨hn.1, h.now ▸ hn.2⟩
  | enlisting deadline => exact hn
  | checking deadline noted => exact ⟨hn.1, fun hlook => (hn.2 hlook).trans (hle hlook)⟩
  | reading deadline noted => exact ⟨hn.1, fun hlook => (hn.2 hlook).trans (hle hlook)⟩
  | waiting deadline noted l =>
    obtain ⟨hdeadline, hknown, hl', hcurrent⟩ := hn
    refine ⟨hdeadline, hknown, hl', fun hlook => ?_⟩
    obtain ⟨hnoted, hcurrent⟩ := hcurrent hlook
    refine ⟨hnoted.trans (hle hlook), fun he => ?_⟩
    rw [h.log] at he
    rw [← hl] at hcurrent hnoted
    have hfeat := h.feat
    cases hfeat with
    | rest _ _ hepoch _ hfree _ =>
      refine (hcurrent (he.trans (hepoch hlook k))).imp_right ?_
      rintro ⟨e₁, he₁, ha⟩
      obtain ⟨m, hm⟩ := List.mem_iff_getElem?.1 he₁
      have hmj : m ≠ j := by
        rintro rfl
        cases hm.symm.trans h.errand
        rw [hfree] at ha
        cases ha
      exact ⟨e₁, List.mem_of_getElem? ((h.errand_of_ne hmj).trans hm), ha⟩
    | write _ _ _ _ => exact .inr ⟨_, List.mem_of_getElem? h.errand_self, rfl⟩
    | announce _ _ _ hepoch _ =>
      -- the epoch is past that has been noted
      have := hepoch hlook k
      omega

theorem Watched.other [Executor ε] (hlog : Service serves look)
    (hx : Watched serves look v x rs s stage) (hj : j ≠ v.errand) (h : x.turn? j = some y) :
    ∃ rs' s', rs <+: rs' ∧ Watched serves look v y rs' s' stage ∧ y.now = x.now ∧
      stage.ahead look (CommandLog.epoch y.log s'.node.client) ≤
        stage.ahead look (CommandLog.epoch x.log s.node.client) + 4 := by
  obtain ⟨e, s₁, s₂, p, rs', ht⟩ := hx.toFlow.turns hlog h
  obtain ⟨k, hk, hnode, hl, -⟩ := site?_eq_some ht.site
  have hclient : ∃ s', y.clients[v.client]? = some s' ∧ s'.node = s.node := by
    rw [ht.clients, List.getElem?_set]
    split
    · next hc =>
      have hturn : e.demand.takesTurn = false := by
        obtain ⟨a, ha⟩ := ht.busy
        cases hd : e.demand.takesTurn with
        | false => rfl
        | true => exact absurd ha (hx.alone ht.errand hj hc hd a)
      rw [hc] at hk
      cases hk.symm.trans hx.client
      rw [if_pos ht.client_lt]
      exact ⟨s₂, rfl, (ht.feat.node_eq hturn).trans hnode⟩
    · exact ⟨s, hx.client, rfl⟩
  obtain ⟨s', hs', hn⟩ := hclient
  refine ⟨rs', s', ht.feat.grown, ⟨ht.flow hx.toFlow, ?_, hs', ?_, ?_,
    hx.known.trans ht.feat.grown.length_le, ?_, ?_, ?_⟩, ht.now, ?_⟩
  · rw [ht.errand_of_ne (Ne.symm hj)]
    exact hx.errand
  · rw [hn]
    exact hx.turns
  · rw [hn]
    exact hx.position
  · intro m e' he' hm hc hd
    by_cases hmj : m = j
    · subst hmj
      cases ht.errand_self.symm.trans he'
      obtain ⟨a, ha⟩ := ht.busy
      exact absurd ha (hx.alone ht.errand hj hc hd a)
    · rw [ht.errand_of_ne hmj] at he'
      exact hx.alone he' hm hc hd
  · rw [ht.now]
    exact hx.punctual
  · rw [hn]
    exact ht.noted hx.noted
  · exact stage.ahead_epoch look _ _

theorem Watched.site (hx : Watched serves look v x rs s stage) :
    ∃ s₀, x.site? v.client = some s₀ ∧ s₀.node = s.node ∧ s₀.log = x.log ∧ s₀.now = x.now ∧
      serves rs s₀.log s₀.node.client ∧ s₀.epoch = CommandLog.epoch x.log s.node.client ∧
      s₀.node.turns = stage.turns v.errand ∧
      CommandLog.position μ s₀.node.client = v.position := by
  have hs : x.site? v.client =
      some { s with log := x.log, now := x.now, origin := x.time.toInt - x.now } := by
    rw [site?, hx.client]
    rfl
  exact ⟨_, hs, rfl, rfl, rfl, hx.toFlow.site hs, rfl, hx.turns, hx.position⟩

variable [Executor ε]

theorem Watched.turn?_next (hx : Watched serves look v x rs s stage) {s₀ : Site μ κ ε}
    (hs : x.site? v.client = some s₀) {stage' : Polling}
    (hstep : stage.step v.errand s₀ = .next s' stage') :
    ∃ y, x.turn? v.errand = some y ∧ y.log = s'.log ∧ y.now = x.now ∧
      y.clients = x.clients.set v.client s' ∧ y.errands = x.errands.set v.errand
        ⟨v.client, .poll v.timeout, .busy (.polling stage')⟩ := by
  refine ⟨x.put s' v.errand ⟨v.client, .poll v.timeout, .busy (.polling stage')⟩, ?_, rfl, rfl, rfl,
    rfl⟩
  have hactivity : Activity.step v.errand s₀ (.polling stage) = .next s' (.polling stage') := by
    rw [Activity.step, hstep]
    rfl
  rw [turn?, hx.errand]
  simp only [Option.bind_eq_bind, Option.bind_some, Progress.activity?, hs, hactivity]
  rfl

theorem Watched.turn?_done (hx : Watched serves look v x rs s stage) {s₀ : Site μ κ ε}
    (hs : x.site? v.client = some s₀) {batch : List Command}
    (hstep : stage.step v.errand s₀ = .done s' (.ok batch)) :
    ∃ y, x.turn? v.errand = some y ∧ y.reply? v.errand = some (.ok (.batch batch)) := by
  have hactivity : Activity.step v.errand s₀ (.polling stage) = .done s' (.ok (.batch batch)) := by
    rw [Activity.step, hstep]
    rfl
  refine ⟨(x.put s' v.errand ⟨v.client, .poll v.timeout, .answered (.ok (.batch batch))⟩).remember
    ⟨v.client, .poll v.timeout, .answered (.ok (.batch batch))⟩, ?_, ?_⟩
  · rw [turn?, hx.errand]
    simp only [Option.bind_eq_bind, Option.bind_some, Progress.activity?, hs, hactivity]
    rfl
  · have hlt := (List.getElem?_eq_some_iff.1 hx.errand).1
    simp only [reply?, remember, put, List.getElem?_set_self hlt, Option.bind_some,
      Progress.reply?]

theorem Watched.turn?_wait (hx : Watched serves look v x rs s stage) {s₀ : Site μ κ ε}
    (hs : x.site? v.client = some s₀) (hstep : stage.step v.errand s₀ = .wait) :
    x.turn? v.errand = none := by
  have hactivity : Activity.step v.errand s₀ (.polling stage) = .wait := by
    rw [Activity.step, hstep]
    rfl
  rw [turn?, hx.errand]
  simp only [Option.bind_eq_bind, Option.bind_some, Progress.activity?, hs, hactivity]

theorem Watched.goes (hlog : Service serves look) (hx : Watched serves look v x rs s stage)
    {s₀ : Site μ κ ε} (hs : x.site? v.client = some s₀) {stage' : Polling}
    (hstep : stage.step v.errand s₀ = .next s' stage') (hl : s'.log = x.log)
    (hturns : s'.node.turns = stage'.turns v.errand)
    (hp : CommandLog.position μ s'.node.client = v.position)
    (hn : Noted look v x rs (CommandLog.epoch x.log s'.node.client) stage') :
    ∃ y, x.turn? v.errand = some y ∧ Watched serves look v y rs s' stage' ∧ y.log = x.log ∧
      y.now = x.now := by
  obtain ⟨y, hy, hylog, hnow, hclients, herrands⟩ := hx.turn?_next hs hstep
  obtain ⟨e, s₁, s₂, p, rs', ht⟩ := hx.toFlow.turns hlog hy
  have he := hx.errand.symm.trans ht.errand
  cases he
  cases ht.feat.records_eq rfl
  have hself : y.errands[v.errand]? =
      some ⟨v.client, .poll v.timeout, .busy (.polling stage')⟩ := by
    rw [herrands, List.getElem?_set_self (List.getElem?_eq_some_iff.1 hx.errand).1]
  refine ⟨y, hy, ⟨ht.flow hx.toFlow, hself, ?_, hturns, hp, hx.known, ?_, hnow ▸ hx.punctual, ?_⟩,
    hylog.trans hl, hnow⟩
  · rw [hclients, List.getElem?_set_self (List.getElem?_eq_some_iff.1 hx.client).1]
  · intro k e hk hne
    rw [ht.errand_of_ne hne] at hk
    exact hx.alone hk hne
  · exact ht.noted hn

inductive Fares (serves : List Record → μ → κ → Prop) (look : Option Nat) (v : Vigil)
    (x : Clientele μ κ ε) (rs : List Record) (stage : Polling) (left : Nat) : Prop where
  | goes {y : Clientele μ κ ε} {s' : Site μ κ ε} {stage' : Polling} :
      x.turn? v.errand = some y → Watched serves look v y rs s' stage' → y.now = x.now →
      (x.now = v.deadline →
        stage'.ahead look (CommandLog.epoch y.log s'.node.client) < left) →
      Fares serves look v x rs stage left
  | answered {y : Clientele μ κ ε} {batch : List Command} : x.turn? v.errand = some y →
      y.reply? v.errand = some (.ok (.batch batch)) →
      (batch = [] → x.now = v.deadline ∧ v.known ≤ v.position ∧
        (look ≠ none → rs.length = v.position)) →
      Fares serves look v x rs stage left
  | waits {deadline epoch : Nat} {l : Option Nat} : stage = .waiting deadline epoch l →
      x.turn? v.errand = none → x.now < v.deadline →
      (look = none → rs.length = v.position ∨ ∃ e ∈ x.errands, e.progress.announces = true) →
      Fares serves look v x rs stage left

theorem Watched.fares_reading (hlog : Service serves look) {deadline noted : Nat}
    (hx : Watched serves look v x rs s (.reading deadline noted)) :
    Fares serves look v x rs (.reading deadline noted)
      (Polling.ahead look (CommandLog.epoch x.log s.node.client) (.reading deadline noted)) := by
  obtain ⟨s₀, hs, hnode, hl, hnow, hserves, hepoch, hturns, hpos⟩ := hx.site
  obtain ⟨rfl, hle⟩ := hx.noted
  obtain ⟨k, hread, hk, hposk, hepochk⟩ := hlog.read hserves
  have hlength := Record.length_commandsFrom (CommandLog.position μ s₀.node.client)
    (rs.drop (CommandLog.position μ s₀.node.client))
  have hposle := hlog.position_le hserves
  rw [List.length_drop] at hlength
  generalize Record.commandsFrom (CommandLog.position μ s₀.node.client)
    (rs.drop (CommandLog.position μ s₀.node.client)) = batch at hread hlength
  cases batch with
  | cons c cs =>
    have hstep : (Polling.reading v.deadline noted).step v.errand s₀ =
        Polling.finish (s₀.mapNode fun n => { n with client := k }) v.errand (.ok (c :: cs)) := by
      simp only [Polling.step, hread]
    obtain ⟨y, hy, hreply⟩ := hx.turn?_done hs hstep
    exact .answered hy hreply fun hn => by cases hn
  | nil =>
    have hend : rs.length = v.position := by
      rw [← hpos]
      rw [List.length_nil] at hlength
      omega
    cases look with
    | none =>
      have hstep : (Polling.reading v.deadline noted).step v.errand s₀ =
          .next (s₀.mapNode fun n => { n with client := k })
            (.waiting v.deadline noted none) := by
        simp only [Polling.step, hread, hlog.patience]
      have hnoted : Noted none v x rs (CommandLog.epoch x.log k)
          (.waiting v.deadline noted none) := by
        refine ⟨rfl, hend ▸ hx.known, Iff.rfl, fun hlook => ⟨?_, fun _ => .inl hend⟩⟩
        rw [hepochk, hnode]
        exact hle hlook
      obtain ⟨y, hy, hw, hylog, hynow⟩ := hx.goes hlog hs hstep hl hturns
        (hposk.trans hend) hnoted
      refine .goes hy hw hynow fun _ => ?_
      rw [hylog]
      show Polling.ahead none (CommandLog.epoch x.log k) _ < _
      rw [hepochk, hnode]
      by_cases he : noted = CommandLog.epoch x.log s.node.client <;> simp [Polling.ahead, he]
    | some q =>
      by_cases htime : v.deadline ≤ s₀.now
      · have hstep : (Polling.reading v.deadline noted).step v.errand s₀ =
            Polling.finish (s₀.mapNode fun n => { n with client := k }) v.errand (.ok []) := by
          simp only [Polling.step, hread, hlog.patience]
          exact if_pos htime
        obtain ⟨y, hy, hreply⟩ := hx.turn?_done hs hstep
        rw [hnow] at htime
        exact .answered hy hreply fun _ =>
          ⟨Nat.le_antisymm hx.punctual htime, hend ▸ hx.known, fun _ => hend⟩
      · have hstep : (Polling.reading v.deadline noted).step v.errand s₀ =
            .next (s₀.mapNode fun n => { n with client := k })
              (.waiting v.deadline noted (some (s₀.now + q))) := by
          simp only [Polling.step, hread, hlog.patience]
          exact if_neg htime
        obtain ⟨y, hy, hw, hylog, hynow⟩ := hx.goes hlog hs hstep hl hturns
          (hposk.trans hend) ⟨rfl, hend ▸ hx.known, by simp, fun hlook => by cases hlook⟩
        exact .goes hy hw hynow fun hdeadline => absurd (hnow ▸ hdeadline ▸ Nat.le_refl _) htime

theorem Watched.fares_waiting (hlog : Service serves look) {deadline noted : Nat}
    {l : Option Nat} (hx : Watched serves look v x rs s (.waiting deadline noted l)) :
    Fares serves look v x rs (.waiting deadline noted l)
      (Polling.ahead look (CommandLog.epoch x.log s.node.client) (.waiting deadline noted l)) := by
  obtain ⟨s₀, hs, hnode, hl, hnow, hserves, hepoch, hturns, hpos⟩ := hx.site
  obtain ⟨rfl, hknown, hlook, hcurrent⟩ := hx.noted
  -- it waits only while nothing has been announced and neither its deadline nor a look is due
  by_cases hpast : s₀.epoch = noted
  · cases l with
    | none =>
      have hlook := hlook.1 rfl
      by_cases htime : v.deadline ≤ s₀.now
      · have hstep : (Polling.waiting v.deadline noted none).step v.errand s₀ =
            Polling.finish s₀ v.errand (.ok []) := by
          rw [Polling.step.eq_def]
          simp only [hpast, ne_eq, not_true_eq_false, if_false, htime, if_true]
        obtain ⟨y, hy, hreply⟩ := hx.turn?_done hs hstep
        rw [hnow] at htime
        exact .answered hy hreply fun _ => ⟨Nat.le_antisymm hx.punctual htime, hknown,
          fun hsome => absurd hlook hsome⟩
      · have hstep : (Polling.waiting v.deadline noted none).step v.errand s₀ = .wait := by
          rw [Polling.step.eq_def]
          simp only [hpast, ne_eq, not_true_eq_false, if_false, htime]
        refine .waits rfl (hx.turn?_wait hs hstep) (hnow ▸ Nat.lt_of_not_le htime) fun hlook => ?_
        exact (hcurrent hlook).2 (hpast.symm.trans hepoch)
    | some t =>
      have hlook : look ≠ none := fun hn => by cases hlook.2 hn
      by_cases htime : min t v.deadline ≤ s₀.now
      · have hstep : (Polling.waiting v.deadline noted (some t)).step v.errand s₀ =
            .next s₀ (.enlisting v.deadline) := by
          rw [Polling.step.eq_def]
          simp only [hpast, ne_eq, not_true_eq_false, if_false, htime, if_true]
        obtain ⟨y, hy, hw, hylog, hynow⟩ := hx.goes hlog hs hstep hl hturns hpos rfl
        refine .goes hy hw hynow fun _ => ?_
        simp [Polling.ahead, hlook]
      · have hstep : (Polling.waiting v.deadline noted (some t)).step v.errand s₀ = .wait := by
          rw [Polling.step.eq_def]
          simp only [hpast, ne_eq, not_true_eq_false, if_false, htime]
        refine .waits rfl (hx.turn?_wait hs hstep) ?_ fun hn => absurd hn hlook
        rw [← hnow]
        omega
  · have hstep : (Polling.waiting v.deadline noted l).step v.errand s₀ =
        .next s₀ (.enlisting v.deadline) := by
      rw [Polling.step.eq_def]
      simp only [hpast, ne_eq, not_false_eq_true, if_true]
    obtain ⟨y, hy, hw, hylog, hynow⟩ := hx.goes hlog hs hstep hl hturns hpos rfl
    refine .goes hy hw hynow fun _ => ?_
    have hpast : noted ≠ CommandLog.epoch x.log s.node.client :=
      fun he => hpast (hepoch.trans he.symm)
    simp [Polling.ahead, hpast]

theorem Watched.fares (hlog : Service serves look) (hx : Watched serves look v x rs s stage) :
    Fares serves look v x rs stage (stage.ahead look (CommandLog.epoch x.log s.node.client)) := by
  obtain ⟨s₀, hs, hnode, hl, hnow, hserves, hepoch, hturns, hpos⟩ := hx.site
  have hnoted := hx.noted
  cases stage with
  | arriving timeout =>
    obtain ⟨rfl, hdeadline⟩ := hnoted
    have hstep : (Polling.arriving v.timeout).step v.errand s₀ =
        .next (s₀.mapNode (·.arrive v.errand)) (.queued v.timeout) := rfl
    obtain ⟨y, hy, hw, hylog, hynow⟩ := hx.goes hlog hs hstep hl
      (by simp only [Site.mapNode, Node.arrive, hturns, Polling.turns, List.nil_append]) hpos
      ⟨rfl, hdeadline⟩
    exact .goes hy hw hynow fun _ => Nat.lt_succ_self _
  | queued timeout =>
    obtain ⟨rfl, hdeadline⟩ := hnoted
    have hturn : s₀.node.hasTurn v.errand = true := by
      rw [Node.hasTurn, hturns]
      exact decide_eq_true rfl
    have hstep : (Polling.queued v.timeout).step v.errand s₀ =
        .next s₀ (.enlisting v.deadline) := by
      rw [Polling.step, hturn, if_pos rfl, hnow, hdeadline]
    obtain ⟨y, hy, hw, hylog, hynow⟩ := hx.goes hlog hs hstep hl hturns hpos rfl
    exact .goes hy hw hynow fun _ => Nat.lt_succ_self _
  | enlisting deadline =>
    obtain rfl : deadline = v.deadline := hnoted
    have hstep : (Polling.enlisting v.deadline).step v.errand s₀ =
        .next s₀ (.checking v.deadline s₀.epoch) := rfl
    obtain ⟨y, hy, hw, hylog, hynow⟩ := hx.goes hlog hs hstep hl hturns hpos
      ⟨rfl, fun _ => by rw [hepoch, hnode]⟩
    refine .goes hy hw hynow fun _ => ?_
    rw [hylog, ← hl]
    show (if look = none ∧ s₀.epoch ≠ s₀.epoch then 7 else 3) < 4
    simp
  | checking deadline noted =>
    obtain ⟨rfl, hle⟩ := hnoted
    have hcheck : s₀.check = .ok () := hlog.check hserves
    have hstep : (Polling.checking v.deadline noted).step v.errand s₀ =
        .next s₀ (.reading v.deadline noted) := by
      rw [Polling.step, hcheck]
    obtain ⟨y, hy, hw, hylog, hynow⟩ := hx.goes hlog hs hstep hl hturns hpos
      ⟨rfl, fun hlook => hnode ▸ hle hlook⟩
    refine .goes hy hw hynow fun _ => ?_
    rw [hylog, hnode]
    simp only [Polling.ahead]
    split <;> omega
  | reading deadline noted => exact hx.fares_reading hlog
  | waiting deadline noted l => exact hx.fares_waiting hlog

omit [Executor ε] in
theorem Watched.ask (hx : Watched serves look v x rs s stage) {client : Nat} {d : Demand}
    (hd : d.Sound) (hc : d ≠ .close) (hspares : client = v.client → d.takesTurn = false) :
    Watched serves look v (x.ask client d) rs s stage := by
  refine ⟨hx.toFlow.ask client hd hc, errand_ask hx.errand client d, hx.client, hx.turns,
    hx.position, hx.known, fun {k e} hk hne hclient hturn => ?_, hx.punctual, ?_⟩
  · rw [Clientele.ask, List.getElem?_append] at hk
    split at hk
    · exact hx.alone hk hne hclient hturn
    · cases List.mem_singleton.1 (List.mem_of_getElem? hk)
      exact absurd hturn (by rw [Errand.ofDemand, hspares hclient]; exact Bool.false_ne_true)
  · exact hx.noted.later rfl fun ⟨e, he, ha⟩ => ⟨e, List.mem_append_left _ he, ha⟩

omit [Executor ε] in
theorem Watched.wall (hx : Watched serves look v x rs s stage) (time : Int64) :
    Watched serves look v { x with time } rs s stage :=
  ⟨⟨hx.serves, hx.demands, hx.placed⟩, hx.errand, hx.client, hx.turns, hx.position, hx.known,
    hx.alone, hx.punctual, hx.noted.later rfl id⟩

theorem Watched.tick (hlog : Service serves look) (hx : Watched serves look v x rs s stage)
    (h : x.isStill = true) :
    Watched serves look v { x with now := x.now + 1 } rs s stage ∧
      (look = none → rs.length = v.position) := by
  have hlt := (List.getElem?_eq_some_iff.1 hx.errand).1
  have hwaits := List.all_eq_true.1 h v.errand (List.mem_range.2 hlt)
  cases hx.fares hlog with
  | goes hy _ _ _ =>
    rw [hy] at hwaits
    cases hwaits
  | answered hy _ _ =>
    rw [hy] at hwaits
    cases hwaits
  | waits hstage hnone htime hread =>
    subst hstage
    refine ⟨⟨⟨hx.serves, hx.demands, hx.placed⟩, hx.errand, hx.client, hx.turns, hx.position,
      hx.known, hx.alone, htime, hx.noted⟩, fun hlook => (hread hlook).resolve_right ?_⟩
    rintro ⟨e, he, ha⟩
    rw [hx.toFlow.silent h e he] at ha
    cases ha

theorem Watched.act (hlog : Service serves look) (hx : Watched serves look v x rs s stage)
    {ev : Event} (hev : ev.Gentle ∧ ev.Spares v.client) (hne : ev ≠ .turn v.errand) :
    ∃ rs' s', rs <+: rs' ∧ Watched serves look v (x.act ev) rs' s' stage ∧
      ((x.act ev).now = x.now ∨ (look = none → rs.length = v.position)) ∧
      stage.ahead look (CommandLog.epoch (x.act ev).log s'.node.client) ≤
        stage.ahead look (CommandLog.epoch x.log s.node.client) +
          4 * [ev].countP (Event.isOther v.errand) := by
  cases ev with
  | ask client d =>
    exact ⟨rs, s, List.prefix_rfl, hx.ask hev.1.1 hev.1.2 hev.2, .inl rfl, Nat.le_add_right ..⟩
  | turn k =>
    have hk : k ≠ v.errand := fun h => hne (h ▸ rfl)
    have hcount : [Event.turn k].countP (Event.isOther v.errand) = 1 := by
      simp [Event.isOther, hk]
    rw [Clientele.act, hcount]
    rcases x.turn_cases k with hturn | hturn
    · rw [hturn]
      exact ⟨rs, s, List.prefix_rfl, hx, .inl rfl, Nat.le_add_right ..⟩
    · obtain ⟨rs', s', hrs, hw, hnow, hahead⟩ := hx.other hlog hk hturn
      exact ⟨rs', s', hrs, hw, .inl hnow, hahead⟩
  | tick =>
    rw [Clientele.act]
    split
    · next hstill =>
      obtain ⟨hw, hread⟩ := hx.tick hlog hstill
      exact ⟨rs, s, List.prefix_rfl, hw, .inr hread, Nat.le_add_right ..⟩
    · exact ⟨rs, s, List.prefix_rfl, hx, .inl rfl, Nat.le_add_right ..⟩
  | wall time =>
    exact ⟨rs, s, List.prefix_rfl, hx.wall time, .inl rfl, Nat.le_add_right ..⟩

omit [Executor ε] in
theorem Watched.position_le (hlog : Service serves look)
    (hx : Watched serves look v x rs s stage) : v.position ≤ rs.length := by
  rw [← hx.position]
  exact hlog.position_le (hx.serves s (List.mem_of_getElem? hx.client))

variable {es : List Event}

theorem Watched.prompt (hlog : Service serves look) (hx : Watched serves look v x rs s stage)
    (hnow : x.now = v.deadline) (hes : ∀ e ∈ es, e.Gentle ∧ e.Spares v.client)
    (hn : (x.run es).reply? v.errand = none) :
    ∃ rs' s' stage', Watched serves look v (x.run es) rs' s' stage' ∧
      (x.run es).now = v.deadline ∧
      stage'.ahead look (CommandLog.epoch (x.run es).log s'.node.client) +
        es.count (.turn v.errand) ≤
          stage.ahead look (CommandLog.epoch x.log s.node.client) +
            4 * es.countP (Event.isOther v.errand) := by
  induction es using List.reverseRecOn with
  | nil => exact ⟨rs, s, stage, hx, hnow, Nat.le_refl _⟩
  | append_singleton es ev ih =>
    have hev := hes ev (List.mem_append_right _ (List.mem_singleton_self ev))
    have hbefore : (x.run es).reply? v.errand = none := by
      cases hr : (x.run es).reply? v.errand with
      | none => rfl
      | some reply =>
        rw [reply?_stays (List.prefix_append ..) hr] at hn
        cases hn
    obtain ⟨rs₁, s₁, stage₁, hw, hnow₁, hahead₁⟩ :=
      ih (fun e he => hes e (List.mem_append_left _ he)) hbefore
    rw [run_concat] at hn ⊢
    rw [List.count_append, List.countP_append]
    by_cases hne : ev = .turn v.errand
    · subst hne
      rw [List.count_singleton_self]
      cases hw.fares hlog with
      | goes hy hw' hnow' hahead =>
        rw [turn_eq hy]
        have := hahead hnow₁
        exact ⟨_, _, _, hw', hnow'.trans hnow₁, by omega⟩
      | answered hy hreply _ =>
        rw [turn_eq hy, hreply] at hn
        cases hn
      | waits _ _ htime _ => exact absurd hnow₁ (Nat.ne_of_lt htime)
    · obtain ⟨rs₂, s₂, -, hw', -, hahead⟩ := hw.act hlog hev hne
      have hmono := (x.run es).now_act ev
      have hcount : [ev].count (.turn v.errand) = 0 := by
        simp [hne]
      refine ⟨rs₂, s₂, stage₁, hw', ?_, by omega⟩
      exact Nat.le_antisymm hw'.punctual (hnow₁ ▸ hmono)

def Current (x : Clientele μ κ ε) (client : Nat) : Prop :=
  ∀ s, x.site? client = some s → (CommandLog.read s.log s.node.client).1 = .ok []

omit [Executor ε] in
theorem Watched.current (hlog : Service serves look) (hx : Watched serves look v x rs s stage)
    (h : rs.length = v.position) : x.Current v.client := by
  intro s₁ hs₁
  obtain ⟨s₀, hs₀, hnode, -, -, hserves, -⟩ := hx.site
  cases hs₁.symm.trans hs₀
  obtain ⟨k, hread, -⟩ := hlog.read hserves
  rw [hread, hnode, hx.position, List.drop_eq_nil_of_le (Nat.le_of_eq h)]
  rfl

end

end Clientele

end StatementLog
