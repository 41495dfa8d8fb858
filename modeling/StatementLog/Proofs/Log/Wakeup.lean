import StatementLog.Proofs.Log.Vigil
import StatementLog.Script

namespace StatementLog

variable {μ κ ε : Type}

namespace Clientele

section

variable [CommandLog μ κ] [Executor ε] {serves : List Record → μ → κ → Prop} {look : Option Nat}
  {s s' : Site μ κ ε} {rs rs' : List Record} {x y : Clientele μ κ ε} {v : Vigil} {stage : Polling}

structure Attended (serves : List Record → μ → κ → Prop) (look : Option Nat) (v : Vigil)
    (x : Clientele μ κ ε) (es : List Event) (rs : List Record) (s : Site μ κ ε) (stage : Polling) :
    Prop where
  watched : Watched serves look v (x.run es) rs s stage
  past {pre : List Event} : pre <+: es → ∃ rs' s' stage',
    Watched serves look v (x.run pre) rs' s' stage' ∧ rs' <+: rs ∧
      (look = none → (x.run pre).now < (x.run es).now → rs'.length = v.position)

structure Relieved (serves : List Record → μ → κ → Prop) (look : Option Nat) (v : Vigil)
    (x : Clientele μ κ ε) (es pre : List Event) (rs : List Record) (batch : List Command) :
    Prop where
  turn : pre ++ [Event.turn v.errand] <+: es
  attended : ∃ s stage, Attended serves look v x pre rs s stage
  answered : (x.run (pre ++ [Event.turn v.errand])).reply? v.errand = some (.ok (.batch batch))
  empty : batch = [] → (x.run pre).now = v.deadline ∧ v.known ≤ v.position ∧
    (look ≠ none → rs.length = v.position)

variable {es : List Event} {ev : Event}

theorem Attended.extend (hlog : Service serves look) (h : Attended serves look v x es rs s stage)
    {stage' : Polling} (hw : Watched serves look v (x.run (es ++ [ev])) rs' s' stage')
    (hrs : rs <+: rs') (hnow : (x.run (es ++ [ev])).now = (x.run es).now ∨
      (look = none → rs.length = v.position)) :
    Attended serves look v x (es ++ [ev]) rs' s' stage' := by
  refine ⟨hw, fun {pre} hp => ?_⟩
  rcases List.prefix_concat_iff.1 hp with rfl | hp
  · exact ⟨rs', s', stage', hw, List.prefix_rfl, fun _ hlt => absurd hlt (Nat.lt_irrefl _)⟩
  · obtain ⟨rs₀, s₀, stage₀, hw₀, hrs₀, hread⟩ := h.past hp
    refine ⟨rs₀, s₀, stage₀, hw₀, hrs₀.trans hrs, fun hlook hlt => ?_⟩
    rcases hnow with hnow | hnow
    · exact hread hlook (hnow ▸ hlt)
    · refine Nat.le_antisymm ?_ (hw₀.position_le hlog)
      rw [← hnow hlook]
      exact hrs₀.length_le

theorem Watched.course (hlog : Service serves look) (hx : Watched serves look v x rs s stage)
    (hes : ∀ e ∈ es, e.Gentle ∧ e.Spares v.client) :
    (∃ rs' s' stage', Attended serves look v x es rs' s' stage') ∨
      ∃ pre rs' batch, Relieved serves look v x es pre rs' batch := by
  induction es using List.reverseRecOn with
  | nil =>
    refine .inl ⟨rs, s, stage, hx, fun {pre} hp => ?_⟩
    rw [List.prefix_nil.1 hp]
    exact ⟨rs, s, stage, hx, List.prefix_rfl, fun _ hlt => absurd hlt (Nat.lt_irrefl _)⟩
  | append_singleton es ev ih =>
    have hev := hes ev (List.mem_append_right _ (List.mem_singleton_self ev))
    rcases ih fun e he => hes e (List.mem_append_left _ he) with
      ⟨rs₁, s₁, stage₁, h⟩ | ⟨pre, rs₁, batch, h⟩
    · by_cases hne : ev = .turn v.errand
      · subst hne
        cases h.watched.fares hlog with
        | goes hy hw hnow hahead =>
          have hrun := (run_concat x es (.turn v.errand)).trans (turn_eq hy)
          rw [← hrun] at hw hnow
          exact .inl ⟨rs₁, _, _, h.extend hlog hw List.prefix_rfl (.inl hnow)⟩
        | answered hy hreply hempty =>
          have hrun := (run_concat x es (.turn v.errand)).trans (turn_eq hy)
          rw [← hrun] at hreply
          exact .inr ⟨es, rs₁, _, List.prefix_rfl, ⟨s₁, stage₁, h⟩, hreply, hempty⟩
        | waits hstage hnone htime hread =>
          have hrun : x.run (es ++ [Event.turn v.errand]) = x.run es := by
            rw [run_concat, Clientele.act, turn, hnone, Option.getD_none]
          have hw := h.watched
          rw [← hrun] at hw
          exact .inl ⟨rs₁, s₁, stage₁, h.extend hlog hw List.prefix_rfl (.inl (by rw [hrun]))⟩
      · obtain ⟨rs₂, s₂, hrs, hw, hnow, -⟩ := h.watched.act hlog hev hne
        rw [← run_concat] at hw hnow
        exact .inl ⟨rs₂, s₂, stage₁, h.extend hlog hw hrs hnow⟩
    · exact .inr ⟨pre, rs₁, batch, h.turn.trans (List.prefix_append ..), h.attended, h.answered,
        h.empty⟩

/-- What a poll may be relied on for, from the moment on in which it has been asked for: it is
answered before the time passes its deadline, and at the deadline it never waits and takes a bounded
number of turns, unless others go on taking theirs; it does not fail; it is answered with nothing
only at the deadline, and only if there was nothing to be read at the beginning and none was there
at any time before the deadline. -/
structure KeepsUp (x : Clientele μ κ ε) (errand client deadline : Nat) (es : List Event) : Prop where
  punctual : (x.run es).reply? errand = none → (x.run es).now ≤ deadline
  prompt {pre rest : List Event} : es = pre ++ rest → (x.run pre).now = deadline →
    (x.run es).reply? errand = none → ((x.run es).turn? errand).isSome ∧
      rest.count (.turn errand) ≤ 7 + 4 * rest.countP (Event.isOther errand)
  answered {reply : Reply} : (x.run es).reply? errand = some reply →
    ∃ batch pre, reply = .ok (.batch batch) ∧ pre ++ [Event.turn errand] <+: es ∧
      (x.run pre).reply? errand = none ∧
      (x.run (pre ++ [Event.turn errand])).reply? errand = some reply ∧
      (x.run pre).now ≤ deadline ∧ (batch = [] → (x.run pre).now = deadline)
  awake {pre : List Event} : pre <+: es → (x.run pre).reply? errand = none →
    pre = [] ∨ (x.run pre).now < deadline → ¬ (x.run pre).Current client →
      (x.run es).reply? errand ≠ some (.ok (.batch []))

omit [Executor ε] in
theorem Watched.reply? (hx : Watched serves look v x rs s stage) : x.reply? v.errand = none :=
  reply?_of_busy hx.errand rfl

theorem Relieved.reply? {pre : List Event} {batch : List Command}
    (h : Relieved serves look v x es pre rs batch) :
    (x.run es).reply? v.errand = some (.ok (.batch batch)) :=
  reply?_stays h.turn h.answered

theorem Watched.attended (hlog : Service serves look) (hx : Watched serves look v x rs s stage)
    (hes : ∀ e ∈ es, e.Gentle ∧ e.Spares v.client)
    (hn : (x.run es).reply? v.errand = none) :
    ∃ rs' s' stage', Attended serves look v x es rs' s' stage' := by
  rcases hx.course hlog hes with h | ⟨pre, rs', batch, h⟩
  · exact h
  · rw [h.reply?] at hn
    cases hn

theorem Watched.relieved (hlog : Service serves look) (hx : Watched serves look v x rs s stage)
    (hes : ∀ e ∈ es, e.Gentle ∧ e.Spares v.client) {reply : Reply}
    (hr : (x.run es).reply? v.errand = some reply) :
    ∃ pre rs' batch, reply = .ok (.batch batch) ∧ Relieved serves look v x es pre rs' batch := by
  rcases hx.course hlog hes with ⟨rs', s', stage', h⟩ | ⟨pre, rs', batch, h⟩
  · rw [h.watched.reply?] at hr
    cases hr
  · exact ⟨pre, rs', batch, Option.some.inj (hr.symm.trans h.reply?), h⟩

theorem Relieved.current (hlog : Service serves look) (hx : Watched serves look v x rs s stage)
    (hknown : v.known = rs.length) {pre' : List Event}
    (h : Relieved serves look v x es pre' rs' []) {pre : List Event} (hp : pre <+: es)
    (hn : (x.run pre).reply? v.errand = none) (htime : pre = [] ∨ (x.run pre).now < v.deadline) :
    (x.run pre).Current v.client := by
  obtain ⟨hdeadline, hposition, hlast⟩ := h.empty rfl
  rcases htime with rfl | htime
  · refine hx.current hlog (Nat.le_antisymm ?_ (hx.position_le hlog))
    exact hknown ▸ hposition
  have hbefore : pre <+: pre' := by
    have hanswered : pre' ++ [Event.turn v.errand] <+: pre → False := fun hpre => by
      rw [reply?_stays hpre h.answered] at hn
      cases hn
    rcases List.prefix_or_prefix_of_prefix hp h.turn with hpre | hpre
    · rcases List.prefix_concat_iff.1 hpre with rfl | hpre
      · exact (hanswered List.prefix_rfl).elim
      · exact hpre
    · exact (hanswered hpre).elim
  obtain ⟨s₁, stage₁, hattended⟩ := h.attended
  obtain ⟨rs₀, s₀, stage₀, hw, hrs, hread⟩ := hattended.past hbefore
  refine hw.current hlog ?_
  by_cases hlook : look = none
  · exact hread hlook (hdeadline ▸ htime)
  · refine Nat.le_antisymm ?_ (hw.position_le hlog)
    exact hlast hlook ▸ hrs.length_le

theorem Watched.keepsUp (hlog : Service serves look) (hx : Watched serves look v x rs s stage)
    (hknown : v.known = rs.length) (hes : ∀ e ∈ es, e.Gentle ∧ e.Spares v.client) :
    KeepsUp x v.errand v.client v.deadline es where
  punctual hn := by
    obtain ⟨rs', s', stage', h⟩ := hx.attended hlog hes hn
    exact h.watched.punctual
  prompt {pre rest} he hnow hn := by
    subst he
    have hrun : x.run (pre ++ rest) = (x.run pre).run rest := List.foldl_append ..
    have hpre : (x.run pre).reply? v.errand = none := by
      cases hr : (x.run pre).reply? v.errand with
      | none => rfl
      | some reply =>
        rw [reply?_stays (List.prefix_append ..) hr] at hn
        cases hn
    obtain ⟨rs₁, s₁, stage₁, h⟩ :=
      hx.attended hlog (fun e he => hes e (List.mem_append_left _ he)) hpre
    rw [hrun] at hn ⊢
    obtain ⟨rs₂, s₂, stage₂, hw, hnow₂, hahead⟩ :=
      h.watched.prompt hlog hnow (fun e he => hes e (List.mem_append_right _ he)) hn
    refine ⟨?_, ?_⟩
    · cases hw.fares hlog with
      | goes hy _ _ _ => exact hy ▸ rfl
      | answered hy _ _ => exact hy ▸ rfl
      | waits _ _ htime _ => exact absurd hnow₂ (Nat.ne_of_lt htime)
    · have := stage₁.ahead_le look (CommandLog.epoch (x.run pre).log s₁.node.client)
      omega
  answered {reply} hr := by
    obtain ⟨pre, rs', batch, rfl, h⟩ := hx.relieved hlog hes hr
    obtain ⟨s₁, stage₁, hattended⟩ := h.attended
    exact ⟨batch, pre, rfl, h.turn, hattended.watched.reply?, h.answered,
      hattended.watched.punctual, fun hb => (h.empty hb).1⟩
  awake hp hn htime hcurrent hr := by
    obtain ⟨pre', rs', batch, he, h⟩ := hx.relieved hlog hes hr
    cases he
    exact hcurrent (h.current hlog hx hknown hp hn htime)

structure Idle (x : Clientele μ κ ε) (client : Nat) : Prop where
  turns : ∃ s, x.clients[client]? = some s ∧ s.node.turns = []
  alone : ∀ e ∈ x.errands, e.client = client → e.demand.takesTurn = true →
    ∀ a, e.progress ≠ .busy a

omit [Executor ε] in
theorem Flow.watched (look : Option Nat) (hx : x.Flow serves rs) {client : Nat}
    (hi : x.Idle client) (timeout : Nat) :
    ∃ s, Watched serves look
      { errand := x.errands.length, client, timeout, deadline := x.now + timeout
        position := CommandLog.position μ s.node.client, known := rs.length }
      (x.ask client (.poll timeout)) rs s (.arriving timeout) := by
  obtain ⟨s, hs, hturns⟩ := hi.turns
  refine ⟨s, hx.ask client trivial (fun h => by cases h), List.getElem?_concat_length, hs, hturns,
    rfl, Nat.le_refl _, fun {k e} hk hne hc ht => ?_, Nat.le_add_right .., rfl, rfl⟩
  rw [Clientele.ask, List.getElem?_append] at hk
  split at hk
  · exact hi.alone e (List.mem_of_getElem? hk) hc ht
  · next hlt =>
    obtain ⟨hlast, -⟩ := List.getElem?_eq_some_iff.1 hk
    rw [List.length_singleton] at hlast
    exact absurd (show k = x.errands.length by omega) hne

end

structure Fresh [CommandLog μ κ] (serves : List Record → μ → κ → Prop) (x : Clientele μ κ ε)
    (rs : List Record) : Prop where
  serves : ∀ s ∈ x.clients, serves rs x.log s.node.client
  errands : x.errands = []

/-- Whatever the clients have been asked for before, a poll on one that nobody else reads through keeps
up with the log, while they are asked for more. -/
def PollsKeepUp (ε : Type) [CommandLog μ κ] [Executor ε] (serves : List Record → μ → κ → Prop) :
    Prop :=
  ∀ (x : Clientele μ κ ε) (rs : List Record), x.Fresh serves rs →
    ∀ before : List Event, (∀ e ∈ before, e.Gentle) →
      ∀ client timeout : Nat, (x.run before).Idle client →
        ∀ es : List Event, (∀ e ∈ es, e.Gentle ∧ e.Spares client) →
          KeepsUp ((x.run before).ask client (.poll timeout)) (x.run before).errands.length client
            ((x.run before).now + timeout) es

theorem pollsKeepUp [CommandLog μ κ] [Executor ε] {serves : List Record → μ → κ → Prop}
    {look : Option Nat} (hlog : Service serves look) : PollsKeepUp ε serves := by
  intro x rs hx before hbefore client timeout hi es hes
  have hflow : x.Flow serves rs := by
    refine ⟨hx.serves, ?_, ?_⟩ <;> rw [hx.errands]
    · rintro e ⟨⟩
    · rintro e ⟨⟩
  obtain ⟨rs', hy⟩ := hflow.run hlog hbefore
  obtain ⟨s, hw⟩ := hy.watched look hi timeout
  exact hw.keepsUp hlog rfl hes

/-- A poll that waits misses nothing, neither on a tape nor on a file, be its clients those of one
handle or of several. -/
theorem poll_never_misses_append (ε : Type) [Executor ε] :
    PollsKeepUp ε Tape.Serves ∧
      ∀ (path : String) (place lock : Place), PollsKeepUp ε (Disk.Serves path place lock) :=
  ⟨pollsKeepUp Tape.service, fun path place lock => pollsKeepUp (Disk.service path place lock)⟩

theorem KeepsUp.nonempty [CommandLog μ κ] [Executor ε] {x : Clientele μ κ ε}
    {errand client deadline : Nat} {es pre : List Event} (h : KeepsUp x errand client deadline es)
    (hr : ((x.run es).reply? errand).isSome) (hp : pre <+: es)
    (hn : (x.run pre).reply? errand = none) (htime : (x.run pre).now < deadline)
    (hunread : (((x.run pre).site? client).map fun s =>
      decide ((CommandLog.read s.log s.node.client).1 = .ok [])) = some false) :
    ∃ batch, batch ≠ [] ∧ (x.run es).reply? errand = some (.ok (.batch batch)) := by
  obtain ⟨reply, hr⟩ := Option.isSome_iff_exists.1 hr
  obtain ⟨batch, -, rfl, -⟩ := h.answered hr
  refine ⟨batch, ?_, hr⟩
  rintro rfl
  refine h.awake hp hn (.inr htime) (fun hc => ?_) hr
  obtain ⟨s, hs, hread⟩ := Option.map_eq_some_iff.1 hunread
  rw [hc s hs] at hread
  cases hread

def site (μ : Type) {κ : Type} [CommandLog μ κ] (log : μ) (client : κ) : Site μ κ Script where
  now := 0
  origin := 0
  log
  broker := {}
  tracker := .ofCapacity 1
  executor := {}
  node := .ofConfig {} client 0 0

def onTape : Clientele Tape TapeClient Script where
  log := {}
  clients := [site Tape {} {}, site Tape {} {}]

def openings : Twin :=
  Twin.run "log" { disk := {} } [.opening, .opening]

def onDisk : Clientele Disk FileClient Script where
  log := openings.disk
  clients := openings.clients.map fun p => site Disk {} p.1

def lateAppend : List Event :=
  List.replicate 5 (Event.turn 0) ++ [Event.tick, .tick,
    .ask 0 (.append Twin.creation.id Twin.creation.payload), .turn 1]

theorem onTape_fresh : onTape.Fresh Tape.Serves [] := by
  refine ⟨fun s hs => ?_, rfl⟩
  have hs : s = site Tape {} {} := by simpa [onTape] using hs
  subst hs
  exact ⟨rfl, by simp, rfl, rfl, Nat.le_refl _⟩

theorem openings_clients : openings.clients = [({ handle := 0 }, {}), ({ handle := 1 }, {})] := by
  decide +kernel

theorem onDisk_fresh : ∃ place lock, onDisk.Fresh (Disk.Serves "log" place lock) [] := by
  have hvacant : Entries.bare.Vacant "log" := by decide +kernel
  have hacknowledged : openings.acknowledged = [] := by decide +kernel
  have hsound : ∀ e ∈ [LogEvent.opening, .opening], e.Sound := by decide
  rcases Twin.run_aligned (x := { disk := {} }) (.inl ⟨rfl, rfl, rfl, hvacant⟩) hsound with
    h | ⟨place, lock, h⟩
  · have hnone : openings.clients = [] := h.clients
    rw [openings_clients] at hnone
    cases hnone
  · have h : openings.Aligned "log" place lock := h
    have hholding := h.holding
    rw [hacknowledged] at hholding
    refine ⟨place, lock, fun s hs => ?_, rfl⟩
    obtain ⟨⟨c, k⟩, hm, rfl⟩ := List.mem_map.1 hs
    obtain ⟨ho, -⟩ := h.clients hm
    rw [hacknowledged] at ho
    refine ⟨hholding.stores, hholding.readable, ho, ?_⟩
    rw [openings_clients] at hm
    have hpaired (handle : Nat) : Paired [] { handle } {} :=
      ⟨rfl, Nat.le_refl _, rfl, rfl, rfl⟩
    rcases List.mem_cons.1 hm with he | hm
    · cases he
      exact hpaired 0
    · cases List.mem_singleton.1 hm
      exact hpaired 1

set_option maxRecDepth 10000 in
theorem poll_never_misses_append_late :
    (∃ batch, batch ≠ [] ∧ ((onTape.ask 1 (.poll 10)).run
      (lateAppend ++ (Event.turn 1 :: List.replicate 4 (.turn 0)))).reply? 0 =
        some (.ok (.batch batch))) ∧
    ∃ batch, batch ≠ [] ∧ ((onDisk.ask 1 (.poll 60)).run
      (lateAppend ++ (Event.turn 1 :: List.replicate 48 .tick ++
        List.replicate 4 (Event.turn 0)))).reply? 0 = some (.ok (.batch batch)) := by
  obtain ⟨htape, hdisk⟩ := poll_never_misses_append Script
  obtain ⟨place, lock, hfresh⟩ := onDisk_fresh
  have hidle : onTape.Idle 1 := ⟨⟨_, rfl, rfl⟩, fun e he => by cases he⟩
  have hidle' : onDisk.Idle 1 := by
    refine ⟨⟨site Disk {} { handle := 1 }, ?_, rfl⟩, fun e he => by cases he⟩
    rw [onDisk, openings_clients]
    rfl
  refine ⟨?_, ?_⟩
  · refine (htape onTape [] onTape_fresh [] (by simp) 1 10 hidle _ ?_).nonempty ?_
      (List.prefix_append lateAppend _) ?_ ?_ ?_ <;> decide +kernel
  · refine (hdisk "log" place lock onDisk [] hfresh [] (by simp) 1 60 hidle' _ ?_).nonempty ?_
      (List.prefix_append lateAppend _) ?_ ?_ ?_ <;> decide +kernel

end Clientele

end StatementLog
