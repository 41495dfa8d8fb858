import Mathlib.Data.List.Induction
import StatementLog.Node.Submission
import StatementLog.Proofs.Log.Writing
import StatementLog.Proofs.Replay.Departure
import StatementLog.Proofs.Engine.Shutdown
import StatementLog.Proofs.Statement.Naming

namespace StatementLog

inductive Standing where
  | pending (stage : Submitting)
  | answered (result : Except Error Slot)

inductive Writes {α : Type} (t t' : Tape) (k k' : α) : Option Slot → Option Slot → Prop where
  | idle : t' = t → k' = k → Writes t t' k k' none none
  | write {slot : Slot} {line : List Char} : slot.offset = t.lines.length →
      t'.lines = t.lines ++ [line] → Writes t t' k k' none (some slot)
  | rest {slot : Slot} : t'.lines = t.lines → Writes t t' k k' (some slot) (some slot)

namespace Writes

variable {α : Type} {t t' : Tape} {k k' : α} {o o' : Option Slot}

theorem refl (t : Tape) (k : α) (o : Option Slot) : Writes t t k k o o := by
  cases o with
  | none => exact .idle rfl rfl
  | some slot => exact .rest rfl

theorem imp {β : Type} {l l' : β} (h : Writes t t' k k' o o') (hk : k' = k → l' = l) :
    Writes t t' l l' o o' := by
  cases h with
  | idle ht h => exact .idle ht (hk h)
  | write ho ht => exact .write ho ht
  | rest ht => exact .rest ht

theorem idle_of_none (h : Writes t t' k k' o o') (ho : o' = none) : t' = t ∧ k' = k := by
  cases h with
  | idle ht hk => exact ⟨ht, hk⟩
  | _ => cases ho

theorem write_of_none {slot : Slot} (h : Writes t t' k k' o o') (ho : o = none)
    (ho' : o' = some slot) :
    slot.offset = t.lines.length ∧ ∃ line, t'.lines = t.lines ++ [line] := by
  cases h with
  | idle _ _ => cases ho'
  | write hs ht =>
    cases ho'
    exact ⟨hs, _, ht⟩
  | rest _ => cases ho

theorem rest_of_some {slot : Slot} (h : Writes t t' k k' o o') (ho : o = some slot) :
    t'.lines = t.lines ∧ o' = some slot := by
  cases h with
  | rest ht => exact ⟨ht, ho⟩
  | _ => cases ho

end Writes

structure Filed (lines : List (List Char)) (request : Request) (properties : Properties)
    (slot : Slot) : Prop where
  named : Statement.readId request.text = .ok slot.id
  stands : ∃ time : Int64, lines[slot.offset]? =
    some (Record.line ⟨slot.id, request.payload properties, time.toInt⟩)

theorem Filed.mono {lines lines' : List (List Char)} {request : Request} {properties : Properties}
    {slot : Slot} (h : Filed lines request properties slot) (hl : lines <+: lines') :
    Filed lines' request properties slot := by
  obtain ⟨time, hs⟩ := h.stands
  obtain ⟨more, rfl⟩ := hl
  have hlt := (List.getElem?_eq_some_iff.1 hs).1
  exact ⟨h.named, time, (List.getElem?_append_left hlt).trans hs⟩

namespace Standing

def slot? : Standing → Option Slot
  | pending (.appending id (.announcing offset)) => some ⟨id, offset⟩
  | pending (.marking slot) => some slot
  | answered (.ok slot) => some slot
  | _ => none

section

variable (lines : List (List Char)) (request : Request) (properties : Properties)

def Tends : Standing → Prop
  | pending (.gate r) | pending (.testing r) | pending (.naming r) => r = request
  | pending (.appending id (.writing id' payload)) =>
    id' = id ∧ payload = request.payload properties ∧ Statement.readId request.text = .ok id
  | pending (.appending id (.announcing offset)) => Filed lines request properties ⟨id, offset⟩
  | pending (.marking slot) => Filed lines request properties slot
  | answered (.ok slot) => Filed lines request properties slot
  | answered (.error _) => True

end

variable {lines lines' : List (List Char)} {request : Request} {properties : Properties}
  {slot : Slot} {standing standing' : Standing}

theorem Tends.filed (h : standing.Tends lines request properties)
    (hs : standing.slot? = some slot) : Filed lines request properties slot := by
  unfold slot? at hs
  split at hs <;> cases hs <;> exact h

theorem Tends.mono (h : standing.Tends lines request properties) (hl : lines <+: lines') :
    standing.Tends lines' request properties := by
  unfold Tends at h ⊢
  split at h
  case h_5 | h_6 | h_7 => exact h.mono hl
  all_goals exact h

variable {ε : Type} {s s' : Site Tape TapeClient ε}

def step? (s : Site Tape TapeClient ε) : Standing → Option (Site Tape TapeClient ε × Standing)
  | answered _ => none
  | pending stage =>
    match stage.step s with
    | .wait => none
    | .next s' stage' => some (s', pending stage')
    | .done s' result => some (s', answered result)

theorem step?_writing {id id' : CommandId} {payload : Payload}
    (hs : (pending (.appending id (.writing id' payload))).step? s = some (s', standing')) :
    (∃ e, s' = s ∧ standing' = answered (.error e)) ∨
      s' = { s with log := { s.log with
        lines := s.log.lines ++ [Record.line ⟨id', payload, s.origin + s.now⟩] } } ∧
        standing' = pending (.appending id (.announcing s.log.lines.length)) := by
  cases happ : s.log.append s.node.client ⟨id', payload, s.origin + s.now⟩ with
  | mk r log =>
    have happ' : CommandLog.append s.log s.node.client ⟨id', payload, s.origin + s.now⟩ =
        (r, log) := happ
    cases r with
    | error e =>
      simp only [step?, Submitting.step, Appending.step, happ', Move.within] at hs
      cases hs
      rw [Tape.append_error happ]
      exact .inl ⟨e, rfl, rfl⟩
    | ok n =>
      simp only [step?, Submitting.step, Appending.step, happ', Move.within] at hs
      cases hs
      obtain ⟨rfl, rfl⟩ := Tape.append_ok happ
      exact .inr ⟨rfl, rfl⟩

structure Turned (s s' : Site Tape TapeClient ε) (request : Request)
    (standing standing' : Standing) : Prop where
  properties : s'.node.queue.properties = s.node.queue.properties
  tends : standing.Tends s.log.lines request s.node.queue.properties →
    standing'.Tends s'.log.lines request s.node.queue.properties
  writes : Writes s.log s'.log s.tracker s'.tracker standing.slot? standing'.slot?

theorem Turned.of_idle (hn : s'.node.queue.properties = s.node.queue.properties)
    (hl : s'.log = s.log) (hk : s'.tracker = s.tracker) (ho : standing.slot? = none)
    (ho' : standing'.slot? = none)
    (ht : standing.Tends s.log.lines request s.node.queue.properties →
      standing'.Tends s.log.lines request s.node.queue.properties) :
    Turned s s' request standing standing' := by
  refine ⟨hn, hl ▸ ht, ?_⟩
  rw [ho, ho']
  exact .idle hl hk

theorem step?_turned {time : Int64} (htime : s.origin + s.now = time.toInt)
    (hs : standing.step? s = some (s', standing')) : Turned s s' request standing standing' := by
  cases standing with
  | answered result => cases hs
  | pending stage =>
    cases stage with
    | gate r =>
      rw [step?, Submitting.step] at hs
      cases hr : s.node.queue.ready with
      | true =>
        rw [hr, if_pos rfl] at hs
        cases hs
        exact .of_idle rfl rfl rfl rfl rfl fun h => h
      | false =>
        rw [hr, if_neg Bool.false_ne_true] at hs
        cases hs
        exact .of_idle rfl rfl rfl rfl rfl fun _ => trivial
    | testing r =>
      rw [step?, Submitting.step] at hs
      cases hr : s.node.runnerStopped with
      | true =>
        rw [hr, if_pos rfl] at hs
        cases hs
        exact .of_idle rfl rfl rfl rfl rfl fun _ => trivial
      | false =>
        rw [hr, if_neg Bool.false_ne_true] at hs
        cases hs
        exact .of_idle rfl rfl rfl rfl rfl fun h => h
    | naming r =>
      rw [step?, Submitting.step] at hs
      cases hr : Statement.readId r.text with
      | error fault =>
        rw [hr] at hs
        cases hs
        exact .of_idle rfl rfl rfl rfl rfl fun _ => trivial
      | ok id =>
        rw [hr] at hs
        cases hs
        refine .of_idle rfl rfl rfl rfl rfl ?_
        rintro rfl
        exact ⟨rfl, rfl, hr⟩
    | appending id stage =>
      cases stage with
      | writing id' payload =>
        rcases step?_writing hs with ⟨e, rfl, rfl⟩ | ⟨rfl, rfl⟩
        · exact .of_idle rfl rfl rfl rfl rfl fun _ => trivial
        · refine ⟨rfl, ?_, .write rfl rfl⟩
          rintro ⟨rfl, rfl, hid⟩
          refine ⟨hid, time, ?_⟩
          rw [← htime]
          exact List.getElem?_concat_length
      | announcing offset =>
        cases hs
        exact ⟨rfl, fun h => h, .rest rfl⟩
    | marking slot =>
      cases hs
      exact ⟨rfl, fun h => h, .rest rfl⟩

end Standing

structure Submission where
  queue : Nat
  request : Request
  standing : Standing

/-- What a member itself holds of the tape and of the time is out of date; the bureau has them. -/
structure Bureau (ε : Type) where
  tape : Tape := {}
  clock : Int64 := 0
  members : List (Site Tape TapeClient ε)
  calls : List Submission := []

namespace Bureau

/-- A call of a queue, with the look at its gate or without, as a node has it at its start; a turn of
the call of a number; and all that others do: to a member, to the tape, to the clock. -/
inductive Event (ε : Type) where
  | submit (queue : Nat) (request : Request)
  | enqueue (queue : Nat) (request : Request)
  | turn (call : Nat)
  | change (member : Nat) (site : Site Tape TapeClient ε)
  | shift (available : Bool) (epoch : Nat)
  | clock (time : Int64)

variable {ε : Type}

def properties (x : Bureau ε) (queue : Nat) : Properties :=
  ((x.members[queue]?).map fun s => s.node.queue.properties).getD ∅

def trackers (x : Bureau ε) : List Tracker :=
  x.members.map Site.tracker

def slot? (x : Bureau ε) (call : Nat) : Option Slot :=
  (x.calls[call]?).bind fun c => c.standing.slot?

def site? (x : Bureau ε) (member : Nat) : Option (Site Tape TapeClient ε) :=
  (x.members[member]?).map fun s => { s with log := x.tape, origin := x.clock.toInt - s.now }

def turn? (x : Bureau ε) (call : Nat) : Option (Bureau ε) := do
  let c ← x.calls[call]?
  let (s, standing) ← c.standing.step? (← x.site? c.queue)
  return { x with
    tape := s.log
    members := x.members.set c.queue s
    calls := x.calls.set call { c with standing } }

def turn (x : Bureau ε) (call : Nat) : Bureau ε :=
  (x.turn? call).getD x

def accept (x : Bureau ε) (queue : Nat) (request : Request) (stage : Submitting) : Bureau ε :=
  { x with calls := x.calls ++ [⟨queue, request, .pending stage⟩] }

def change (x : Bureau ε) (member : Nat) (site : Site Tape TapeClient ε) : Bureau ε :=
  { x with members := x.members.modify member fun s =>
      site.mapNode fun n =>
        { n with queue := { n.queue with properties := s.node.queue.properties } } }

def act (x : Bureau ε) : Event ε → Bureau ε
  | .submit queue request => x.accept queue request (.gate request)
  | .enqueue queue request => x.accept queue request (.naming request)
  | .turn call => x.turn call
  | .change member site => x.change member site
  | .shift available epoch => { x with tape := { x.tape with available, epoch } }
  | .clock time => { x with clock := time }

def run (x : Bureau ε) (es : List (Event ε)) : Bureau ε :=
  es.foldl act x

def opened (members : List (Site Tape TapeClient ε)) : Bureau ε where
  members

variable {x y : Bureau ε} {i j : Nat} {es : List (Event ε)} {slot : Slot}

theorem run_concat (x : Bureau ε) (es : List (Event ε)) (e : Event ε) :
    x.run (es ++ [e]) = (x.run es).act e :=
  List.foldl_concat ..

theorem turn?_eq_some (h : x.turn? j = some y) :
    ∃ c s s' standing, x.calls[j]? = some c ∧ x.members[c.queue]? = some s ∧
      Standing.Turned { s with log := x.tape, origin := x.clock.toInt - s.now } s' c.request
        c.standing standing ∧
      y = { x with
        tape := s'.log
        members := x.members.set c.queue s'
        calls := x.calls.set j { c with standing } } := by
  obtain ⟨c, hc, h⟩ := Option.bind_eq_some_iff.1 h
  obtain ⟨site, hsite, h⟩ := Option.bind_eq_some_iff.1 h
  obtain ⟨s, hs, rfl⟩ := Option.map_eq_some_iff.1 hsite
  obtain ⟨⟨s', standing⟩, hstep, h⟩ := Option.bind_eq_some_iff.1 h
  cases h
  exact ⟨c, s, s', standing, hc, hs, Standing.step?_turned (Int.sub_add_cancel ..) hstep, rfl⟩

theorem turn_cases (x : Bureau ε) (j : Nat) : x.turn j = x ∨ x.turn? j = some (x.turn j) := by
  rw [turn]
  cases x.turn? j with
  | none => exact .inl rfl
  | some y => exact .inr rfl

theorem slot?_set_calls {c : Submission} (hc : x.calls[j]? = some c) (standing : Standing)
    (tape : Tape) (members : List (Site Tape TapeClient ε)) (i : Nat) :
    slot? { x with tape, members, calls := x.calls.set j { c with standing } } i =
      if j = i then standing.slot? else x.slot? i := by
  have hlt := (List.getElem?_eq_some_iff.1 hc).1
  rw [slot?, List.getElem?_set]
  by_cases hij : j = i
  · rw [if_pos hij, if_pos hij, if_pos hlt]
    rfl
  · rw [if_neg hij, if_neg hij]
    rfl

theorem turn_writes (x : Bureau ε) (j : Nat) :
    Writes x.tape (x.turn j).tape x.trackers (x.turn j).trackers (x.slot? j)
      ((x.turn j).slot? j) := by
  rcases x.turn_cases j with h | h
  · rw [h]
    exact .refl ..
  · obtain ⟨c, s, s', standing, hc, hs, ht, he⟩ := turn?_eq_some h
    have hslot : x.slot? j = c.standing.slot? := by rw [slot?, hc, Option.bind_some]
    rw [he, slot?_set_calls hc, if_pos rfl, hslot]
    refine ht.writes.imp fun hk => ?_
    have hmap : x.trackers[c.queue]? = some s.tracker := by
      rw [trackers, List.getElem?_map, hs]
      rfl
    obtain ⟨hlt, he⟩ := List.getElem?_eq_some_iff.1 hmap
    rw [trackers, List.map_set, hk, ← trackers]
    show x.trackers.set c.queue s.tracker = x.trackers
    rw [← he]
    exact List.set_getElem_self hlt

theorem slot?_turn_of_ne (h : i ≠ j) : (x.turn j).slot? i = x.slot? i := by
  rcases x.turn_cases j with he | hs
  · rw [he]
  · obtain ⟨c, s, s', standing, hc, -, -, he⟩ := turn?_eq_some hs
    rw [he, slot?_set_calls hc, if_neg (Ne.symm h)]

theorem properties_set {s s' : Site Tape TapeClient ε} (hs : x.members[i]? = some s)
    (hp : s'.node.queue.properties = s.node.queue.properties) (queue : Nat) :
    (((x.members.set i s')[queue]?).map fun s => s.node.queue.properties).getD ∅ =
      x.properties queue := by
  rw [properties, List.getElem?_set]
  by_cases hi : i = queue
  · subst hi
    rw [if_pos rfl, if_pos (List.getElem?_eq_some_iff.1 hs).1, hs, Option.map_some,
      Option.map_some, hp]
  · rw [if_neg hi]

theorem properties_act (x : Bureau ε) (e : Event ε) (queue : Nat) :
    (x.act e).properties queue = x.properties queue := by
  cases e with
  | turn j =>
    rcases x.turn_cases j with h | h
    · rw [act, h]
    · obtain ⟨c, s, s', standing, -, hs, ht, he⟩ := turn?_eq_some h
      rw [act, he]
      exact properties_set hs ht.properties queue
  | change member site =>
    rw [properties, act, change, List.getElem?_modify, properties]
    cases x.members[queue]? with
    | none => rfl
    | some s => by_cases hi : member = queue <;> simp [hi, Site.mapNode]
  | _ => rfl

theorem slot?_accept (x : Bureau ε) (queue : Nat) (request : Request) {stage : Submitting}
    (hs : (Standing.pending stage).slot? = none) (j : Nat) :
    (x.accept queue request stage).slot? j = x.slot? j := by
  rw [slot?, accept, slot?]
  rcases Nat.lt_trichotomy j x.calls.length with h | h | h
  · rw [List.getElem?_append_left h]
  · subst h
    rw [List.getElem?_concat_length, List.getElem?_eq_none (Nat.le_refl _)]
    exact hs
  · rw [List.getElem?_eq_none (Nat.le_of_lt h), List.getElem?_eq_none]
    rw [List.length_append]
    exact h

theorem act_cases (x : Bureau ε) (e : Event ε) :
    (x.act e).tape.lines = x.tape.lines ∧ (∀ i, (x.act e).slot? i = x.slot? i) ∨
      ∃ j slot line, e = .turn j ∧ x.slot? j = none ∧ slot.offset = x.tape.lines.length ∧
        (x.act e).tape.lines = x.tape.lines ++ [line] ∧
        ∀ i, (x.act e).slot? i = if i = j then some slot else x.slot? i := by
  cases e with
  | turn j =>
    have hw := x.turn_writes j
    have hother (i : Nat) (o : Option Slot) (ho : (x.turn j).slot? j = o) :
        (x.turn j).slot? i = if i = j then o else x.slot? i := by
      by_cases hij : i = j
      · rw [if_pos hij, hij, ho]
      · rw [if_neg hij, slot?_turn_of_ne hij]
    cases hs : x.slot? j with
    | some slot =>
      obtain ⟨hl, hs'⟩ := hw.rest_of_some hs
      refine .inl ⟨hl, fun i => (hother i _ hs').trans ?_⟩
      split
      · next hij => rw [hij, hs]
      · rfl
    | none =>
      cases hs' : (x.turn j).slot? j with
      | none =>
        refine .inl ⟨congrArg Tape.lines (hw.idle_of_none hs').1, fun i => (hother i _ hs').trans ?_⟩
        split
        · next hij => rw [hij, hs]
        · rfl
      | some slot =>
        obtain ⟨ho, line, hl⟩ := hw.write_of_none hs hs'
        exact .inr ⟨j, slot, line, rfl, hs, ho, hl, fun i => hother i _ hs'⟩
  | submit queue request => exact .inl ⟨rfl, x.slot?_accept queue request rfl⟩
  | enqueue queue request => exact .inl ⟨rfl, x.slot?_accept queue request rfl⟩
  | _ => exact .inl ⟨rfl, fun _ => rfl⟩

theorem lines_act (x : Bureau ε) (e : Event ε) : x.tape.lines <+: (x.act e).tape.lines := by
  rcases x.act_cases e with ⟨hl, -⟩ | ⟨j, slot, line, -, -, -, hl, -⟩
  · exact hl ▸ List.prefix_rfl
  · exact hl ▸ List.prefix_append ..

theorem slot?_act (x : Bureau ε) (e : Event ε) (j : Nat) :
    (x.act e).slot? j = x.slot? j ∨ e = .turn j ∧ x.slot? j = none := by
  rcases x.act_cases e with ⟨-, hs⟩ | ⟨i, slot, line, rfl, hn, -, -, hs⟩
  · exact .inl (hs j)
  · rw [hs j]
    split
    · next hij => exact .inr ⟨hij ▸ rfl, hij ▸ hn⟩
    · exact .inl rfl

theorem turn_prefix_concat {pre : List (Event ε)} {e : Event ε}
    (h : pre ++ [.turn j] <+: es ++ [e]) :
    pre = es ∧ e = .turn j ∨ pre ++ [.turn j] <+: es := by
  rcases List.prefix_concat_iff.1 h with he | hp
  · obtain ⟨hpre, hlast⟩ := List.append_inj' he rfl
    cases hlast
    exact .inl ⟨hpre, rfl⟩
  · exact .inr hp

theorem turns_idle (h : (x.run es).slot? j = none) {pre : List (Event ε)}
    (hp : pre ++ [.turn j] <+: es) :
    ((x.run pre).turn j).tape = (x.run pre).tape ∧
      ((x.run pre).turn j).trackers = (x.run pre).trackers := by
  induction es using List.reverseRecOn with
  | nil => exact absurd (List.prefix_nil.1 hp) (List.append_ne_nil_of_right_ne_nil _ (by simp))
  | append_singleton es e ih =>
    rw [run_concat] at h
    rcases turn_prefix_concat hp with ⟨rfl, rfl⟩ | hp
    · exact ((x.run pre).turn_writes j).idle_of_none h
    · refine ih ?_ hp
      rcases (x.run es).slot?_act e j with hs | ⟨-, hs⟩
      · exact hs.symm.trans h
      · exact hs

theorem turns_write (ho : x.slot? j = none) (h : (x.run es).slot? j = some slot) :
    ∃ pre, pre ++ [.turn j] <+: es ∧ slot.offset = (x.run pre).tape.lines.length ∧
      (∃ line, ((x.run pre).turn j).tape.lines = (x.run pre).tape.lines ++ [line]) ∧
      ∀ pre', pre' ++ [.turn j] <+: es → pre' ≠ pre →
        ((x.run pre').turn j).tape.lines = (x.run pre').tape.lines := by
  induction es using List.reverseRecOn with
  | nil =>
    rw [run, List.foldl_nil, ho] at h
    cases h
  | append_singleton es e ih =>
    rw [run_concat] at h
    rcases (x.run es).slot?_act e j with hs | ⟨rfl, hs⟩
    · obtain ⟨pre, hp, hoff, hline, hrest⟩ := ih (hs.symm.trans h)
      refine ⟨pre, hp.trans (List.prefix_append ..), hoff, hline, fun pre' hp' hne => ?_⟩
      rcases turn_prefix_concat hp' with ⟨rfl, rfl⟩ | hp'
      · exact (((x.run pre').turn_writes j).rest_of_some (hs.symm.trans h)).1
      · exact hrest pre' hp' hne
    · obtain ⟨hoff, hline⟩ := ((x.run es).turn_writes j).write_of_none hs h
      refine ⟨es, List.prefix_rfl, hoff, hline, fun pre' hp' hne => ?_⟩
      rcases turn_prefix_concat hp' with ⟨he, -⟩ | hp'
      · exact absurd he hne
      · rw [(turns_idle hs hp').1]

theorem command?_of_filed {t : Tape} {request : Request} {properties : Properties}
    (h : Filed t.lines request properties slot) :
    t.command? slot.offset = some ⟨slot.id, request.payload properties, slot.offset⟩ := by
  obtain ⟨time, hl⟩ := h.stands
  have hr : Record.Readable ⟨slot.id, request.payload properties, time.toInt⟩ :=
    ⟨Statement.readId_entity h.named, time.le_toInt, time.toInt_lt⟩
  rw [Tape.command?, hl, Option.bind_some, Record.decode_readable hr]
  rfl

structure Sound (properties : Nat → Properties) (x : Bureau ε) : Prop where
  kept (queue : Nat) : x.properties queue = properties queue
  tends : ∀ c ∈ x.calls, c.standing.Tends x.tape.lines c.request (properties c.queue)
  owner {n : Nat} : n < x.tape.lines.length → ∃ j slot, x.slot? j = some slot ∧ slot.offset = n
  apart {i j : Nat} {slot slot' : Slot} : x.slot? i = some slot → x.slot? j = some slot' →
    slot.offset = slot'.offset → i = j

theorem opened_sound (members : List (Site Tape TapeClient ε)) :
    (opened members).Sound (opened members).properties where
  kept _ := rfl
  tends _ hc := nomatch hc
  owner hn := nomatch hn
  apart hi := nomatch hi

namespace Sound

variable {properties : Nat → Properties}

theorem exists_call (h : x.Sound properties) (hs : x.slot? j = some slot) :
    ∃ c, x.calls[j]? = some c ∧ c.standing.slot? = some slot ∧
      Filed x.tape.lines c.request (properties c.queue) slot := by
  obtain ⟨c, hc, hs⟩ := Option.bind_eq_some_iff.1 hs
  exact ⟨c, hc, hs, (h.tends c (List.mem_of_getElem? hc)).filed hs⟩

theorem slot_lt (h : x.Sound properties) (hs : x.slot? j = some slot) :
    slot.offset < x.tape.lines.length := by
  obtain ⟨c, -, -, hf⟩ := h.exists_call hs
  obtain ⟨time, hl⟩ := hf.stands
  exact (List.getElem?_eq_some_iff.1 hl).1

theorem act_tends (h : x.Sound properties) (e : Event ε) :
    ∀ c ∈ (x.act e).calls,
      c.standing.Tends (x.act e).tape.lines c.request (properties c.queue) := by
  have hold (c : Submission) (hc : c ∈ x.calls) :
      c.standing.Tends (x.act e).tape.lines c.request (properties c.queue) :=
    (h.tends c hc).mono (x.lines_act e)
  cases e with
  | turn j =>
    rcases x.turn_cases j with he | hs
    · rw [act, he]
      exact h.tends
    · obtain ⟨c, s, s', standing, hc, hs, ht, he⟩ := turn?_eq_some hs
      have hp : s.node.queue.properties = properties c.queue := by
        rw [← h.kept, Bureau.properties, hs]
        rfl
      have hnew := ht.tends (hp ▸ h.tends c (List.mem_of_getElem? hc))
      intro d hd
      have hlines : (x.act (.turn j)).tape.lines = s'.log.lines := by rw [act, he]
      rw [act, he] at hd
      rcases List.mem_or_eq_of_mem_set hd with hd | rfl
      · exact hold d hd
      · rw [hlines, ← hp]
        exact hnew
  | submit queue request | enqueue queue request =>
    intro c hc
    rcases List.mem_append.1 hc with hc | hc
    · exact hold c hc
    · cases List.mem_singleton.1 hc
      exact rfl
  | _ => exact hold

theorem act (h : x.Sound properties) (e : Event ε) : (x.act e).Sound properties := by
  refine ⟨fun queue => (x.properties_act e queue).trans (h.kept queue), h.act_tends e, ?_, ?_⟩
  · intro n hn
    rcases x.act_cases e with ⟨hl, hs⟩ | ⟨j, slot, line, -, hj, ho, hl, hs⟩
    · obtain ⟨i, slot, hi, ho⟩ := h.owner (hl ▸ hn)
      exact ⟨i, slot, (hs i).trans hi, ho⟩
    · rw [hl, List.length_append] at hn
      rcases Nat.lt_succ_iff_lt_or_eq.1 hn with hn | rfl
      · obtain ⟨i, slot', hi, ho'⟩ := h.owner hn
        have hij : i ≠ j := fun hij => by rw [hij, hj] at hi; cases hi
        exact ⟨i, slot', by rw [hs, if_neg hij, hi], ho'⟩
      · exact ⟨j, slot, by rw [hs, if_pos rfl], ho⟩
  · intro i k slot slot' hi hk ho
    rcases x.act_cases e with ⟨-, hs⟩ | ⟨j, new, line, -, -, hnew, -, hs⟩
    · exact h.apart ((hs i).symm.trans hi) ((hs k).symm.trans hk) ho
    · rw [hs] at hi hk
      -- the new slot lies behind the tape as it was, the others on it
      split at hi <;> split at hk
      · next hij hkj => exact hij.trans hkj.symm
      · cases hi
        exact absurd (h.slot_lt hk) (by omega)
      · cases hk
        exact absurd (h.slot_lt hi) (by omega)
      · exact h.apart hi hk ho

theorem run (h : x.Sound properties) (es : List (Event ε)) : (x.run es).Sound properties := by
  induction es generalizing x with
  | nil => exact h
  | cons e es ih => exact ih (h.act e)

theorem command?_of_slot? (h : x.Sound properties) (hs : x.slot? j = some slot) :
    ∃ c, x.calls[j]? = some c ∧ c.standing.slot? = some slot ∧
      Statement.readId c.request.text = .ok slot.id ∧
      x.tape.command? slot.offset =
        some ⟨slot.id, c.request.payload (properties c.queue), slot.offset⟩ := by
  obtain ⟨c, hc, hs, hf⟩ := h.exists_call hs
  exact ⟨c, hc, hs, hf.named, command?_of_filed hf⟩

theorem call_of_command? (h : x.Sound properties) {n : Nat} {command : Command}
    (hn : x.tape.command? n = some command) :
    command.offset = n ∧
      Statement.readId command.payload.statement = .ok command.id ∧
      ∃! j : Nat, ∃ c : Submission, x.calls[j]? = some c ∧ c.standing.slot? = some ⟨command.id, n⟩ ∧
        command.payload = c.request.payload (properties c.queue) := by
  obtain ⟨line, hline, -⟩ := Tape.command?_decode hn
  obtain ⟨j, slot, hs, rfl⟩ := h.owner (List.getElem?_eq_some_iff.1 hline).1
  obtain ⟨c, hc, hcs, hid, hcommand⟩ := h.command?_of_slot? hs
  cases hn.symm.trans hcommand
  refine ⟨rfl, hid, j, ⟨c, hc, hcs, rfl⟩, ?_⟩
  rintro i ⟨d, hd, hds, -⟩
  have hi : x.slot? i = some slot := by rw [slot?, hd, Option.bind_some, hds]
  exact h.apart hi hs rfl

end Sound

/-- Whatever the queues of a tape are asked for and whatever happens in between: a call that is
refused has left the tape and all trackers as they were, one that succeeds has written one record, at
the offset it returns. Every client reads the whole tape from its cursor on, and each command there is
that of one call, with the text and the overrides it was called with, the properties of its queue and
the id of this text. To such a command an engine answers, now or once more, with an effect that asks
for shutdown exactly if the id is that of a request to terminate the cluster. -/
theorem queues_keep_tape_readable (members : List (Site Tape TapeClient ε)) (es : List (Event ε)) :
    (∀ j c e, ((opened members).run es).calls[j]? = some c → c.standing = .answered (.error e) →
      ∀ pre, pre ++ [.turn j] <+: es →
        (((opened members).run pre).turn j).tape = ((opened members).run pre).tape ∧
          (((opened members).run pre).turn j).trackers = ((opened members).run pre).trackers) ∧
    ∃ commands : List Command,
      commands.length = ((opened members).run es).tape.lines.length ∧
      (∀ client : TapeClient, (((opened members).run es).tape.read client).1 =
        .ok (commands.drop client.cursor)) ∧
      (∀ j c slot, ((opened members).run es).calls[j]? = some c →
        c.standing = .answered (.ok slot) →
          commands[slot.offset]? = some
            ⟨slot.id, c.request.payload ((opened members).properties c.queue), slot.offset⟩ ∧
          ∃ pre, pre ++ [.turn j] <+: es ∧
            slot.offset = ((opened members).run pre).tape.lines.length ∧
            (∃ line, (((opened members).run pre).turn j).tape.lines =
              ((opened members).run pre).tape.lines ++ [line]) ∧
            ∀ pre', pre' ++ [.turn j] <+: es → pre' ≠ pre →
              (((opened members).run pre').turn j).tape.lines =
                ((opened members).run pre').tape.lines) ∧
      ∀ n command, commands[n]? = some command →
        command.offset = n ∧
        Statement.readId command.payload.statement = .ok command.id ∧
        (∃! j : Nat, ∃ c : Submission, ((opened members).run es).calls[j]? = some c ∧
          c.standing.slot? = some ⟨command.id, n⟩ ∧
          command.payload = c.request.payload ((opened members).properties c.queue)) ∧
        ∀ (e : Engine) (b : Broker) (mode : Mode),
          (∀ effect, (e.apply b command mode).1 = .ok effect →
            effect.shutdown = command.id.isClusterTerminate) ∧
          (command.id.isClusterTerminate = true →
            ∃ effect, (e.apply b command mode).1 = .ok effect) := by
  have hx := (opened_sound members).run es
  have hslot {j : Nat} {c : Submission} (hc : ((opened members).run es).calls[j]? = some c) :
      ((opened members).run es).slot? j = c.standing.slot? := by
    rw [slot?, hc, Option.bind_some]
  obtain ⟨commands, hlen, hget, hread⟩ := Tape.exists_commands fun n hn => by
    obtain ⟨j, slot, hs, rfl⟩ := hx.owner hn
    obtain ⟨c, -, -, -, hcommand⟩ := hx.command?_of_slot? hs
    rw [hcommand]
    rfl
  refine ⟨?_, commands, hlen, hread, ?_, ?_⟩
  · intro j c e hc he pre hp
    refine turns_idle ?_ hp
    rw [hslot hc, he]
    rfl
  · intro j c slot hc hok
    have hs : ((opened members).run es).slot? j = some slot := by
      rw [hslot hc, hok]
      rfl
    obtain ⟨d, hd, -, -, hcommand⟩ := hx.command?_of_slot? hs
    cases hc.symm.trans hd
    exact ⟨(hget _).trans hcommand, turns_write rfl hs⟩
  · intro n command hn
    obtain ⟨hoffset, hid, hcall⟩ := hx.call_of_command? ((hget n).symm.trans hn)
    refine ⟨hoffset, hid, hcall, fun e b mode => ⟨fun effect he => ?_, fun ht => ?_⟩⟩
    · exact Engine.apply_shutdown hid he
    · obtain ⟨effect, he, -⟩ := e.apply_termination b mode hid ht
      exact ⟨effect, he⟩

def result? (x : Bureau ε) (call : Nat) : Option (Except Error Slot) :=
  (x.calls[call]?).bind fun c =>
    match c.standing with
    | .answered result => some result
    | .pending _ => none

theorem answered_of_result? {result : Except Error Slot} (h : x.result? j = some result) :
    ∃ c, x.calls[j]? = some c ∧ c.standing = .answered result := by
  obtain ⟨c, hc, hr⟩ := Option.bind_eq_some_iff.1 h
  refine ⟨c, hc, ?_⟩
  split at hr
  · next hs =>
    cases hr
    exact hs
  · cases hr

def pair : List (Site Tape TapeClient Unit) :=
  [(Lifetime.onTape [] {} ()).mapNode Node.markReady, Lifetime.onTape [] {} ()]

def requests : List (Event Unit) :=
  [.submit 1 { text := "TERMINATE CLUSTER;" }, .turn 0, .clock 7,
    .submit 0 { text := "TERMINATE CLUSTER;" }] ++ List.replicate 6 (.turn 1)

def termination : Slot :=
  ⟨⟨.cluster, "TerminateCluster", .terminate⟩, 0⟩

theorem queues_keep_tape_readable_pair :
    (∀ pre, pre ++ [.turn 0] <+: requests →
      (((opened pair).run pre).turn 0).tape = ((opened pair).run pre).tape) ∧
    ∃ command : Command, command.id = termination.id ∧
      command.payload.statement = "TERMINATE CLUSTER;" ∧
      (((opened pair).run requests).tape.read {}).1 = .ok [command] ∧
      ∀ (e : Engine) (b : Broker) (mode : Mode),
        ∃ effect, (e.apply b command mode).1 = .ok effect ∧ effect.shutdown = true := by
  have hrun : ((opened pair).run requests).result? 0 = some (.error .notReady) ∧
      ((opened pair).run requests).result? 1 = some (.ok termination) ∧
      ((opened pair).run requests).tape.lines.length = 1 ∧
      ((opened pair).run requests).calls[1]?.map Submission.request =
        some { text := "TERMINATE CLUSTER;" } := by
    decide +kernel
  obtain ⟨hrefused, htaken, hsize, hrequest⟩ := hrun
  obtain ⟨c, hc, hrefused⟩ := answered_of_result? hrefused
  obtain ⟨d, hd, htaken⟩ := answered_of_result? htaken
  rw [hd] at hrequest
  obtain ⟨hidle, commands, hlen, hread, hok, hcommand⟩ := queues_keep_tape_readable pair requests
  have hstands := (hok 1 d termination hd htaken).1
  obtain ⟨command, rfl⟩ := List.length_eq_one_iff.1 (hlen.trans hsize)
  cases hstands
  have happly := (hcommand 0 _ rfl).2.2.2
  refine ⟨fun pre hp => (hidle 0 c _ hc hrefused pre hp).1, _, rfl, ?_, hread {}, ?_⟩
  · exact congrArg Request.text (Option.some.inj hrequest)
  · intro e b mode
    obtain ⟨effect, he⟩ := (happly e b mode).2 rfl
    exact ⟨effect, he, (happly e b mode).1 effect he⟩

end Bureau

end StatementLog
