import Mathlib.Data.List.Induction
import StatementLog.Node.Submission
import StatementLog.Proofs.Tracker.Fate

namespace StatementLog

inductive Ticket where
  | held
  | awaited (stage : Awaiting)
  | answered (result : Except Error Status)
  | dropped

def Ticket.answer? : Ticket → Option (Except Error Status)
  | answered r => some r
  | held | awaited _ | dropped => none

def Ticket.fate (v : Tracker.Waiting) : Ticket → Tracker.Waiting
  | answered (.ok status) => .resolved status
  | answered (.error _) => .dropped
  | held | awaited _ | dropped => v

def Ticket.handle? : Ticket → Option StatusHandle
  | awaited (.arriving h _) | awaited (.waiting h _) => some h
  | held | answered _ | dropped => none

/-- A tracker at its site, and the handles that it has given out, in the order in which it did. -/
structure Desk (μ κ ε : Type) where
  site : Site μ κ ε
  tickets : List (StatusHandle × Ticket) := []

namespace Desk

/-- A call of the tracker, or what happens to the handle of a number: it is awaited, its wait gets a
turn, or it is dropped. -/
inductive Event where
  | register (slot : Slot)
  | publish (slot : Slot) (status : Status)
  | markQueued (slot : Slot)
  | await (ticket timeout : Nat)
  | turn (ticket : Nat)
  | drop (ticket : Nat)
  | close
  | pass (duration : Nat)

namespace Event

def terminal? (slot : Slot) : Event → Option Status
  | publish slot' status => if slot' = slot ∧ status.isTerminal then some status else none
  | _ => none

def verdict? (slot : Slot) : Event → Option Tracker.Waiting
  | close => some .dropped
  | e => (e.terminal? slot).map .resolved

end Event

variable {μ κ ε : Type}

def setTicket (x : Desk μ κ ε) (i : Nat) (ticket : Ticket) : Desk μ κ ε :=
  { x with tickets := x.tickets.modify i fun t => (t.1, ticket) }

def turn (x : Desk μ κ ε) (i : Nat) : Desk μ κ ε :=
  match x.tickets[i]? with
  | some (_, .awaited stage) =>
    match stage.step x.site with
    | .wait => x
    | .next site stage => { x with site }.setTicket i (.awaited stage)
    | .done site result => { x with site }.setTicket i (.answered result)
  | _ => x

def act (x : Desk μ κ ε) : Event → Desk μ κ ε
  | .register slot =>
    let (handle, tracker) := x.site.tracker.register slot
    { site := { x.site with tracker }, tickets := x.tickets ++ [(handle, .held)] }
  | .publish slot status => { x with site := x.site.publish slot status }
  | .markQueued slot =>
    { x with site := { x.site with tracker := x.site.tracker.markQueued slot } }
  | .await i timeout =>
    match x.tickets[i]? with
    | some (handle, .held) => x.setTicket i (.awaited (.arriving handle timeout))
    | _ => x
  | .turn i => x.turn i
  | .drop i =>
    match x.tickets[i]? with
    | some (_, .held) | some (_, .awaited _) => x.setTicket i .dropped
    | _ => x
  | .close => { x with site := x.site.closeTracker }
  | .pass duration => { x with site := { x.site with now := x.site.now + duration } }

def run (x : Desk μ κ ε) (es : List Event) : Desk μ κ ε :=
  es.foldl act x

def opened (s : Site μ κ ε) (capacity : Nat) (es : List Event) : Desk μ κ ε :=
  run { site := { s with tracker := .ofCapacity capacity } } es

def registered (x : Desk μ κ ε) (slot : Slot) (es : List Event) : Desk μ κ ε :=
  (x.act (.register slot)).run es

def handle (x : Desk μ κ ε) (slot : Slot) : StatusHandle :=
  ⟨slot, x.tickets.length⟩

/-- What a wait for the slot comes to that is registered now: a status that is remembered is final,
and else the first event decides that settles anything. -/
def verdict (x : Desk μ κ ε) (slot : Slot) (es : List Event) : Tracker.Waiting :=
  (((x.site.tracker.completed.lookup? slot).map .resolved).or
    (es.findSome? (Event.verdict? slot))).getD .pending

variable {x y : Desk μ κ ε} {e : Event} {es : List Event} {i j : Nat} {h : StatusHandle}
  {ticket ticket' : Ticket} {slot : Slot} {v : Tracker.Waiting}

theorem run_append (x : Desk μ κ ε) (es es' : List Event) :
    x.run (es ++ es') = (x.run es).run es' :=
  List.foldl_append

theorem registered_concat (x : Desk μ κ ε) (slot : Slot) (es : List Event) (e : Event) :
    x.registered slot (es ++ [e]) = (x.registered slot es).act e :=
  run_append ..

theorem ticket?_setTicket (x : Desk μ κ ε) (i j : Nat) (ticket : Ticket) :
    (x.setTicket i ticket).tickets[j]? =
      if i = j then x.tickets[j]?.map (fun t => (t.1, ticket)) else x.tickets[j]? := by
  rw [setTicket, List.getElem?_modify]
  split
  · rfl
  · exact Option.map_id' ..

def hear (v : Tracker.Waiting) (settled : Option Tracker.Waiting) : Tracker.Waiting :=
  match v with
  | .pending => settled.getD .pending
  | v => v

theorem Event.verdict?_ne_pending (slot : Slot) (e : Event) : e.verdict? slot ≠ some .pending := by
  cases e <;> simp [verdict?, terminal?]

theorem verdict_concat (x : Desk μ κ ε) (slot : Slot) (es : List Event) (e : Event) :
    x.verdict slot (es ++ [e]) = hear (x.verdict slot es) (e.verdict? slot) := by
  have hn (e : Event) := e.verdict?_ne_pending slot
  simp only [verdict, List.findSome?_append, List.findSome?_singleton]
  cases x.site.tracker.completed.lookup? slot with
  | some status => rfl
  | none =>
    cases hf : es.findSome? (Event.verdict? slot) with
    | none => rfl
    | some v =>
      obtain ⟨e', -, he⟩ := List.exists_of_findSome?_eq_some hf
      cases v with
      | pending => exact absurd he (hn e')
      | _ => rfl

/-- How a wait ends in the turn that ends it, by what has become of it. Only one whose patience is
over takes anyone off the table, and only itself. -/
inductive Concludes (s : Site μ κ ε) (h : StatusHandle) (deadline : Nat) :
    Tracker.Waiting → Except Error Status → Tracker → Prop where
  | resolved (status : Status) : Concludes s h deadline (.resolved status) (.ok status) s.tracker
  | dropped : Concludes s h deadline .dropped
      (.error (.runnerStopped (.beforeStatus h.slot.id h.slot.offset))) s.tracker
  | pending (waiters : Std.ExtTreeMap Slot (List Nat) compare) : deadline ≤ s.now →
      h.waiter ∈ s.tracker.waitersOf h.slot →
        (∀ slot, { s.tracker with waiters }.waitersOf slot =
          (s.tracker.waitersOf slot).filter (· ≠ h.waiter)) →
            Concludes s h deadline .pending (.error (.statusTimeout h.slot.id h.slot.offset))
              { s.tracker with waiters }

inductive Moves (now i : Nat) (h : StatusHandle) : Event → Ticket → Ticket → Prop where
  | rest (e : Event) (ticket : Ticket) : Moves now i h e ticket ticket
  | await (timeout : Nat) : Moves now i h (.await i timeout) .held (.awaited (.arriving h timeout))
  | arrive (timeout : Nat) : Moves now i h (.turn i) (.awaited (.arriving h timeout))
      (.awaited (.waiting h (now + timeout)))
  | drop (ticket : Ticket) : ticket.answer? = none → Moves now i h (.drop i) ticket .dropped

structure Numbered (x : Desk μ κ ε) : Prop where
  length : x.tickets.length = x.site.tracker.nextWaiter
  waiter {i : Nat} {h : StatusHandle} {ticket : Ticket} :
    x.tickets[i]? = some (h, ticket) → h.waiter = i
  own {i : Nat} {h h' : StatusHandle} {ticket : Ticket} :
    x.tickets[i]? = some (h, ticket) → ticket.handle? = some h' → h' = h

theorem waiting_done {s s' : Site μ κ ε} {deadline : Nat}
    {r : Except Error Status} (hd : (Awaiting.waiting h deadline).step s = .done s' r) :
    s' = s ∨ s' = { s with tracker := s.tracker.evict h } := by
  simp only [Awaiting.step] at hd
  split at hd
  · cases hd
    exact .inl rfl
  · cases hd
    exact .inl rfl
  · split at hd <;> cases hd
    exact .inr rfl

theorem turn_cases (x : Desk μ κ ε) (i : Nat) :
    (x.turn i = x ∧ ∀ h h' deadline, x.tickets[i]? = some (h, .awaited (.waiting h' deadline)) →
        (Awaiting.waiting h' deadline).step x.site = .wait) ∨
      (∃ h h' timeout, x.tickets[i]? = some (h, .awaited (.arriving h' timeout)) ∧
        x.turn i = x.setTicket i (.awaited (.waiting h' (x.site.now + timeout)))) ∨
      ∃ h h' deadline s r, x.tickets[i]? = some (h, .awaited (.waiting h' deadline)) ∧
        (Awaiting.waiting h' deadline).step x.site = .done s r ∧
        x.turn i = { x with site := s }.setTicket i (.answered r) := by
  unfold turn
  split
  · next h stage ht =>
    cases stage with
    | arriving h' timeout => exact .inr (.inl ⟨h, h', timeout, ht, rfl⟩)
    | waiting h' deadline =>
      cases hs : (Awaiting.waiting h' deadline).step x.site with
      | wait =>
        refine .inl ⟨rfl, fun _ _ _ hw => ?_⟩
        cases ht.symm.trans hw
        exact hs
      | next s stage =>
        simp only [Awaiting.step] at hs
        split at hs <;> try split at hs
        all_goals cases hs
      | done s r => exact .inr (.inr ⟨h, h', deadline, s, r, ht, hs, rfl⟩)
  · next hn => exact .inl ⟨rfl, fun _ _ _ hw => (hn _ _ hw).elim⟩

theorem Numbered.setTicket (hx : x.Numbered)
    (ht : ∀ h t h', x.tickets[i]? = some (h, t) → ticket.handle? = some h' → h' = h) :
    (x.setTicket i ticket).Numbered where
  length := by rw [Desk.setTicket, List.length_modify]; exact hx.length
  waiter {j h t} hj := by
    rw [ticket?_setTicket] at hj
    split at hj
    · obtain ⟨⟨h', t'⟩, ht', he⟩ := Option.map_eq_some_iff.1 hj
      cases he
      exact hx.waiter ht'
    · exact hx.waiter hj
  own {j h h' t} hj hh := by
    rw [ticket?_setTicket] at hj
    split at hj
    · next he =>
      obtain ⟨⟨h'', t'⟩, ht', heq⟩ := Option.map_eq_some_iff.1 hj
      cases heq
      exact ht _ _ _ (he ▸ ht') hh
    · exact hx.own hj hh

theorem Numbered.congr (hx : x.Numbered) (ht : y.tickets = x.tickets)
    (hn : y.site.tracker.nextWaiter = x.site.tracker.nextWaiter) : y.Numbered :=
  ⟨by rw [ht, hn]; exact hx.length, by rw [ht]; exact hx.waiter, by rw [ht]; exact hx.own⟩

theorem register_fst (t : Tracker) (slot : Slot) :
    (t.register slot).1 = ⟨slot, t.nextWaiter⟩ ∧
      (t.register slot).2.nextWaiter = t.nextWaiter + 1 :=
  have h := t.register_cases slot
  ⟨h.1, h.2.2.1⟩

theorem ticket?_register (hj : (x.act (.register slot)).tickets[j]? = some (h, ticket)) :
    x.tickets[j]? = some (h, ticket) ∨
      j = x.tickets.length ∧ h = ⟨slot, x.site.tracker.nextWaiter⟩ ∧ ticket = .held := by
  have hj : (x.tickets ++ [((x.site.tracker.register slot).1, .held)])[j]? = some (h, ticket) := hj
  rw [(register_fst x.site.tracker slot).1, List.getElem?_append] at hj
  split at hj
  · exact .inl hj
  · have hzero : j - x.tickets.length = 0 := by
      have := (List.getElem?_eq_some_iff.1 hj).1
      simpa using this
    rw [hzero] at hj
    cases hj
    exact .inr ⟨by omega, rfl, rfl⟩

theorem Numbered.register (hx : x.Numbered) (slot : Slot) : (x.act (.register slot)).Numbered where
  length := by
    rw [Desk.act, List.length_append, List.length_singleton, hx.length,
      (register_fst x.site.tracker slot).2]
  waiter hj := by
    rcases ticket?_register hj with hj | ⟨rfl, rfl, rfl⟩
    · exact hx.waiter hj
    · exact hx.length.symm
  own hj hh := by
    rcases ticket?_register hj with hj | ⟨rfl, rfl, rfl⟩
    · exact hx.own hj hh
    · cases hh

theorem Numbered.act (hx : x.Numbered) (e : Event) : (x.act e).Numbered := by
  cases e with
  | register slot => exact hx.register slot
  | publish slot status =>
    exact hx.congr rfl (x.site.tracker.publish_nextWaiter slot status)
  | markQueued slot => exact hx.congr rfl (x.site.tracker.markQueued_sheds slot).nextWaiter
  | await j timeout =>
    simp only [Desk.act]
    split
    · next h ht =>
      refine hx.setTicket fun _ _ _ hj hh => ?_
      cases ht.symm.trans hj
      cases hh
      rfl
    · exact hx
  | turn j =>
    rcases x.turn_cases j with ⟨he, -⟩ | ⟨h, h', timeout, ht, he⟩ | ⟨h, h', d, s, r, ht, hs, he⟩
    · rwa [Desk.act, he]
    · rw [Desk.act, he]
      refine hx.setTicket fun _ _ _ hj hh => ?_
      cases ht.symm.trans hj
      cases hh
      exact hx.own ht rfl
    · rw [Desk.act, he]
      refine Numbered.setTicket (hx.congr rfl ?_) fun _ _ _ _ hh => nomatch hh
      rcases waiting_done hs with rfl | rfl
      · rfl
      · exact (x.site.tracker.evict_keeps h').1
  | drop j =>
    simp only [Desk.act]
    split
    · exact hx.setTicket fun _ _ _ _ hh => nomatch hh
    · exact hx.setTicket fun _ _ _ _ hh => nomatch hh
    · exact hx
  | close => exact hx.congr rfl rfl
  | pass duration => exact hx.congr rfl rfl

theorem hear_none (v : Tracker.Waiting) : hear v none = v := by
  cases v <;> rfl

theorem publish_hear {t : Tracker} (hf : t.Fated h v) (slot : Slot) (status : Status) :
    (t.publish slot status).Fated h
      (hear v (Event.verdict? h.slot (.publish slot status))) := by
  have hp := hf.publish slot status
  simp only [Event.verdict?, Event.terminal?]
  by_cases hc : slot = h.slot ∧ status.isTerminal = true
  · rw [if_pos hc]
    cases v <;> simpa [hc.1.symm, hc.2, hear] using hp
  · rw [if_neg hc, Option.map_none, hear_none]
    rwa [if_neg] at hp
    exact fun hv => hc ⟨hv.2.1.symm, hv.2.2⟩

theorem evict_eq (t : Tracker) (h : StatusHandle) :
    t.evict h = { t with waiters := (t.evict h).waiters } := by
  unfold Tracker.evict
  split
  · rfl
  · split <;> rfl

theorem concludes {s s' : Site μ κ ε} {deadline : Nat} {r : Except Error Status}
    (hf : s.tracker.Fated h v) (hd : (Awaiting.waiting h deadline).step s = .done s' r) :
    Concludes s h deadline v r s'.tracker := by
  have hl := hf.listed
  simp only [Awaiting.step, hf.outcome] at hd
  cases v with
  | resolved status =>
    cases hd
    exact .resolved status
  | dropped =>
    cases hd
    exact .dropped
  | pending =>
    simp only at hd
    split at hd
    · next hdue =>
      cases hd
      rw [evict_eq]
      refine .pending _ hdue ?_ fun slot => ?_
      · exact List.count_pos_iff.1 (by rw [hl, if_pos ⟨rfl, rfl⟩]; exact Nat.one_pos)
      · rw [← evict_eq, Tracker.waitersOf_evict]
        split
        · rfl
        · next hne =>
          have hn : h.waiter ∉ s.tracker.waitersOf slot :=
            List.count_eq_zero.1 ((hl slot).trans (if_neg fun hs => hne hs.2))
          exact (List.filter_eq_self.2 fun w hw => by
            simpa using fun he : w = h.waiter => hn (he ▸ hw)).symm
    · cases hd

theorem ticket?_setTicket_self (ht : x.tickets[i]? = some (h, ticket)) (ticket' : Ticket) :
    (x.setTicket i ticket').tickets[i]? = some (h, ticket') := by
  rw [ticket?_setTicket, if_pos rfl, ht, Option.map_some]

theorem ticket?_setTicket_of_ne (hj : j ≠ i) (ticket' : Ticket) :
    (x.setTicket j ticket').tickets[i]? = x.tickets[i]? := by
  rw [ticket?_setTicket, if_neg hj]

theorem setTicket_moves (ht : x.tickets[i]? = some (h, ticket)) (j : Nat) (ticket' : Ticket)
    (hm : j = i → Moves x.site.now i h e ticket ticket') :
    ∃ t, (x.setTicket j ticket').tickets[i]? = some (h, t) ∧ Moves x.site.now i h e ticket t := by
  by_cases hj : j = i
  · exact ⟨ticket', hj ▸ ticket?_setTicket_self (hj ▸ ht) ticket', hm hj⟩
  · exact ⟨ticket, (ticket?_setTicket_of_ne hj ticket').trans ht, .rest e ticket⟩

theorem turn_moves (hx : x.Numbered) (ht : x.tickets[i]? = some (h, ticket))
    (hf : x.site.tracker.Fated h v) (j : Nat) :
    (∃ ticket', (x.turn j).tickets[i]? = some (h, ticket') ∧
        Moves x.site.now i h (.turn j) ticket ticket' ∧ (x.turn j).site.tracker.Fated h v) ∨
      ∃ deadline r, j = i ∧ ticket = .awaited (.waiting h deadline) ∧
        (x.turn j).tickets[i]? = some (h, .answered r) ∧
        Concludes x.site h deadline v r (x.turn j).site.tracker := by
  rcases x.turn_cases j with ⟨he, -⟩ | ⟨h', h'', timeout, hj, he⟩ |
    ⟨h', h'', deadline, s, r, hj, hs, he⟩
  · rw [he]
    exact .inl ⟨ticket, ht, .rest _ ticket, hf⟩
  · cases hx.own hj rfl
    have hm : j = i → Moves x.site.now i h (.turn j) ticket
        (.awaited (.waiting h' (x.site.now + timeout))) := by
      rintro rfl
      cases ht.symm.trans hj
      exact .arrive timeout
    obtain ⟨t, hpresent, hm⟩ := setTicket_moves ht j _ hm
    rw [he]
    exact .inl ⟨t, hpresent, hm, hf⟩
  · cases hx.own hj rfl
    rw [he]
    by_cases hi : j = i
    · cases hi
      cases ht.symm.trans hj
      have hpresent := ticket?_setTicket_self (x := { x with site := s }) ht (.answered r)
      exact .inr ⟨deadline, r, rfl, rfl, hpresent, concludes hf hs⟩
    · have hne : h' ≠ h := fun hh => hi ((hx.waiter hj).symm.trans (hh ▸ hx.waiter ht))
      refine .inl ⟨ticket, (ticket?_setTicket_of_ne hi _).trans ht, .rest _ ticket, ?_⟩
      rcases waiting_done hs with rfl | rfl
      · exact hf
      · have hevict := hf.evict h'
        rwa [if_neg fun hv => hne hv.2] at hevict

theorem act_cases (hx : x.Numbered) (ht : x.tickets[i]? = some (h, ticket))
    (hf : x.site.tracker.Fated h v) (e : Event) :
    (∃ ticket', (x.act e).tickets[i]? = some (h, ticket') ∧
        Moves x.site.now i h e ticket ticket' ∧
        (x.act e).site.tracker.Fated h (hear v (e.verdict? h.slot))) ∨
      ∃ deadline r, e = .turn i ∧ ticket = .awaited (.waiting h deadline) ∧
        (x.act e).tickets[i]? = some (h, .answered r) ∧
        Concludes x.site h deadline v r (x.act e).site.tracker := by
  have hf' : x.site.tracker.Fated h (hear v none) := (hear_none v).symm ▸ hf
  cases e with
  | register slot =>
    have hlt := (List.getElem?_eq_some_iff.1 ht).1
    exact .inl ⟨ticket, (List.getElem?_append_left hlt).trans ht, .rest _ ticket,
      (hear_none v).symm ▸ hf.register slot⟩
  | publish slot status => exact .inl ⟨ticket, ht, .rest _ ticket, publish_hear hf slot status⟩
  | markQueued slot =>
    have hq := publish_hear hf slot .queued
    have hn : Event.verdict? h.slot (.publish slot .queued) = none := by
      simp [Event.verdict?, Event.terminal?, Status.isTerminal, Status.queued, StatusKind.isTerminal]
    rw [hn] at hq
    exact .inl ⟨ticket, ht, .rest _ ticket, hq⟩
  | close =>
    refine .inl ⟨ticket, ht, .rest _ ticket, ?_⟩
    have hc := hf.close
    cases v <;> exact hc
  | pass duration => exact .inl ⟨ticket, ht, .rest _ ticket, hf'⟩
  | await j timeout =>
    simp only [act]
    split
    · next h' hj =>
      have hm : j = i → Moves x.site.now i h (.await j timeout) ticket
          (.awaited (.arriving h' timeout)) := by
        rintro rfl
        cases ht.symm.trans hj
        exact .await timeout
      obtain ⟨t, hpresent, hm⟩ := setTicket_moves ht j _ hm
      exact .inl ⟨t, hpresent, hm, hf'⟩
    · exact .inl ⟨ticket, ht, .rest _ ticket, hf'⟩
  | drop j =>
    have hdrop {t : StatusHandle × Ticket} (hj : x.tickets[j]? = some t)
        (ha : t.2.answer? = none) :
        ∃ t', (x.setTicket j .dropped).tickets[i]? = some (h, t') ∧
          Moves x.site.now i h (.drop j) ticket t' := by
      refine setTicket_moves ht j .dropped ?_
      rintro rfl
      cases ht.symm.trans hj
      exact .drop ticket ha
    simp only [act]
    split
    · next hj =>
      obtain ⟨t, hpresent, hm⟩ := hdrop hj rfl
      exact .inl ⟨t, hpresent, hm, hf'⟩
    · next hj =>
      obtain ⟨t, hpresent, hm⟩ := hdrop hj rfl
      exact .inl ⟨t, hpresent, hm, hf'⟩
    · exact .inl ⟨ticket, ht, .rest _ ticket, hf'⟩
  | turn j =>
    rcases turn_moves hx ht hf j with ⟨t, hpresent, hm, hafter⟩ | ⟨deadline, r, rfl, hend⟩
    · exact .inl ⟨t, hpresent, hm, (hear_none v).symm ▸ hafter⟩
    · exact .inr ⟨deadline, r, rfl, hend⟩

structure Account (x : Desk μ κ ε) (slot : Slot) (es : List Event) (ticket : Ticket) : Prop where
  present : (x.registered slot es).tickets[x.tickets.length]? = some (x.handle slot, ticket)
  /-- The tracker has it in the table, once and under its slot, as long as nothing is settled, and
  has handed it nothing but the status it is to resolve with, once. -/
  fate : (x.registered slot es).site.tracker.Fated (x.handle slot)
    (ticket.fate (x.verdict slot es))
  /-- It was answered in a turn of its own, by what had been settled up to then. -/
  answered {r : Except Error Status} : ticket = .answered r →
    ∃ earlier later deadline, es = earlier ++ .turn x.tickets.length :: later ∧
      (x.registered slot earlier).tickets[x.tickets.length]? =
        some (x.handle slot, .awaited (.waiting (x.handle slot) deadline)) ∧
      Concludes (x.registered slot earlier).site (x.handle slot) deadline (x.verdict slot earlier) r
        (x.registered slot (earlier ++ [.turn x.tickets.length])).site.tracker
  /-- Its patience runs from the first turn of the wait. -/
  waiting {h : StatusHandle} {deadline : Nat} : ticket = .awaited (.waiting h deadline) →
    h = x.handle slot ∧ ∃ earlier later timeout, es = earlier ++ .turn x.tickets.length :: later ∧
      deadline = (x.registered slot earlier).site.now + timeout ∧
      .await x.tickets.length timeout ∈ earlier
  arriving {h : StatusHandle} {timeout : Nat} : ticket = .awaited (.arriving h timeout) →
    h = x.handle slot ∧ .await x.tickets.length timeout ∈ es

theorem Moves.fate {now : Nat} (hm : Moves now i h e ticket ticket')
    (settled : Option Tracker.Waiting) :
    hear (ticket.fate v) settled = ticket'.fate (hear v settled) := by
  cases hm with
  | rest =>
    cases ticket with
    | answered r => cases r <;> rfl
    | _ => rfl
  | await => rfl
  | arrive => rfl
  | drop _ ha =>
    cases ticket with
    | answered r => cases ha
    | _ => rfl

theorem Concludes.fated {s : Site μ κ ε} {deadline : Nat} {r : Except Error Status}
    {tracker : Tracker} (hc : Concludes s h deadline v r tracker) (hf : s.tracker.Fated h v)
    (v' : Tracker.Waiting) : tracker.Fated h ((Ticket.answered r).fate v') := by
  cases hc with
  | resolved => exact hf
  | dropped => exact hf
  | pending waiters hdue hmem hw =>
    refine ⟨hf.known, fun slot => ?_, hf.handed⟩
    rw [hw, if_neg (by simp [Ticket.fate])]
    exact List.count_eq_zero.2 (by simp)

theorem Concludes.of_ok {s : Site μ κ ε} {deadline : Nat} {status : Status} {tracker : Tracker}
    (hc : Concludes s h deadline v (.ok status) tracker) : v = .resolved status := by
  cases hc
  rfl

theorem Account.act (ha : x.Account slot es ticket) (hn : (x.registered slot es).Numbered)
    (e : Event) : ∃ ticket', x.Account slot (es ++ [e]) ticket' ∧
      ∀ r, ticket = .answered r → ticket' = .answered r := by
  have hstep := x.registered_concat slot es e
  rcases act_cases hn ha.present ha.fate e with
    ⟨ticket', hp, hm, hf⟩ | ⟨deadline, r, rfl, rfl, hp, hc⟩
  · refine ⟨ticket', ⟨?_, ?_, ?_, ?_, ?_⟩, ?_⟩
    · rwa [hstep]
    · rw [hstep, verdict_concat, ← hm.fate]
      exact hf
    · rintro r rfl
      cases hm
      obtain ⟨earlier, later, deadline, rfl, hw, hc⟩ := ha.answered rfl
      exact ⟨earlier, later ++ [e], deadline, by simp, hw, hc⟩
    · rintro h deadline rfl
      cases hm with
      | rest =>
        obtain ⟨hh, earlier, later, timeout, rfl, hd, hmem⟩ := ha.waiting rfl
        exact ⟨hh, earlier, later ++ [e], timeout, by simp, hd, hmem⟩
      | arrive timeout =>
        obtain ⟨-, hmem⟩ := ha.arriving rfl
        exact ⟨rfl, es, [], timeout, rfl, rfl, hmem⟩
    · rintro h timeout rfl
      cases hm with
      | rest =>
        obtain ⟨hh, hmem⟩ := ha.arriving rfl
        exact ⟨hh, List.mem_append_left _ hmem⟩
      | await => exact ⟨rfl, List.mem_append_right _ (List.mem_singleton.2 rfl)⟩
    · rintro r rfl
      cases hm with
      | rest => rfl
      | drop _ ha => cases ha
  · refine ⟨.answered r, ⟨?_, ?_, ?_, nofun, nofun⟩, nofun⟩
    · rwa [hstep]
    · rw [hstep]
      exact hc.fated ha.fate _
    · rintro r' ⟨⟩
      refine ⟨es, [], deadline, rfl, ha.present, ?_⟩
      rw [hstep]
      exact hc

structure Kept (x : Desk μ κ ε) (es : List Event) : Prop where
  numbered : x.Numbered
  tidy : x.site.tracker.Tidy
  honest : ∃ published, x.site.tracker.Honest published
  remembered {slot : Slot} {status : Status} :
    x.site.tracker.completed.lookup? slot = some status →
      es.reverse.findSome? (Event.terminal? slot) = some status

theorem act_use (x : Desk μ κ ε) (e : Event) :
    (∃ slot status, e = .publish slot status) ∨
      Tracker.Use x.site.tracker (x.act e).site.tracker ∧ ∀ slot, e.terminal? slot = none := by
  cases e with
  | publish slot status => exact .inl ⟨slot, status, rfl⟩
  | register slot => exact .inr ⟨.register _ slot, fun _ => rfl⟩
  | markQueued slot => exact .inr ⟨.queued _ slot, fun _ => rfl⟩
  | close => exact .inr ⟨.close _, fun _ => rfl⟩
  | pass duration => exact .inr ⟨.none _, fun _ => rfl⟩
  | await i timeout =>
    refine .inr ⟨?_, fun _ => rfl⟩
    simp only [act]
    split <;> exact .none _
  | drop i =>
    refine .inr ⟨?_, fun _ => rfl⟩
    simp only [act]
    split <;> exact .none _
  | turn i =>
    refine .inr ⟨?_, fun _ => rfl⟩
    rcases x.turn_cases i with ⟨he, -⟩ | ⟨h, h', timeout, -, he⟩ |
      ⟨h, h', deadline, s, r, -, hs, he⟩
    · rw [act, he]
      exact .none _
    · rw [act, he]
      exact .none _
    · rw [act, he]
      rcases waiting_done hs with rfl | rfl
      · exact .none _
      · exact .evict _ h'

theorem Kept.act (hx : x.Kept es) (e : Event) : (x.act e).Kept (es ++ [e]) := by
  obtain ⟨published, hh⟩ := hx.honest
  have hlast (slot : Slot) : (es ++ [e]).reverse.findSome? (Event.terminal? slot) =
      (e.terminal? slot).or (es.reverse.findSome? (Event.terminal? slot)) := by
    rw [List.reverse_concat, List.findSome?_cons]
    cases e.terminal? slot <;> rfl
  have hnumbered := hx.numbered.act e
  rcases x.act_use e with ⟨slot, status, rfl⟩ | ⟨hu, hn⟩
  · refine ⟨hnumbered, hx.tidy.publish slot status, ⟨_, hh.publish slot status⟩,
      fun {slot'} status' hl => ?_⟩
    rw [hlast]
    rcases Tracker.lookup?_of_publish hl with ⟨hs, ht, he⟩ | ⟨hs, hl⟩
    · rw [Event.terminal?, if_pos ⟨hs, ht⟩, he]
      rfl
    · rw [Event.terminal?, if_neg hs]
      exact hx.remembered hl
  · refine ⟨hnumbered, hu.tidy hx.tidy, ⟨published, hu.honest hh⟩, fun {slot} status hl => ?_⟩
    rw [hlast, hn]
    exact hx.remembered (hu.lookup? slot ▸ hl)

theorem opened_kept (s : Site μ κ ε) (capacity : Nat) (es : List Event) :
    (opened s capacity es).Kept es := by
  induction es using List.reverseRecOn with
  | nil =>
    exact ⟨⟨rfl, nofun, nofun⟩, Tracker.ofCapacity_tidy capacity,
      ⟨[], Tracker.ofCapacity_honest capacity []⟩, nofun⟩
  | append_singleton es e ih =>
    rw [opened, run_append]
    exact ih.act e

theorem registered_kept (hx : x.Kept es) (slot : Slot) (later : List Event) :
    (x.registered slot later).Kept (es ++ .register slot :: later) := by
  induction later using List.reverseRecOn with
  | nil => exact hx.act (.register slot)
  | append_singleton later e ih =>
    rw [registered_concat]
    have h := ih.act e
    rwa [List.append_assoc, List.cons_append] at h

theorem Kept.account_nil (hx : x.Kept es) (slot : Slot) : x.Account slot [] .held := by
  obtain ⟨published, hh⟩ := hx.honest
  obtain ⟨hfst, hf⟩ := hh.register_fated slot
  have hhandle : x.handle slot = ⟨slot, x.site.tracker.nextWaiter⟩ := by
    rw [handle, hx.numbered.length]
  refine ⟨?_, ?_, nofun, nofun, nofun⟩
  · rw [hhandle, ← hfst]
    exact List.getElem?_concat_length
  · rw [hhandle]
    refine cast (congrArg _ ?_) hf
    rw [verdict, List.findSome?_nil, Option.or_none]
    cases x.site.tracker.completed.lookup? slot <;> rfl

theorem Kept.account (hx : x.Kept es) (slot : Slot) (later : List Event) :
    ∃ ticket, x.Account slot later ticket := by
  induction later using List.reverseRecOn with
  | nil => exact ⟨_, hx.account_nil slot⟩
  | append_singleton later e ih =>
    obtain ⟨ticket, ha⟩ := ih
    obtain ⟨ticket', ha', -⟩ := ha.act (registered_kept hx slot later).numbered e
    exact ⟨ticket', ha'⟩

theorem Kept.answered_for_good {later : List Event} {r : Except Error Status} (hx : x.Kept es)
    (ha : x.Account slot later (.answered r)) (more : List Event) :
    x.Account slot (later ++ more) (.answered r) := by
  induction more using List.reverseRecOn with
  | nil => rwa [List.append_nil]
  | append_singleton more e ih =>
    rw [← List.append_assoc]
    obtain ⟨ticket, ha, hr⟩ := ih.act (registered_kept hx slot (later ++ more)).numbered e
    rwa [hr r rfl] at ha

theorem Account.turn_answers {deadline : Nat} (hn : (x.registered slot es).Numbered)
    (ha : x.Account slot es (.awaited (.waiting (x.handle slot) deadline)))
    (hs : x.verdict slot es ≠ .pending ∨ deadline ≤ (x.registered slot es).site.now) :
    ∃ r, x.Account slot (es ++ [.turn x.tickets.length]) (.answered r) := by
  obtain ⟨ticket, ha', -⟩ := ha.act hn (.turn x.tickets.length)
  have hp := ha'.present
  rw [registered_concat, Desk.act] at hp
  rcases (x.registered slot es).turn_cases x.tickets.length with
    ⟨-, hw⟩ | ⟨h, h', timeout, ht, -⟩ | ⟨h, h', d, s, r, ht, -, he⟩
  · have hwait := hw _ _ _ ha.present
    simp only [Awaiting.step, ha.fate.outcome, Ticket.fate] at hwait
    cases hv : x.verdict slot es with
    | pending =>
      rw [hv] at hwait
      simp only at hwait
      rw [if_pos (hs.resolve_left fun hn => hn hv)] at hwait
      cases hwait
    | _ =>
      rw [hv] at hwait
      cases hwait
  · cases ha.present.symm.trans ht
  · rw [he, ticket?_setTicket, if_pos rfl] at hp
    have hp := (congrArg (Option.map _) ha.present).symm.trans hp
    cases hp
    exact ⟨r, ha'⟩

theorem Account.turn_arrives {timeout : Nat} (hn : (x.registered slot es).Numbered)
    (ha : x.Account slot es (.awaited (.arriving (x.handle slot) timeout))) :
    x.Account slot (es ++ [.turn x.tickets.length])
      (.awaited (.waiting (x.handle slot) ((x.registered slot es).site.now + timeout))) := by
  obtain ⟨ticket, ha', -⟩ := ha.act hn (.turn x.tickets.length)
  have hp := ha'.present
  have ht : (x.registered slot es).turn x.tickets.length =
      (x.registered slot es).setTicket x.tickets.length
        (.awaited (.waiting (x.handle slot) ((x.registered slot es).site.now + timeout))) := by
    rw [turn, ha.present]
    rfl
  rw [registered_concat, Desk.act, ht, ticket?_setTicket, if_pos rfl, ha.present] at hp
  cases hp
  exact ha'

theorem Event.terminal?_eq_some {status : Status} :
    e.terminal? slot = some status ↔ e = .publish slot status ∧ status.isTerminal = true := by
  cases e with
  | publish slot' status' =>
    rw [terminal?, Option.ite_none_right_eq_some]
    constructor
    · rintro ⟨⟨rfl, ht⟩, he⟩
      cases he
      exact ⟨rfl, ht⟩
    · rintro ⟨he, ht⟩
      cases he
      exact ⟨⟨rfl, ht⟩, rfl⟩
  | _ => simp [terminal?]

theorem Event.verdict?_eq_resolved {status : Status}
    (hv : e.verdict? slot = some (.resolved status)) : e.terminal? slot = some status := by
  cases e with
  | publish slot' status' =>
    obtain ⟨status', hs, he⟩ := Option.map_eq_some_iff.1 hv
    cases he
    exact hs
  | _ => cases hv

theorem Kept.verdict_resolved {later : List Event} {status : Status} (hx : x.Kept es)
    (hv : x.verdict slot later = .resolved status) :
    status.isTerminal = true ∧ .publish slot status ∈ es ++ later := by
  unfold verdict at hv
  cases hc : x.site.tracker.completed.lookup? slot with
  | some status' =>
    rw [hc] at hv
    cases hv
    obtain ⟨e, he, hr⟩ := List.exists_of_findSome?_eq_some (hx.remembered hc)
    obtain ⟨rfl, ht⟩ := Event.terminal?_eq_some.1 hr
    exact ⟨ht, List.mem_append_left _ (List.mem_reverse.1 he)⟩
  | none =>
    rw [hc, Option.map_none, Option.none_or] at hv
    cases hf : later.findSome? (Event.verdict? slot) with
    | none =>
      rw [hf] at hv
      cases hv
    | some v =>
      rw [hf] at hv
      cases hv
      obtain ⟨e, he, hr⟩ := List.exists_of_findSome?_eq_some hf
      obtain ⟨rfl, ht⟩ := Event.terminal?_eq_some.1 (Event.verdict?_eq_resolved hr)
      exact ⟨ht, List.mem_append_right _ he⟩

/-- Whatever else is done with a tracker, a wait that is registered with it comes to the status that
is remembered then, the last final one published for its slot, or to what is settled first since;
it is answered with this, in a turn of its own, once and for good, unless its patience was over
before. No slot is in the table with nobody to wait for it, or with its status remembered. -/
theorem waits_settled_once (s : Site μ κ ε) (capacity : Nat) (before : List Event) (slot : Slot)
    (after : List Event) :
    (∀ status, (opened s capacity before).site.tracker.completed.lookup? slot = some status →
      before.reverse.findSome? (Event.terminal? slot) = some status) ∧
    ((opened s capacity before).registered slot after).site.tracker.Tidy ∧
    ∃ ticket, (opened s capacity before).Account slot after ticket ∧
      (∀ r, ticket = .answered r →
        (∀ more, (opened s capacity before).Account slot (after ++ more) (.answered r)) ∧
        ∀ status, r = .ok status →
          status.isTerminal = true ∧ .publish slot status ∈ before ++ after) ∧
      (∀ h timeout, ticket = .awaited (.arriving h timeout) →
        (opened s capacity before).Account slot
          (after ++ [.turn (opened s capacity before).tickets.length])
          (.awaited (.waiting h
            (((opened s capacity before).registered slot after).site.now + timeout)))) ∧
      ∀ h deadline, ticket = .awaited (.waiting h deadline) →
        (opened s capacity before).verdict slot after ≠ .pending ∨
            deadline ≤ ((opened s capacity before).registered slot after).site.now →
          ∃ r, (opened s capacity before).Account slot
            (after ++ [.turn (opened s capacity before).tickets.length]) (.answered r) := by
  have hx := opened_kept s capacity before
  have hn := registered_kept hx slot after
  obtain ⟨ticket, ha⟩ := hx.account slot after
  refine ⟨fun status hl => hx.remembered hl, hn.tidy, ticket, ha, ?_, ?_, ?_⟩
  · rintro r rfl
    refine ⟨hx.answered_for_good ha, ?_⟩
    rintro status rfl
    obtain ⟨earlier, later, deadline, rfl, -, hc⟩ := ha.answered rfl
    obtain ⟨ht, hp⟩ := hx.verdict_resolved hc.of_ok
    refine ⟨ht, ?_⟩
    rw [← List.append_assoc]
    exact List.mem_append_left _ hp
  · rintro h timeout rfl
    cases (ha.arriving rfl).1
    exact ha.turn_arrives hn.numbered
  · rintro h deadline rfl hs
    cases (ha.waiting rfl).1
    exact ha.turn_answers hn.numbered hs

end Desk

end StatementLog
