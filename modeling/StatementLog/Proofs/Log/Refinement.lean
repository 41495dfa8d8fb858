import StatementLog.Proofs.Log.Calling
import StatementLog.Proofs.Log.Disk

namespace StatementLog

inductive LogEvent where
  | opening
  | sibling (i : Nat)
  | call (i : Nat) (call : LogCall)
  | tear (octets : List UInt8)

def LogEvent.Sound : LogEvent → Prop
  | opening | sibling _ => True
  | call _ c => c.Sound
  | tear octets => Lines.lineFeed ∉ octets

instance : (e : LogEvent) → Decidable e.Sound
  | .opening | .sibling _ => isTrue trivial
  | .call _ c => inferInstanceAs (Decidable c.Sound)
  | .tear octets => inferInstanceAs (Decidable (Lines.lineFeed ∉ octets))

/-- A log in a file beside one in memory, and the clients of both in pairs. -/
structure Twin where
  disk : Disk
  tape : Tape := {}
  clients : List (FileClient × TapeClient) := []
  acknowledged : List Record := []

namespace Twin

/-- What happens to the one log happens to the other, but for what is not a call. -/
def act (path : String) (x : Twin) : LogEvent → Twin
  | .opening =>
    match x.disk.open? path with
    | (.error _, disk) => { x with disk }
    | (.ok c, disk) => { x with disk, clients := x.clients ++ [(c, {})] }
  | .sibling i =>
    match x.clients[i]? with
    | none => x
    | some (c, _) => { x with clients := x.clients ++ [(Disk.sibling c, {})] }
  | .call i call =>
    match x.clients[i]? with
    | none => x
    | some (c, k) =>
      let (reply, disk, c) := call.perform x.disk c
      let (_, tape, k) := call.perform x.tape k
      { disk, tape
        clients := x.clients.set i (c, k)
        acknowledged := x.acknowledged ++ (call.acknowledged? reply).toList }
  | .tear octets => { x with disk := x.disk.tear path octets }

def run (path : String) (x : Twin) (events : List LogEvent) : Twin :=
  events.foldl (act path) x

end Twin

structure Paired (rs : List Record) (c : FileClient) (k : TapeClient) : Prop where
  closed : c.closed = k.closed
  cursor : k.cursor ≤ rs.length
  octets : c.octets = (Lines.written (rs.take k.cursor)).length
  offset : c.offset = k.cursor
  position : c.position = k.cursor

theorem Paired.append {rs : List Record} {c : FileClient} {k : TapeClient} (h : Paired rs c k)
    (rs' : List Record) : Paired (rs ++ rs') c k where
  closed := h.closed
  cursor := by
    rw [List.length_append]
    exact Nat.le_add_right_of_le h.cursor
  octets := by rw [List.take_append_of_le_length h.cursor, h.octets]
  offset := h.offset
  position := h.position

structure Holding (path : String) (place lock : Place) (rs : List Record) (d : Disk) (t : Tape) :
    Prop where
  readable : ∀ r ∈ rs, r.Readable
  stores : d.Stores path place lock rs
  lines : t.lines = rs.map Record.line
  available : t.available = true

namespace Holding

variable {path : String} {place lock : Place} {rs : List Record} {d : Disk} {t : Tape}

theorem length_lines (h : Holding path place lock rs d t) : t.lines.length = rs.length := by
  rw [h.lines, List.length_map]

theorem check_open (h : Holding path place lock rs d t) {k : TapeClient} (hk : k.closed = false) :
    t.check k = .ok () := by
  rw [Tape.check, hk, h.available]
  rfl

end Holding

structure Onwards (path : String) (place lock : Place) (rs rs' : List Record) (d d' : Disk)
    (t' : Tape) (c' : FileClient) (k' : TapeClient) : Prop where
  holding : Holding path place lock (rs ++ rs') d' t'
  opened : ∀ c, d.Opened path place lock c rs → d'.Opened path place lock c (rs ++ rs')
  client : d'.Opened path place lock c' (rs ++ rs')
  paired : Paired (rs ++ rs') c' k'

section

variable {path : String} {place lock : Place} {rs : List Record} {d : Disk} {t : Tape}
  {c : FileClient} {k : TapeClient}

theorem Onwards.stay {d' : Disk} {c' : FileClient} (h : Holding path place lock rs d' t)
    (hp : Paired rs c' k) (hc : d.Opened path place lock c' rs)
    (hd : ∀ c, d.Opened path place lock c rs → d'.Opened path place lock c rs) :
    Onwards path place lock rs [] d d' t c' k := by
  refine ⟨?_, ?_, ?_, ?_⟩ <;> rw [List.append_nil]
  · exact h
  · exact hd
  · exact hd c' hc
  · exact hp

namespace LogCall

theorem perform_closed {call : LogCall} (hc : c.closed = true) (hk : k.closed = true)
    (hcall : call.checks = true) :
    call.perform d c = (.error (.logUnavailable (.handleClosed (d.handleOf c).path)), d, c) ∧
      call.perform t k = (.error (.logUnavailable .clientClosed), t, k) := by
  have hd := d.check_closed hc
  have ht : t.check k = .error (.logUnavailable .clientClosed) := by
    rw [Tape.check, hk]
    rfl
  cases call with
  | append r =>
    refine ⟨?_, ?_⟩
    · simp only [perform, CommandLog.append, Disk.append, hd]
    · simp only [perform, CommandLog.append, Tape.append, ht]
  | poll =>
    refine ⟨?_, ?_⟩
    · simp only [perform, CommandLog.check, hd]
    · simp only [perform, CommandLog.check, ht]
  | endPosition =>
    refine ⟨?_, ?_⟩
    · simp only [perform, CommandLog.endPosition, Disk.endPosition, hd]
      rfl
    · simp only [perform, CommandLog.endPosition, Tape.endPosition, ht]
      rfl
  | rewind =>
    refine ⟨?_, ?_⟩
    · simp only [perform, CommandLog.check, hd]
    · simp only [perform, CommandLog.check, ht]
  | position => cases hcall
  | close => cases hcall

def Answered (path : String) (place lock : Place) (rs : List Record) (d : Disk) (t : Tape)
    (c : FileClient) (k : TapeClient) (call : LogCall) (a : Answer) : Prop :=
  ∃ d' t' c' k', call.perform d c = (.ok a, d', c') ∧ call.perform t k = (.ok a, t', k') ∧
    Onwards path place lock rs (call.acknowledged? (.ok a)).toList d d' t' c' k'

variable (h : Holding path place lock rs d t) (ho : d.Opened path place lock c rs)
  (hp : Paired rs c k)
include h ho hp

theorem append_answered (hc : c.closed = false) {r : Record} (hr : r.Readable) :
    (append r).Answered path place lock rs d t c k (.appended rs.length) := by
  have htcheck := h.check_open (hp.closed.symm.trans hc)
  obtain ⟨d', happ, hstores, hopened⟩ := Disk.append_open h.stores ho hc r
  obtain ⟨hstores, hannounce⟩ := Disk.announce_open hstores (hopened c ho)
  refine ⟨d'.announce c, { t with lines := t.lines ++ [r.line] }.announce, c, k, ?_, ?_,
    ⟨?_, hstores, ?_, h.available⟩, fun c' ho' => hannounce c' (hopened c' ho'),
    hannounce c (hopened c ho), hp.append [r]⟩
  · simp only [perform, CommandLog.append, happ]
    rfl
  · simp only [perform, CommandLog.append, Tape.append, htcheck, h.length_lines]
    rfl
  · intro r' hr'
    rcases List.mem_append.1 hr' with hr' | hr'
    · exact h.readable r' hr'
    · cases List.mem_singleton.1 hr'
      exact hr
  · rw [List.map_append, ← h.lines]
    rfl

theorem poll_answered (hc : c.closed = false) :
    poll.Answered path place lock rs d t c k
      (.batch (Record.commandsFrom k.cursor (rs.drop k.cursor))) := by
  have hdcheck := d.check_open hc
  have htcheck := h.check_open (hp.closed.symm.trans hc)
  have hread := Disk.read_open h.stores ho h.readable hp.cursor hp.offset hp.octets
  have hdrop : ∀ r ∈ rs.drop k.cursor, r.Readable :=
    fun r hr => h.readable r (List.mem_of_mem_drop hr)
  have hcount : k.cursor + (Record.commandsFrom k.cursor (rs.drop k.cursor)).length =
      rs.length := by
    rw [Record.commandsFrom, List.length_map, List.length_zipIdx, List.length_drop,
      Nat.add_sub_cancel' hp.cursor]
  have hpaired : Paired rs
      { c with octets := (Lines.written rs).length, offset := rs.length, position := rs.length }
      { k with cursor := rs.length } := by
    refine ⟨hp.closed, Nat.le_refl _, ?_, rfl, rfl⟩
    rw [List.take_length]
  refine ⟨d, t, _, _, ?_, ?_, .stay h hpaired ho fun _ => id⟩
  · simp only [perform, CommandLog.check, hdcheck, CommandLog.read, hread]
    rfl
  · simp only [perform, CommandLog.check, htcheck, CommandLog.read, Tape.read, h.lines,
      ← List.map_drop, Tape.decodeFrom_lines hdrop, hcount]
    rfl

theorem perform_answered {call : LogCall} (hs : call.Sound)
    (hc : c.closed = false ∨ call.checks = false) :
    ∃ a, call.Answered path place lock rs d t c k a ∧
      ∀ r, call = .append r → a = .appended rs.length := by
  have hopen (h : call.checks = true) : c.closed = false :=
    hc.resolve_right fun h' => Bool.false_ne_true (h'.symm.trans h)
  have hdcheck (h : call.checks = true) : d.check c = .ok () := d.check_open (hopen h)
  have htcheck (hcall : call.checks = true) : t.check k = .ok () :=
    h.check_open (hp.closed.symm.trans (hopen hcall))
  cases call with
  | append r => exact ⟨_, append_answered h ho hp (hopen rfl) hs, fun _ _ => rfl⟩
  | poll => exact ⟨_, poll_answered h ho hp (hopen rfl), fun _ he => by cases he⟩
  | endPosition =>
    obtain ⟨d', hend, hstores, hopened⟩ := Disk.endPosition_open h.stores ho (hopen rfl)
    refine ⟨.ending rs.length, ⟨d', t, c, k, ?_, ?_,
      .stay ⟨h.readable, hstores, h.lines, h.available⟩ hp ho hopened⟩, fun _ he => by cases he⟩
    · simp only [perform, CommandLog.endPosition, hend]
      rfl
    · simp only [perform, CommandLog.endPosition, Tape.endPosition, htcheck rfl, h.length_lines]
      rfl
  | position =>
    refine ⟨.ending k.cursor, ⟨d, t, c, k, ?_, rfl, .stay h hp ho fun _ => id⟩,
      fun _ he => by cases he⟩
    simp only [perform, CommandLog.position, hp.position]
  | rewind =>
    refine ⟨.done, ⟨d, t, Disk.rewind c, { k with cursor := 0 }, ?_, ?_,
      .stay h ⟨hp.closed, Nat.zero_le _, rfl, rfl, rfl⟩ ho fun _ => id⟩, fun _ he => by cases he⟩
    · simp only [perform, CommandLog.check, hdcheck rfl]
      rfl
    · simp only [perform, CommandLog.check, htcheck rfl]
      rfl
  | close =>
    have ho' : d.Opened path place lock { c with closed := true } rs := ho
    obtain ⟨hstores, hopened⟩ := Disk.announce_open h.stores ho'
    have hpaired : Paired rs { c with closed := true } { k with closed := true } :=
      ⟨rfl, hp.cursor, hp.octets, hp.offset, hp.position⟩
    exact ⟨.done, ⟨d.announce { c with closed := true }, t.announce, { c with closed := true },
      { k with closed := true }, rfl, rfl,
      .stay ⟨h.readable, hstores, h.lines, h.available⟩ hpaired ho' hopened⟩,
      fun _ he => by cases he⟩

end LogCall

end

namespace Twin

variable {path : String} {place lock : Place} {x : Twin}

structure Unopened (path : String) (x : Twin) : Prop where
  clients : x.clients = []
  acknowledged : x.acknowledged = []
  tape : x.tape = {}
  vacant : x.disk.entries.Vacant path

structure Aligned (path : String) (place lock : Place) (x : Twin) : Prop where
  holding : Holding path place lock x.acknowledged x.disk x.tape
  clients {c : FileClient} {k : TapeClient} : (c, k) ∈ x.clients →
    x.disk.Opened path place lock c x.acknowledged ∧ Paired x.acknowledged c k

theorem opened_new {d d' : Disk} {rs : List Record} {t : List UInt8} (ht : Lines.lineFeed ∉ t)
    (hd : d'.handles =
      d.handles ++ [⟨path, place, lock, (Extent.scan {} (Lines.written rs ++ t)).1, 0⟩]) :
    d'.Opened path place lock { handle := d.handles.length } rs ∧
      Paired rs { handle := d.handles.length } {} := by
  have hf : FileHandle.Fits path place lock ⟨path, place, lock, .ofFirst rs.length rs, 0⟩ rs :=
    ⟨rfl, rfl, rfl, rs.length, Nat.le_refl _, rfl⟩
  refine ⟨⟨_, ?_, hf⟩, rfl, Nat.zero_le _, rfl, rfl, rfl⟩
  rw [hd, Extent.scan_all rs ht]
  simp

theorem Unopened.act (h : x.Unopened path) {e : LogEvent} (hs : e.Sound) :
    (x.act path e).Unopened path ∨ ∃ place lock, (x.act path e).Aligned path place lock := by
  have hnone (i : Nat) : x.clients[i]? = none := by rw [h.clients, List.getElem?_nil]
  -- without a client only an opening gets anywhere, and it cuts off what torn writes have left
  cases e with
  | opening =>
    rw [Twin.act]
    split
    · next hopen =>
      obtain ⟨-, hv⟩ := Disk.open?_error hopen h.vacant
      exact .inl ⟨h.clients, h.acknowledged, h.tape, hv⟩
    · next c d' hopen =>
      obtain ⟨place, lock, t, rfl, hhandles, hhouse, hres, -, hc⟩ := Disk.open?_ok hopen
      have ht : Lines.lineFeed ∉ t := by
        rcases hc with hc | ⟨-, rfl⟩
        · exact h.vacant.not_mem (.inr rfl) hres hc
        · exact List.not_mem_nil
      rw [← List.nil_append t] at hhandles hhouse
      have htake := Extent.take_scan_all [] ht
      rw [Lines.written, List.flatMap_nil] at htake
      rw [htake] at hhouse
      refine .inr ⟨place, lock, ⟨?_, ?_, ?_, ?_⟩, ?_⟩
      · rw [h.acknowledged]
        exact fun r hr => absurd hr List.not_mem_nil
      · rw [h.acknowledged]
        exact ⟨[], List.not_mem_nil, hhouse⟩
      · rw [h.acknowledged, h.tape]
        rfl
      · rw [h.tape]
      · rw [h.acknowledged, h.clients]
        intro c k hm
        cases List.mem_singleton.1 hm
        exact opened_new ht hhandles
  | sibling i =>
    rw [Twin.act, hnone]
    exact .inl h
  | call i call =>
    rw [Twin.act, hnone]
    exact .inl h
  | tear octets =>
    obtain ⟨-, hv⟩ := Disk.tear_vacant h.vacant hs
    exact .inl ⟨h.clients, h.acknowledged, h.tape, hv⟩

theorem Aligned.opening (h : x.Aligned path place lock) :
    (x.act path .opening).Aligned path place lock := by
  obtain ⟨t, ht, hh⟩ := h.holding.stores
  obtain ⟨c, d', hopen⟩ := Disk.open?_houses hh
  obtain ⟨place', lock', content, rfl, hhandles, hhouse, hres, hlock, hc⟩ := Disk.open?_ok hopen
  rw [hh.parents] at hres hlock hc
  cases hh.leads.symm.trans hres
  cases hh.locks.symm.trans hlock
  obtain rfl : content = Lines.written x.acknowledged ++ t := by
    rcases hc with hc | ⟨hc, -⟩
    · cases hh.holds.symm.trans hc
      rfl
    · cases hh.holds.symm.trans hc
  rw [Extent.take_scan_all _ ht] at hhouse
  rw [Twin.act, hopen]
  refine ⟨⟨h.holding.readable, ⟨[], List.not_mem_nil, ?_⟩, h.holding.lines,
    h.holding.available⟩, ?_⟩
  · rw [List.append_nil]
    exact hhouse
  · intro c k hm
    rcases List.mem_append.1 hm with hm | hm
    · obtain ⟨ho, hp⟩ := h.clients hm
      exact ⟨ho.of_append hhandles, hp⟩
    · cases List.mem_singleton.1 hm
      exact opened_new ht hhandles

theorem Aligned.call (h : x.Aligned path place lock) (i : Nat) {call : LogCall}
    (hs : call.Sound) : (x.act path (.call i call)).Aligned path place lock := by
  rw [Twin.act]
  split
  · exact h
  next c k hi =>
  obtain ⟨ho, hp⟩ := h.clients (List.mem_of_getElem? hi)
  by_cases hc : c.closed = true ∧ call.checks = true
  · obtain ⟨hd, ht⟩ := LogCall.perform_closed hc.1 (hp.closed.symm.trans hc.1) hc.2
      (d := x.disk) (t := x.tape)
    have hset : x.clients.set i (c, k) = x.clients := by
      obtain ⟨hlt, he⟩ := List.getElem?_eq_some_iff.1 hi
      rw [← he, List.set_getElem_self]
    rw [hd, ht]
    simp only [hset]
    cases call <;> simp only [LogCall.acknowledged?, Option.toList_none, List.append_nil] <;>
      exact h
  · have hc : c.closed = false ∨ call.checks = false := by
      cases hcc : c.closed with
      | false => exact .inl rfl
      | true => exact .inr (Bool.eq_false_iff.2 fun hk => hc ⟨hcc, hk⟩)
    obtain ⟨a, ⟨d', t', c', k', hd, ht, hon⟩, -⟩ :=
      LogCall.perform_answered h.holding ho hp hs hc
    rw [hd, ht]
    refine ⟨hon.holding, ?_⟩
    intro c'' k'' hm
    rcases List.mem_or_eq_of_mem_set hm with hm | he
    · obtain ⟨ho, hp⟩ := h.clients hm
      exact ⟨hon.opened c'' ho, hp.append _⟩
    · cases he
      exact ⟨hon.client, hon.paired⟩

theorem Aligned.act (h : x.Aligned path place lock) {e : LogEvent} (hs : e.Sound) :
    (x.act path e).Aligned path place lock := by
  cases e with
  | opening => exact h.opening
  | call i call => exact h.call i hs
  | sibling i =>
    rw [Twin.act]
    split
    · exact h
    next c k hi =>
    refine ⟨h.holding, fun {c' k'} hm => ?_⟩
    rcases List.mem_append.1 hm with hm | hm
    · exact h.clients hm
    · cases List.mem_singleton.1 hm
      obtain ⟨ho, -⟩ := h.clients (List.mem_of_getElem? hi)
      exact ⟨ho, rfl, Nat.zero_le _, rfl, rfl, rfl⟩
  | tear octets =>
    obtain ⟨t, ht, hh⟩ := h.holding.stores
    have hd := Disk.tear_houses hh octets
    rw [Lines.completeLength_written _ ht, List.take_left] at hd
    rw [Twin.act, hd]
    exact ⟨⟨h.holding.readable, ⟨octets, hs, hh.rewrite _⟩, h.holding.lines, h.holding.available⟩,
      h.clients⟩

theorem run_aligned (h : x.Unopened path ∨ ∃ place lock, x.Aligned path place lock)
    {events : List LogEvent} (hs : ∀ e ∈ events, e.Sound) :
    (x.run path events).Unopened path ∨
      ∃ place lock, (x.run path events).Aligned path place lock := by
  induction events generalizing x with
  | nil => exact h
  | cons e events ih =>
    have he := hs e (List.mem_cons_self ..)
    refine ih ?_ fun e' he' => hs e' (List.mem_cons_of_mem _ he')
    rcases h with h | ⟨place, lock, h⟩
    · exact h.act he
    · exact .inr ⟨place, lock, h.act he⟩

theorem acknowledged_act (path : String) (x : Twin) (e : LogEvent) :
    x.acknowledged <+: (x.act path e).acknowledged := by
  cases e with
  | opening =>
    rw [act]
    split <;> exact List.prefix_refl _
  | sibling i =>
    rw [act]
    split <;> exact List.prefix_refl _
  | call i call =>
    rw [act]
    split
    · exact List.prefix_refl _
    · exact List.prefix_append _ _
  | tear octets => exact List.prefix_refl _

theorem acknowledged_run (path : String) (x : Twin) (events : List LogEvent) :
    x.acknowledged <+: (x.run path events).acknowledged := by
  induction events generalizing x with
  | nil => exact List.prefix_refl _
  | cons e events ih => exact (acknowledged_act path x e).trans (ih (x.act path e))

theorem Aligned.tasks_answer {ε ε' : Type} [Executor ε] [Executor ε']
    (h : x.Aligned path place lock) {s : Site Disk FileClient ε} {t : Site Tape TapeClient ε'}
    (hm : (s.node.client, t.node.client) ∈ x.clients) (hd : s.log = x.disk) (ht : t.log = x.tape)
    (hs : s.node.turns = []) (ht' : t.node.turns = []) {call : LogCall} (hsound : call.Sound)
    (hc : s.node.client.closed = false ∨ call.checks = false)
    (hr : ∀ r, call = .append r → r.stamp = s.origin + s.now ∧ r.stamp = t.origin + t.now)
    {a : Activity} (ha : call.activity? = some a) (task task' : Nat) :
    ∃ s' t' answer, Activity.Alone task s a s' (.ok answer) ∧ call.Made s s' (.ok answer) ∧
      Activity.Alone task' t a t' (.ok answer) ∧ call.Made t t' (.ok answer) := by
  obtain ⟨ho, hp⟩ := h.clients hm
  obtain ⟨answer, ⟨_, _, _, _, hdisk, htape, -⟩, -⟩ :=
    LogCall.perform_answered h.holding ho hp hsound hc
  obtain ⟨s', reply, hs', hmade⟩ := LogCall.activity_alone task hs
    (Disk.epoch_read s.log s.node.client) ha fun r hcall => (hr r hcall).1
  have htread : CommandLog.epoch t.log (CommandLog.read t.log t.node.client).2 = t.epoch := rfl
  obtain ⟨t', reply', ht', hmade'⟩ := LogCall.activity_alone task' ht' htread ha
    fun r hcall => (hr r hcall).2
  obtain rfl : reply = .ok answer := by rw [hmade.reply, hd, hdisk]
  obtain rfl : reply' = .ok answer := by rw [hmade'.reply, ht, htape]
  exact ⟨s', t', answer, hs', hmade, ht', hmade'⟩

/-- A file that held no line at first is a log like one in memory, however many handles it has and
however its writers die. Every call on a client that is open, or need not be, gives the same answer
on both, and on a closed one it tells that the log is not available. An append answers how many
records were acknowledged before it; these are read back from every client, in their order and at
their offsets, and none of them is ever lost. -/
theorem file_log_refines_tape {d : Disk} (hd : d.entries.Vacant path) {events : List LogEvent}
    (hs : ∀ e ∈ events, e.Sound) (hx : x = Twin.run path { disk := d } events) :
    (∀ (i : Nat) (c : FileClient) (k : TapeClient), x.clients[i]? = some (c, k) →
      (∀ call : LogCall, call.Sound →
        (c.closed = true ∧ call.checks = true →
          (∃ f, (call.perform x.disk c).1 = .error (.logUnavailable f)) ∧
            ∃ f, (call.perform x.tape k).1 = .error (.logUnavailable f)) ∧
        (c.closed = false ∨ call.checks = false →
          ∃ a, (call.perform x.disk c).1 = .ok a ∧ (call.perform x.tape k).1 = .ok a ∧
            ∀ r, call = .append r → a = .appended x.acknowledged.length)) ∧
      (c.closed = false → (LogCall.poll.perform x.disk (Disk.rewind c)).1 =
        .ok (.batch (Record.commandsFrom 0 x.acknowledged)))) ∧
    ∀ later, x.acknowledged <+: (x.run path later).acknowledged := by
  have hstart : Unopened path { disk := d } := ⟨rfl, rfl, rfl, hd⟩
  have haligned := run_aligned (.inl hstart) hs
  rw [← hx] at haligned
  refine ⟨fun i c k hi => ?_, acknowledged_run path x⟩
  rcases haligned with h | ⟨place, lock, h⟩
  · rw [h.clients] at hi
    cases hi
  obtain ⟨ho, hp⟩ := h.clients (List.mem_of_getElem? hi)
  refine ⟨fun call hcall => ⟨?_, ?_⟩, ?_⟩
  · rintro ⟨hc, hcheck⟩
    obtain ⟨hdisk, htape⟩ := LogCall.perform_closed hc (hp.closed.symm.trans hc) hcheck
      (d := x.disk) (t := x.tape)
    rw [hdisk, htape]
    exact ⟨⟨_, rfl⟩, _, rfl⟩
  · intro hc
    obtain ⟨a, ⟨_, _, _, _, hdisk, htape, -⟩, happ⟩ :=
      LogCall.perform_answered h.holding ho hp hcall hc
    rw [hdisk, htape]
    exact ⟨a, rfl, rfl, happ⟩
  · intro hc
    have ho : x.disk.Opened path place lock (Disk.rewind c) x.acknowledged := ho
    have hcheck : x.disk.check (Disk.rewind c) = .ok () := x.disk.check_open hc
    have hread := Disk.read_open h.holding.stores ho h.holding.readable (Nat.zero_le _) rfl rfl
    simp only [LogCall.perform, CommandLog.check, hcheck, CommandLog.read, hread, List.drop_zero]
    rfl

def creation : Record where
  id := ⟨.stream, "A", .create⟩
  payload := { statement := "CREATE STREAM A;" }
  stamp := 0

def deletion : Record where
  id := ⟨.stream, "A", .drop⟩
  payload := { statement := "DROP STREAM A;" }
  stamp := 1

def tornRun : List LogEvent :=
  [.opening, .opening, .call 0 (.append creation), .tear [123], .call 1 (.append deletion),
    .sibling 0, .call 1 .close]

theorem file_log_refines_tape_torn :
    ∃ x : Twin, x = Twin.run "log" { disk := {} } tornRun ∧ x.clients.length = 3 ∧
      ∀ (i : Nat) (c : FileClient) (k : TapeClient), x.clients[i]? = some (c, k) →
        (if i = 1 then ∃ f, (LogCall.poll.perform x.disk c).1 = .error (.logUnavailable f)
        else
          ((LogCall.append creation).perform x.disk c).1 = .ok (.appended 2) ∧
            ((LogCall.append creation).perform x.tape k).1 = .ok (.appended 2) ∧
            (LogCall.poll.perform x.disk (Disk.rewind c)).1 =
              .ok (.batch [creation.command 0, deletion.command 1])) := by
  obtain ⟨x, hx⟩ : ∃ x, x = Twin.run "log" { disk := {} } tornRun := ⟨_, rfl⟩
  have hvacant : Entries.bare.Vacant "log" := by decide +kernel
  have hsound : ∀ e ∈ tornRun, e.Sound := by decide
  have hclosed : x.clients.map (fun p => p.1.closed) = [false, true, false] := by
    rw [hx]
    decide +kernel
  have hacknowledged : x.acknowledged = [creation, deletion] := by
    rw [hx]
    decide +kernel
  obtain ⟨hclients, -⟩ := file_log_refines_tape (d := {}) hvacant hsound hx
  refine ⟨x, hx, ?_, fun i c k hi => ?_⟩
  · have hlen := congrArg List.length hclosed
    rwa [List.length_map] at hlen
  obtain ⟨hcalls, hread⟩ := hclients i c k hi
  have hc : [false, true, false][i]? = some c.closed := by
    rw [← hclosed, List.getElem?_map, hi]
    rfl
  split
  · next h =>
    subst h
    obtain ⟨hfails, -⟩ := hcalls .poll trivial
    obtain ⟨hdisk, -⟩ := hfails ⟨(Option.some.inj hc).symm, rfl⟩
    exact hdisk
  · next h =>
    have hopen : c.closed = false := by
      match i, h, hc with
      | 0, _, hc => exact (Option.some.inj hc).symm
      | 2, _, hc => exact (Option.some.inj hc).symm
      | _ + 3, _, hc => cases hc
    obtain ⟨-, hanswers⟩ := hcalls (.append creation) (by decide)
    obtain ⟨a, hdisk, htape, happ⟩ := hanswers (.inl hopen)
    obtain rfl : a = .appended 2 := by rw [happ creation rfl, hacknowledged]; rfl
    have hbatch := hread hopen
    rw [hacknowledged] at hbatch
    exact ⟨hdisk, htape, hbatch⟩

/-- The calls that `file_log_refines_tape` is about are what the tasks of the program come to: of any
two nodes that work through a pair of clients, the tasks that make a call, if nobody comes between,
end with one answer, and each leaves its log and its client as the call does. -/
theorem run_tasks_answer {d : Disk} (hd : d.entries.Vacant path) {events : List LogEvent}
    (hs : ∀ e ∈ events, e.Sound) (hx : x = Twin.run path { disk := d } events) {ε ε' : Type}
    [Executor ε] [Executor ε'] {s : Site Disk FileClient ε} {t : Site Tape TapeClient ε'}
    (hm : (s.node.client, t.node.client) ∈ x.clients) (hdisk : s.log = x.disk)
    (htape : t.log = x.tape) (hturns : s.node.turns = []) (hturns' : t.node.turns = [])
    {call : LogCall} (hsound : call.Sound)
    (hc : s.node.client.closed = false ∨ call.checks = false)
    (hr : ∀ r, call = .append r → r.stamp = s.origin + s.now ∧ r.stamp = t.origin + t.now)
    {a : Activity} (ha : call.activity? = some a) (task task' : Nat) :
    ∃ s' t' answer, Activity.Alone task s a s' (.ok answer) ∧ call.Made s s' (.ok answer) ∧
      Activity.Alone task' t a t' (.ok answer) ∧ call.Made t t' (.ok answer) := by
  have hstart : Unopened path { disk := d } := ⟨rfl, rfl, rfl, hd⟩
  have haligned := run_aligned (.inl hstart) hs
  rw [← hx] at haligned
  rcases haligned with h | ⟨place, lock, h⟩
  · rw [h.clients] at hm
    cases hm
  · exact h.tasks_answer hm hdisk htape hturns hturns' hsound hc hr ha task task'

end Twin

end StatementLog
