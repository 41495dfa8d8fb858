import Mathlib.Data.List.Induction
import StatementLog.Proofs.Log.Clientele
import StatementLog.Proofs.Log.Refinement
import StatementLog.Proofs.Runner.Reading
import StatementLog.Script

namespace StatementLog

variable {ε : Type}

def Progress.written? : Progress → Option Nat
  | .busy (.appending (.announcing n)) => some n
  | .answered (.ok (.appended n)) => some n
  | _ => none

def Progress.isSealed : Progress → Bool
  | .busy (.appending (.announcing _)) => true
  | .answered (.ok _) => true
  | _ => false

/-- What a client has read since it was last sent back to the beginning, and from where on. -/
structure Haul where
  start : Nat
  commands : List Command := []

def Haul.add (h : Haul) : Demand → Progress → Haul
  | .rewind, .answered (.ok _) => { start := 0 }
  | .poll _, .answered (.ok (.batch batch)) => { h with commands := h.commands ++ batch }
  | _, _ => h

inductive Tape.Turned (time : Int64) (t t' : Tape) (k k' : TapeClient) (d : Demand) (p : Progress) :
    Progress → Prop where
  | go {p' : Progress} : t' = t → k' = k → p.isSealed = false → p'.reply? = none →
      p'.isSealed = false → Turned time t t' k k' d p p'
  | fail {e : Error} : t' = t → k' = k → p.isSealed = false → t.check k = .error e →
      Turned time t t' k k' d p (.answered (.error e))
  | lapse {timeout : Nat} : d = .poll timeout → t' = t → k' = k → p.isSealed = false →
      Turned time t t' k k' d p (.answered (.ok (.batch [])))
  | read {timeout : Nat} {batch : List Command} : d = .poll timeout → t' = t →
      t.read k = (.ok batch, k') → p.isSealed = false →
      Turned time t t' k k' d p (.answered (.ok (.batch batch)))
  | measure : d = .endPosition → t' = t → k' = k → p.isSealed = false →
      Turned time t t' k k' d p (.answered (.ok (.ending t.lines.length)))
  | rewind : d = .rewind → t' = t → k' = { k with cursor := 0 } → p.isSealed = false →
      Turned time t t' k k' d p (.answered (.ok .done))
  | close : d = .close → t'.lines = t.lines → k' = { k with closed := true } →
      p.isSealed = false → Turned time t t' k k' d p (.answered (.ok .done))
  | write {id : CommandId} {payload : Payload} : d = .append id payload →
      t' = { t with lines := t.lines ++ [Record.line ⟨id, payload, time.toInt⟩] } → k' = k →
      p.isSealed = false →
      Turned time t t' k k' d p (.busy (.appending (.announcing t.lines.length)))
  | announce {id : CommandId} {payload : Payload} {n : Nat} : d = .append id payload →
      p = .busy (.appending (.announcing n)) → t'.lines = t.lines → k' = k →
      Turned time t t' k k' d p (.answered (.ok (.appended n)))

namespace Tape.Turned

variable {time : Int64} {t t' : Tape} {k k' : TapeClient} {d : Demand} {p p' : Progress}

theorem written?_of_open (h : p.isSealed = false) : p.written? = none := by
  unfold Progress.isSealed at h
  unfold Progress.written?
  split at h <;> simp_all

theorem lines_cases (h : t.Turned time t' k k' d p p') :
    t'.lines = t.lines ∧ p'.written? = p.written? ∨
      ∃ id payload, d = .append id payload ∧
        t'.lines = t.lines ++ [Record.line ⟨id, payload, time.toInt⟩] ∧ p.written? = none ∧
        p'.written? = some t.lines.length := by
  cases h with
  | write hd ht _ hp => exact .inr ⟨_, _, hd, congrArg lines ht, written?_of_open hp, rfl⟩
  | announce _ hp ht _ => exact .inl ⟨ht, hp ▸ rfl⟩
  | close _ ht _ hp => exact .inl ⟨ht, (written?_of_open hp).symm⟩
  | go ht _ hp _ hp' => exact .inl ⟨congrArg lines ht, by rw [written?_of_open hp, written?_of_open hp']⟩
  | fail ht _ hp _ => exact .inl ⟨congrArg lines ht, (written?_of_open hp).symm⟩
  | lapse _ ht _ hp => exact .inl ⟨congrArg lines ht, (written?_of_open hp).symm⟩
  | read _ ht _ hp => exact .inl ⟨congrArg lines ht, (written?_of_open hp).symm⟩
  | measure _ ht _ hp => exact .inl ⟨congrArg lines ht, (written?_of_open hp).symm⟩
  | rewind _ ht _ hp => exact .inl ⟨congrArg lines ht, (written?_of_open hp).symm⟩

theorem of_open (h : t.Turned time t' k k' d p p') (hp : p'.isSealed = false) :
    t' = t ∧ k' = k ∧ p.isSealed = false ∧
      ∀ e, p' = .answered (.error e) → t.check k = .error e := by
  cases h with
  | go ht hk hopen hr _ => exact ⟨ht, hk, hopen, fun e he => by rw [he] at hr; cases hr⟩
  | fail ht hk hopen hc => exact ⟨ht, hk, hopen, fun e he => by cases he; exact hc⟩
  | _ => cases hp

theorem replied (h : t.Turned time t' k k' d p p') {id : CommandId} {payload : Payload}
    (hd : d = .append id payload) {a : Answer} (ha : p' = .answered (.ok a)) :
    ∃ n, a = .appended n := by
  subst hd
  cases h with
  | go _ _ _ hr _ =>
    rw [ha] at hr
    cases hr
  | announce _ _ _ _ =>
    cases ha
    exact ⟨_, rfl⟩
  | write _ _ _ _ => cases ha
  | fail _ _ _ _ => cases ha
  | lapse hd _ _ _ | read hd _ _ _ | measure hd _ _ _ | rewind hd _ _ _ | close hd _ _ _ =>
    cases hd

end Tape.Turned

namespace Site

variable {s s' : Site Tape TapeClient ε}

theorem Keeps.client_eq (h : s.Keeps s') (hp : s'.position = s.position) :
    s'.node.client = s.node.client := by
  have hcheck : Tape.check s'.log s'.node.client = Tape.check s.log s.node.client := h.check
  rw [h.log] at hcheck
  have hclosed : s'.node.client.closed = s.node.client.closed := by
    simp only [Tape.check] at hcheck
    cases hc : s.node.client.closed <;> cases hc' : s'.node.client.closed <;>
      simp [hc, hc'] at hcheck ⊢ <;> split at hcheck <;> cases hcheck
  have hcursor : s'.node.client.cursor = s.node.client.cursor := hp
  cases hk : s.node.client
  cases hk' : s'.node.client
  rw [hk, hk'] at hclosed hcursor
  cases hclosed
  cases hcursor
  rfl

end Site

theorem Polling.done_cases {s s' : Site Tape TapeClient ε} {stage : Polling} {task : Nat}
    {r : Except Error (List Command)} (hr : ∃ batch, (s.log.read s.node.client).1 = .ok batch)
    (h : stage.step task s = .done s' r) :
    s'.log = s.log ∧
      ((∃ e, r = .error e ∧ s.log.check s.node.client = .error e ∧
          s'.node.client = s.node.client) ∨
        (r = .ok [] ∧ s'.node.client = s.node.client) ∨
        ∃ batch, r = .ok batch ∧ s.log.read s.node.client = (.ok batch, s'.node.client)) := by
  cases stage with
  | arriving timeout => cases h
  | queued timeout =>
    simp only [step] at h
    split at h <;> cases h
  | enlisting deadline => cases h
  | checking deadline epoch =>
    simp only [step, finish] at h
    split at h
    · next hc =>
      cases h
      exact ⟨rfl, .inl ⟨_, rfl, hc, rfl⟩⟩
    · cases h
  | reading deadline epoch =>
    obtain ⟨batch, hb⟩ := hr
    have hread : CommandLog.read s.log s.node.client =
        (.ok batch, (s.log.read s.node.client).2) := Prod.ext hb rfl
    simp only [step, finish, hread] at h
    cases batch with
    | nil =>
      simp only [CommandLog.patience] at h
      cases h
    | cons c cs =>
      cases h
      exact ⟨rfl, .inr (.inr ⟨_, rfl, hread⟩)⟩
  | waiting deadline epoch look =>
    simp only [step, finish] at h
    split at h
    · cases h
    · split at h
      · split at h <;> cases h
        exact ⟨rfl, .inr (.inl ⟨rfl, rfl⟩)⟩
      · split at h <;> cases h

namespace Demand

variable {s s' : Site Tape TapeClient ε} {time : Int64} {d : Demand} {a a' : Activity} {task : Nat}

theorem Suits.turned_next [Executor ε] (hd : d.Suits a) (ht : s.origin + s.now = time.toInt)
    (h : a.step task s = .next s' a') :
    d.Suits a' ∧
      Tape.Turned time s.log s'.log s.node.client s'.node.client d (.busy a) (.busy a') := by
  unfold Suits at hd
  split at hd
  · next id payload id' payload' =>
    obtain ⟨rfl, rfl⟩ := hd
    rcases Move.within_next h with ⟨stage', hs, rfl⟩ | ⟨s₁, r, -, hs⟩
    · rw [Appending.step, ht] at hs
      split at hs
      · cases hs
      · next hr =>
        cases hs
        obtain ⟨rfl, rfl⟩ := Tape.append_ok hr
        exact ⟨trivial, .write rfl rfl rfl rfl⟩
    · cases hs
  · cases h
  · next timeout stage =>
    rcases Move.within_next h with ⟨stage', hs, rfl⟩ | ⟨s₁, r, -, hs⟩
    · obtain ⟨hk, hp⟩ := Polling.keeps_next hs
      exact ⟨trivial, .go hk.log (hk.client_eq hp) rfl rfl rfl⟩
    · cases hs
  · cases h
  · next stage =>
    rcases Move.within_next h with ⟨stage', hs, rfl⟩ | ⟨s₁, r, -, hs⟩
    · cases stage with
      | arriving =>
        rw [Rewinding.step] at hs
        split at hs <;> cases hs
        exact ⟨trivial, .go rfl rfl rfl rfl rfl⟩
      | queued =>
        rw [Rewinding.step] at hs
        split at hs <;> cases hs
    · cases hs
  · cases h
  · exact hd.elim

theorem Suits.turned_done [Executor ε] (hd : d.Suits a)
    (hr : ∃ batch, (s.log.read s.node.client).1 = .ok batch) {reply : Reply}
    (h : a.step task s = .done s' reply) :
    Tape.Turned time s.log s'.log s.node.client s'.node.client d (.busy a) (.answered reply) := by
  unfold Suits at hd
  split at hd
  · next id payload id' payload' =>
    obtain ⟨s₁, r, hs, hf⟩ := Move.within_done h
    cases hf
    rw [Appending.step] at hs
    split at hs
    · next he =>
      cases hs
      rw [Tape.append_error he]
      refine .fail rfl rfl rfl ?_
      have he : s.log.append s.node.client _ = _ := he
      rw [Tape.append] at he
      split at he
      · next hc =>
        cases he
        exact hc
      · cases he
    · cases hs
  · cases h
    exact .announce rfl rfl rfl rfl
  · next timeout stage =>
    obtain ⟨s₁, r, hs, hf⟩ := Move.within_done h
    cases hf
    obtain ⟨hl, ⟨e, rfl, hc, hk⟩ | ⟨rfl, hk⟩ | ⟨batch, rfl, hb⟩⟩ := Polling.done_cases hr hs
    · exact .fail hl hk rfl hc
    · exact .lapse rfl hl hk rfl
    · exact .read rfl hl hb rfl
  · have hstep : Activity.step task s .measuring =
        Activity.answer .ending s (s.log.endPosition s.node.client) := rfl
    rw [hstep] at h
    cases h
    rw [Tape.endPosition]
    split
    · next hc => exact .fail rfl rfl rfl hc
    · exact .measure rfl rfl rfl rfl
  · next stage =>
    obtain ⟨s₁, r, hs, hf⟩ := Move.within_done h
    cases hf
    cases stage with
    | arriving =>
      rw [Rewinding.step] at hs
      split at hs
      · next hc =>
        cases hs
        exact .fail rfl rfl rfl hc
      · cases hs
    | queued =>
      rw [Rewinding.step] at hs
      split at hs <;> cases hs
      exact .rewind rfl rfl rfl rfl
  · cases h
    exact .close rfl rfl rfl rfl
  · exact hd.elim

end Demand

namespace Record

theorem commandsFrom_drop (rs : List Record) (n m : Nat) :
    (commandsFrom n rs).drop m = commandsFrom (n + m) (rs.drop m) := by
  refine List.ext_getElem? fun i => ?_
  simp only [commandsFrom, List.getElem?_drop, List.getElem?_map, List.getElem?_zipIdx,
    Nat.add_assoc]

theorem commandsFrom_prefix (n : Nat) {rs rs' : List Record} (h : rs <+: rs') :
    commandsFrom n (rs.drop n) <+: commandsFrom n (rs'.drop n) := by
  obtain ⟨more, rfl⟩ := h
  rw [List.drop_append, commandsFrom, commandsFrom, List.zipIdx_append, List.map_append]
  exact List.prefix_append ..

end Record

namespace Haul

/-- The haul is what stands on the tape from its start to the cursor. -/
structure Fills (h : Haul) (rs : List Record) (cursor : Nat) : Prop where
  cursor : h.start + h.commands.length = cursor
  commands : h.commands <+: Record.commandsFrom h.start (rs.drop h.start)

variable {h : Haul} {rs rs' : List Record} {t t' : Tape} {k k' : TapeClient}

theorem Fills.grow {cursor : Nat} (hf : h.Fills rs cursor) (hr : rs <+: rs') :
    h.Fills rs' cursor :=
  ⟨hf.cursor, hf.commands.trans (Record.commandsFrom_prefix h.start hr)⟩

theorem Fills.read (hf : h.Fills rs k.cursor) :
    ({ h with commands :=
      h.commands ++ Record.commandsFrom k.cursor (rs.drop k.cursor) } : Haul).Fills rs
        (k.cursor + (Record.commandsFrom k.cursor (rs.drop k.cursor)).length) := by
  have hall : h.commands ++ Record.commandsFrom k.cursor (rs.drop k.cursor) =
      Record.commandsFrom h.start (rs.drop h.start) := by
    have hrest : (Record.commandsFrom h.start (rs.drop h.start)).drop h.commands.length =
        Record.commandsFrom k.cursor (rs.drop k.cursor) := by
      rw [Record.commandsFrom_drop, List.drop_drop, hf.cursor]
    rw [← hrest]
    nth_rewrite 1 [List.prefix_iff_eq_take.1 hf.commands]
    exact List.take_append_drop ..
  refine ⟨?_, ?_⟩
  · simp only [List.length_append, ← Nat.add_assoc, hf.cursor]
  · simp only [hall]
    exact List.prefix_rfl

theorem Fills.turned {time : Int64} {d : Demand} {p p' : Progress} (hf : h.Fills rs k.cursor)
    (hl : t.lines = rs.map Record.line) (hr : ∀ r ∈ rs, r.Readable)
    (ht : t.Turned time t' k k' d p p') : (h.add d p').Fills rs k'.cursor := by
  cases ht with
  | go _ hk _ hp _ =>
    cases p' with
    | busy a => exact hk ▸ (by cases d <;> exact hf)
    | answered reply => cases hp
  | fail _ hk _ _ => exact hk ▸ (by cases d <;> exact hf)
  | lapse hd _ hk _ =>
    subst hd hk
    simpa only [add, List.append_nil] using hf
  | read hd _ hb _ =>
    subst hd
    rw [Tape.read_lines hl hr] at hb
    cases hb
    exact hf.read
  | measure hd _ hk _ =>
    subst hd hk
    exact hf
  | rewind hd _ hk _ =>
    subst hd hk
    exact ⟨rfl, List.nil_prefix⟩
  | close hd _ hk _ =>
    subst hd hk
    exact hf
  | write hd _ hk _ =>
    subst hd hk
    exact hf
  | announce hd _ _ hk =>
    subst hd hk
    exact hf

end Haul

inductive TapeEvent where
  | ask (client : Nat) (demand : Demand)
  | turn (errand : Nat)
  | clock (now : Nat) (time : Int64)
  | switch (available : Bool)

def TapeEvent.Sound : TapeEvent → Prop
  | ask _ demand => demand.Sound
  | _ => True

instance : (e : TapeEvent) → Decidable e.Sound
  | .ask _ demand => inferInstanceAs (Decidable demand.Sound)
  | .turn _ | .clock _ _ | .switch _ => isTrue trivial

namespace Clientele

def haul {μ κ : Type} (x : Clientele μ κ ε) (client start : Nat) : Haul :=
  x.history.foldl (fun h e => if e.client = client then h.add e.demand e.progress else h) { start }

def written? {μ κ : Type} (x : Clientele μ κ ε) (errand : Nat) : Option Nat :=
  (x.errands[errand]?).bind fun e => e.progress.written?

def members (x : Clientele Tape TapeClient ε) : List TapeClient :=
  x.clients.map fun s => s.node.client

def opened (records : List Record) (clients : List (Site Tape TapeClient ε)) :
    Clientele Tape TapeClient ε where
  log := { lines := records.map Record.line }
  clients

variable [Executor ε]

def meet (x : Clientele Tape TapeClient ε) : TapeEvent → Clientele Tape TapeClient ε
  | .ask client demand => x.ask client demand
  | .turn errand => x.turn errand
  | .clock now time => { x with now, time }
  | .switch available => { x with log := x.log.setAvailable available }

def play (x : Clientele Tape TapeClient ε) (es : List TapeEvent) : Clientele Tape TapeClient ε :=
  es.foldl meet x

variable {x y : Clientele Tape TapeClient ε} {i j : Nat} {rs records : List Record}

structure Busy (x : Clientele Tape TapeClient ε) (rs : List Record) : Prop where
  lines : x.log.lines = rs.map Record.line
  readable : ∀ r ∈ rs, r.Readable
  demands : ∀ e ∈ x.errands, e.demand.Sound ∧ ∀ a, e.progress = .busy a → e.demand.Suits a

structure Moves (x y : Clientele Tape TapeClient ε) (j : Nat) (e : Errand) (k k' : TapeClient)
    (p : Progress) : Prop where
  errand : x.errands[j]? = some e
  client : x.members[e.client]? = some k
  turned : Tape.Turned x.time x.log y.log k k' e.demand e.progress p
  suits {a : Activity} : p = .busy a → e.demand.Suits a
  errands : y.errands = x.errands.set j { e with progress := p }
  members : y.members = x.members.set e.client k'
  haul (client start : Nat) : y.haul client start =
    if e.client = client then (x.haul client start).add e.demand p else x.haul client start

theorem Busy.moves (hx : x.Busy rs) (h : x.turn? j = some y) : ∃ e k k' p, x.Moves y j e k k' p := by
  obtain ⟨e, a, s, he, ha, hs, hy⟩ := turn?_cases h
  obtain ⟨k, hk, hnode, hlog, -, htime⟩ := site?_eq_some hs
  have hsuits := (hx.demands e (List.mem_of_getElem? he)).2 a ha
  have hclient : x.members[e.client]? = some s.node.client := by
    rw [members, List.getElem?_map, hk, hnode]
    rfl
  have hread : ∃ batch, (s.log.read s.node.client).1 = .ok batch := by
    rw [hlog]
    exact ⟨_, congrArg Prod.fst (Tape.read_lines hx.lines hx.readable s.node.client)⟩
  rcases hy with ⟨s', a', hstep, rfl⟩ | ⟨s', reply, hstep, rfl⟩
  · obtain ⟨hsuits', hturned⟩ := hsuits.turned_next htime hstep
    rw [hlog, ← ha] at hturned
    refine ⟨e, s.node.client, s'.node.client, .busy a', he, hclient, hturned, ?_, rfl,
      List.map_set .., fun client start => ?_⟩
    · rintro _ ⟨⟩
      exact hsuits'
    · split
      · cases e.demand <;> rfl
      · rfl
  · have hturned : Tape.Turned x.time s.log s'.log s.node.client s'.node.client e.demand (.busy a)
        (.answered reply) := hsuits.turned_done hread hstep
    rw [hlog, ← ha] at hturned
    refine ⟨e, s.node.client, s'.node.client, .answered reply, he, hclient, hturned, ?_, rfl,
      List.map_set .., fun client start => ?_⟩
    · rintro _ ⟨⟩
    · rw [haul, remember, List.foldl_concat]
      rfl

structure Sound (records : List Record) (start : Nat → Nat) (x : Clientele Tape TapeClient ε)
    (rs : List Record) : Prop extends x.Busy rs where
  grown : records <+: rs
  stands {j n : Nat} : x.written? j = some n → records.length ≤ n ∧
    ∃ r, rs[n]? = some r ∧ x.demand? j = some (.append r.id r.payload)
  owner {n : Nat} : records.length ≤ n → n < rs.length → ∃ j, x.written? j = some n
  apart {i j n : Nat} : x.written? i = some n → x.written? j = some n → i = j
  replied {e : Errand} {id : CommandId} {payload : Payload} {a : Answer} : e ∈ x.errands →
    e.demand = .append id payload → e.progress = .answered (.ok a) → ∃ n, a = .appended n
  hauls {i : Nat} {k : TapeClient} : x.members[i]? = some k →
    (x.haul i (start i)).Fills rs k.cursor

section

variable {start : Nat → Nat} {e : Errand} {k k' : TapeClient} {p : Progress}

omit [Executor ε] in
theorem Moves.written? (h : x.Moves y j e k k' p) (i : Nat) :
    y.written? i = if i = j then p.written? else x.written? i := by
  rw [Clientele.written?, h.errands, List.getElem?_set]
  by_cases hij : i = j
  · rw [if_pos hij, if_pos hij.symm, if_pos (List.getElem?_eq_some_iff.1 h.errand).1]
    rfl
  · rw [if_neg hij, if_neg (Ne.symm hij)]
    rfl

omit [Executor ε] in
theorem Moves.demand? (h : x.Moves y j e k k' p) (i : Nat) : y.demand? i = x.demand? i := by
  rw [Clientele.demand?, h.errands, List.getElem?_set]
  by_cases hij : i = j
  · rw [if_pos hij.symm, if_pos (List.getElem?_eq_some_iff.1 h.errand).1, hij, Clientele.demand?,
      h.errand]
    rfl
  · rw [if_neg (Ne.symm hij)]
    rfl

omit [Executor ε] in
theorem Moves.mem_errands (h : x.Moves y j e k k' p) {e' : Errand} (he : e' ∈ y.errands) :
    e' ∈ x.errands ∨ e' = { e with progress := p } :=
  List.mem_or_eq_of_mem_set (h.errands ▸ he)

omit [Executor ε] in
theorem Moves.hauls (h : x.Moves y j e k k' p) (hx : x.Sound records start rs)
    {rs' : List Record} (hr : rs <+: rs') {k₁ : TapeClient} (hk : y.members[i]? = some k₁) :
    (y.haul i (start i)).Fills rs' k₁.cursor := by
  rw [h.haul]
  rw [h.members, List.getElem?_set] at hk
  split
  · next hi =>
    subst hi
    rw [if_pos rfl, if_pos (List.getElem?_eq_some_iff.1 h.client).1] at hk
    cases hk
    exact ((hx.hauls h.client).turned hx.lines hx.readable h.turned).grow hr
  · next hi =>
    rw [if_neg hi] at hk
    exact (hx.hauls hk).grow hr

omit [Executor ε] in
theorem Moves.busy (h : x.Moves y j e k k' p) (hx : x.Busy rs) {rs' : List Record}
    (hl : y.log.lines = rs'.map Record.line) (hr : ∀ r ∈ rs', r.Readable) : y.Busy rs' := by
  refine ⟨hl, hr, fun e' he' => ?_⟩
  rcases h.mem_errands he' with he' | rfl
  · exact hx.demands e' he'
  · exact ⟨(hx.demands e (List.mem_of_getElem? h.errand)).1, fun _ => h.suits⟩

omit [Executor ε] in
theorem Moves.replied (h : x.Moves y j e k k' p) (hx : x.Sound records start rs) {e' : Errand}
    {id : CommandId} {payload : Payload} {a : Answer} (he : e' ∈ y.errands)
    (hd : e'.demand = .append id payload) (ha : e'.progress = .answered (.ok a)) :
    ∃ n, a = .appended n := by
  rcases h.mem_errands he with he | rfl
  · exact hx.replied he hd ha
  · exact h.turned.replied hd ha

omit [Executor ε] in
theorem Sound.written?_lt (hx : x.Sound records start rs) {n : Nat}
    (h : x.written? j = some n) : n < rs.length := by
  obtain ⟨-, r, hr, -⟩ := hx.stands h
  exact (List.getElem?_eq_some_iff.1 hr).1

omit [Executor ε] in
theorem Sound.moves (hx : x.Sound records start rs) (h : x.Moves y j e k k' p) :
    ∃ rs', rs <+: rs' ∧ y.Sound records start rs' := by
  have hj : x.written? j = e.progress.written? := by rw [Clientele.written?, h.errand]; rfl
  -- a turn leaves the lines as they are, or writes the record of its errand behind them
  rcases h.turned.lines_cases with ⟨hl, hw⟩ | ⟨id, payload, hd, hl, hn, hw⟩
  · have hw (i : Nat) : y.written? i = x.written? i := by
      rw [h.written?]
      split
      · next hi => rw [hw, hi, hj]
      · rfl
    refine ⟨rs, List.prefix_rfl, h.busy hx.toBusy (hl.trans hx.lines) hx.readable, hx.grown, ?_,
      ?_, ?_, h.replied hx, h.hauls hx List.prefix_rfl⟩
    · intro i n hi
      rw [h.demand?]
      exact hx.stands ((hw i).symm.trans hi)
    · intro n hn hlt
      obtain ⟨i, hi⟩ := hx.owner hn hlt
      exact ⟨i, (hw i).trans hi⟩
    · intro i i' n hi hi'
      exact hx.apart ((hw i).symm.trans hi) ((hw i').symm.trans hi')
  · have hlen : x.log.lines.length = rs.length := by rw [hx.lines, List.length_map]
    have hw (i : Nat) : y.written? i = if i = j then some rs.length else x.written? i := by
      rw [h.written?, hw, hlen]
    have hsound := (hx.demands e (List.mem_of_getElem? h.errand)).1
    rw [hd] at hsound
    have hnew : Record.Readable ⟨id, payload, x.time.toInt⟩ :=
      ⟨hsound, x.time.le_toInt, x.time.toInt_lt⟩
    have hlines : y.log.lines =
        (rs ++ [(⟨id, payload, x.time.toInt⟩ : Record)]).map Record.line := by
      rw [hl, hx.lines, List.map_append]
      rfl
    refine ⟨_, List.prefix_append .., h.busy hx.toBusy hlines ?_,
      hx.grown.trans (List.prefix_append ..), ?_, ?_, ?_, h.replied hx,
      h.hauls hx (List.prefix_append ..)⟩
    · intro r hr
      rcases List.mem_append.1 hr with hr | hr
      · exact hx.readable r hr
      · exact List.mem_singleton.1 hr ▸ hnew
    · intro i n hi
      rw [h.demand?]
      rw [hw] at hi
      split at hi
      · next hij =>
        cases hi
        refine ⟨hx.grown.length_le, _, List.getElem?_concat_length, ?_⟩
        rw [Clientele.demand?, hij, h.errand, Option.map_some, hd]
      · obtain ⟨hle, r, hr, hdemand⟩ := hx.stands hi
        exact ⟨hle, r, (List.getElem?_append_left (hx.written?_lt hi)).trans hr, hdemand⟩
    · intro n hle hlt
      rw [List.length_append] at hlt
      rcases Nat.lt_succ_iff_lt_or_eq.1 hlt with hlt | rfl
      · obtain ⟨i, hi⟩ := hx.owner hle hlt
        have hij : i ≠ j := by
          rintro rfl
          rw [hj, hn] at hi
          cases hi
        exact ⟨i, by rw [hw, if_neg hij, hi]⟩
      · exact ⟨j, by rw [hw, if_pos rfl]⟩
    · intro i i' n hi hi'
      rw [hw] at hi hi'
      -- the new offset lies behind the records as they were, the others on them
      split at hi <;> split at hi'
      · next hij hij' => exact hij.trans hij'.symm
      · cases hi
        exact absurd (hx.written?_lt hi') (Nat.lt_irrefl _)
      · cases hi'
        exact absurd (hx.written?_lt hi) (Nat.lt_irrefl _)
      · exact hx.apart hi hi'

end

theorem Sound.turn {start : Nat → Nat} (hx : x.Sound records start rs) (j : Nat) :
    ∃ rs', rs <+: rs' ∧ (x.turn j).Sound records start rs' := by
  rcases x.turn_cases j with h | h
  · exact ⟨rs, List.prefix_rfl, h.symm ▸ hx⟩
  · obtain ⟨e, k, k', p, hm⟩ := hx.toBusy.moves h
    exact hx.moves hm

omit [Executor ε] in
theorem written?_ask (x : Clientele Tape TapeClient ε) (client : Nat) (d : Demand) (j : Nat) :
    (x.ask client d).written? j = x.written? j := by
  rw [Clientele.written?, ask, Clientele.written?]
  rcases Nat.lt_trichotomy j x.errands.length with h | rfl | h
  · rw [List.getElem?_append_left h]
  · rw [List.getElem?_concat_length, List.getElem?_eq_none (Nat.le_refl _)]
    cases d <;> rfl
  · rw [List.getElem?_eq_none (Nat.le_of_lt h), List.getElem?_eq_none]
    rw [List.length_append]
    exact h

omit [Executor ε] in
theorem Sound.ask {start : Nat → Nat} (hx : x.Sound records start rs) (client : Nat) {d : Demand}
    (hd : d.Sound) : (x.ask client d).Sound records start rs := by
  have hw (i : Nat) : (x.ask client d).written? i = x.written? i := x.written?_ask client d i
  refine ⟨⟨hx.lines, hx.readable, ?_⟩, hx.grown, ?_, ?_, ?_, ?_, hx.hauls⟩
  · intro e he
    rcases List.mem_append.1 he with he | he
    · exact hx.demands e he
    · cases List.mem_singleton.1 he
      refine ⟨hd, ?_⟩
      rintro _ ⟨⟩
      exact d.suits_activity
  · intro j n hj
    rw [hw] at hj
    obtain ⟨hle, r, hr, hdemand⟩ := hx.stands hj
    obtain ⟨e, he, hed⟩ := Option.map_eq_some_iff.1 hdemand
    have hlt := (List.getElem?_eq_some_iff.1 he).1
    refine ⟨hle, r, hr, ?_⟩
    rw [demand?, Clientele.ask, List.getElem?_append_left hlt, he, Option.map_some, hed]
  · intro n hle hlt
    obtain ⟨j, hj⟩ := hx.owner hle hlt
    exact ⟨j, (hw j).trans hj⟩
  · intro i j n hi hj
    exact hx.apart ((hw i).symm.trans hi) ((hw j).symm.trans hj)
  · intro e id payload a he hdemand ha
    rcases List.mem_append.1 he with he | he
    · exact hx.replied he hdemand ha
    · cases List.mem_singleton.1 he
      cases ha

theorem Sound.meet {start : Nat → Nat} (hx : x.Sound records start rs) {e : TapeEvent}
    (he : e.Sound) : ∃ rs', rs <+: rs' ∧ (x.meet e).Sound records start rs' := by
  have hsame {y : Clientele Tape TapeClient ε} (hl : y.log.lines = x.log.lines)
      (hc : y.clients = x.clients) (he : y.errands = x.errands) (hh : y.history = x.history) :
      y.Sound records start rs := by
    cases x
    cases y
    cases hc
    cases he
    cases hh
    exact ⟨⟨hl.trans hx.lines, hx.readable, hx.demands⟩, hx.grown, hx.stands, hx.owner, hx.apart,
      hx.replied, hx.hauls⟩
  cases e with
  | ask client d => exact ⟨rs, List.prefix_rfl, hx.ask client he⟩
  | turn j => exact hx.turn j
  | clock now time => exact ⟨rs, List.prefix_rfl, hsame rfl rfl rfl rfl⟩
  | switch available =>
    refine ⟨rs, List.prefix_rfl, hsame ?_ rfl rfl rfl⟩
    cases available <;> rfl

theorem play_concat (x : Clientele Tape TapeClient ε) (es : List TapeEvent) (e : TapeEvent) :
    x.play (es ++ [e]) = (x.play es).meet e :=
  List.foldl_concat ..

theorem Sound.play {start : Nat → Nat} (hx : x.Sound records start rs) {es : List TapeEvent}
    (hs : ∀ e ∈ es, e.Sound) : ∃ rs', rs <+: rs' ∧ (x.play es).Sound records start rs' := by
  induction es generalizing x rs with
  | nil => exact ⟨rs, List.prefix_rfl, hx⟩
  | cons e es ih =>
    obtain ⟨rs₁, hr₁, hx₁⟩ := hx.meet (hs e (List.mem_cons_self ..))
    obtain ⟨rs₂, hr₂, hx₂⟩ := ih hx₁ fun e he => hs e (List.mem_cons_of_mem _ he)
    exact ⟨rs₂, hr₁.trans hr₂, hx₂⟩

omit [Executor ε] in
theorem opened_sound (hr : ∀ r ∈ records, r.Readable) (clients : List (Site Tape TapeClient ε)) :
    (opened records clients).Sound records
      (fun i => (((opened records clients).members[i]?).map TapeClient.cursor).getD 0) records := by
  refine ⟨⟨rfl, hr, ?_⟩, List.prefix_rfl, ?_, fun hle hlt => absurd hlt (Nat.not_lt.2 hle), ?_, ?_,
    fun hk => ?_⟩
  · rintro e ⟨⟩
  · rintro j n ⟨⟩
  · rintro i j n ⟨⟩
  · rintro e id payload a ⟨⟩
  · rw [hk]
    exact ⟨rfl, List.nil_prefix⟩

theorem Busy.meet_errand (hx : x.Busy rs) {ev : TapeEvent} {e' : Errand}
    (h : (x.meet ev).errands[j]? = some e') :
    x.errands[j]? = some e' ∨ (x.errands[j]? = none ∧ ∃ client d, e' = .ofDemand client d) ∨
      ∃ e k k' p, ev = .turn j ∧ x.Moves (x.turn j) j e k k' p ∧ e' = { e with progress := p } := by
  cases ev with
  | ask client d =>
    rw [Clientele.meet, Clientele.ask, List.getElem?_append] at h
    split at h
    · exact .inl h
    · next hlt =>
      exact .inr (.inl ⟨List.getElem?_eq_none (Nat.le_of_not_lt hlt), client, d,
        List.mem_singleton.1 (List.mem_of_getElem? h)⟩)
  | turn i =>
    rw [Clientele.meet] at h
    rcases x.turn_cases i with he | hs
    · exact .inl (he ▸ h)
    · obtain ⟨e, k, k', p, hm⟩ := hx.moves hs
      rw [hm.errands, List.getElem?_set] at h
      split at h
      · next hij =>
        subst hij
        rw [if_pos (List.getElem?_eq_some_iff.1 hm.errand).1] at h
        cases h
        exact .inr (.inr ⟨e, k, k', p, rfl, hm, rfl⟩)
      · exact .inl h
  | clock now time => exact .inl h
  | switch available => exact .inl h

theorem Busy.errands_meet (hx : x.Busy rs) (ev : TapeEvent) {e : Errand}
    (h : x.errands[j]? = some e) : ∃ e', (x.meet ev).errands[j]? = some e' := by
  have hlt := (List.getElem?_eq_some_iff.1 h).1
  have hle : x.errands.length ≤ (x.meet ev).errands.length := by
    cases ev with
    | ask client d =>
      rw [Clientele.meet, Clientele.ask, List.length_append]
      exact Nat.le_add_right ..
    | turn i =>
      rw [Clientele.meet]
      rcases x.turn_cases i with he | hs
      · rw [he]
      · obtain ⟨e, k, k', p, hm⟩ := hx.moves hs
        rw [hm.errands, List.length_set]
    | _ => exact Nat.le_refl _
  exact ⟨_, List.getElem?_eq_getElem (Nat.lt_of_lt_of_le hlt hle)⟩

theorem Busy.length_members_meet (hx : x.Busy rs) (ev : TapeEvent) :
    (x.meet ev).members.length = x.members.length := by
  cases ev with
  | turn i =>
    rcases x.turn_cases i with he | hs
    · rw [Clientele.meet, he]
    · obtain ⟨e, k, k', p, hm⟩ := hx.moves hs
      rw [Clientele.meet, hm.members, List.length_set]
  | _ => rfl

section

variable {start : Nat → Nat} {es : List TapeEvent} {ev : TapeEvent}

theorem Sound.before (hx : x.Sound records start rs) (hs : ∀ e ∈ es ++ [ev], e.Sound) :
    ∃ rs', (x.play es).Sound records start rs' := by
  obtain ⟨rs', -, h⟩ := hx.play fun e he => hs e (List.mem_append_left _ he)
  exact ⟨rs', h⟩

theorem Sound.length_members (hx : x.Sound records start rs) (hs : ∀ e ∈ es, e.Sound) :
    (x.play es).members.length = x.members.length := by
  induction es using List.reverseRecOn with
  | nil => rfl
  | append_singleton es ev ih =>
    obtain ⟨rs', hy⟩ := hx.before hs
    rw [play_concat, hy.length_members_meet]
    exact ih fun e he => hs e (List.mem_append_left _ he)

theorem Sound.turn_writes (hx : x.Sound records start rs) (hn : x.errands = [])
    (hs : ∀ e ∈ es, e.Sound) {n : Nat} (h : (x.play es).written? j = some n) :
    ∃ pre, pre ++ [TapeEvent.turn j] <+: es ∧ (x.play pre).log.lines.length = n ∧
      ((x.play pre).turn j).log.lines.length = n + 1 := by
  induction es using List.reverseRecOn with
  | nil =>
    rw [written?, Clientele.play, List.foldl_nil, hn] at h
    cases h
  | append_singleton es ev ih =>
    obtain ⟨rs', hy⟩ := hx.before hs
    have ih (h : (x.play es).written? j = some n) :
        ∃ pre, pre ++ [TapeEvent.turn j] <+: es ++ [ev] ∧ (x.play pre).log.lines.length = n ∧
          ((x.play pre).turn j).log.lines.length = n + 1 := by
      obtain ⟨pre, hp, hw⟩ := ih (fun e he => hs e (List.mem_append_left _ he)) h
      exact ⟨pre, hp.trans (List.prefix_append ..), hw⟩
    rw [play_concat] at h
    obtain ⟨e', he', hw'⟩ := Option.bind_eq_some_iff.1 h
    rcases hy.meet_errand he' with he | ⟨-, client, d, rfl⟩ | ⟨e, k, k', p, rfl, hm, rfl⟩
    · refine ih ?_
      rw [written?, he]
      exact hw'
    · cases d <;> cases hw'
    · rcases hm.turned.lines_cases with ⟨-, hw⟩ | ⟨id, payload, -, hl, -, hw⟩
      · refine ih ?_
        rw [written?, hm.errand, Option.bind_some, ← hw]
        exact hw'
      · cases hw.symm.trans hw'
        refine ⟨es, List.prefix_rfl, rfl, ?_⟩
        rw [hl, List.length_append]
        rfl

theorem Sound.turns_idle (hx : x.Sound records start rs) (hs : ∀ e ∈ es, e.Sound)
    (h : ∀ e, (x.play es).errands[j]? = some e → e.progress.isSealed = false)
    {pre : List TapeEvent} (hp : pre ++ [.turn j] <+: es) :
    ((x.play pre).turn j).log = (x.play pre).log ∧
      ((x.play pre).turn j).members = (x.play pre).members := by
  induction es using List.reverseRecOn with
  | nil => exact absurd (List.prefix_nil.1 hp) (List.append_ne_nil_of_right_ne_nil _ (by simp))
  | append_singleton es ev ih =>
    obtain ⟨rs', hy⟩ := hx.before hs
    rw [play_concat] at h
    rcases List.prefix_concat_iff.1 hp with he | hp
    · obtain ⟨rfl, hlast⟩ := List.append_inj' he rfl
      cases hlast
      rcases (x.play pre).turn_cases j with he | hturn
      · rw [he]
        exact ⟨rfl, rfl⟩
      · obtain ⟨e, k, k', p, hm⟩ := hy.toBusy.moves hturn
        have hlt := (List.getElem?_eq_some_iff.1 hm.errand).1
        have hopen := h { e with progress := p } (by
          rw [Clientele.meet, hm.errands, List.getElem?_set_self hlt])
        obtain ⟨hl, rfl, -⟩ := hm.turned.of_open hopen
        refine ⟨hl, ?_⟩
        obtain ⟨hc, hk⟩ := List.getElem?_eq_some_iff.1 hm.client
        rw [hm.members, ← hk]
        exact List.set_getElem_self hc
    · refine ih (fun e he => hs e (List.mem_append_left _ he)) (fun e he => ?_) hp
      obtain ⟨e', he'⟩ := hy.errands_meet ev he
      have hopen := h e' he'
      rcases hy.meet_errand he' with he₁ | ⟨hn, -⟩ | ⟨e₁, k, k', p, -, hm, rfl⟩
      · cases he.symm.trans he₁
        exact hopen
      · rw [hn] at he
        cases he
      · cases he.symm.trans hm.errand
        exact (hm.turned.of_open hopen).2.2.1

theorem Sound.turn_fails (hx : x.Sound records start rs) (hn : x.errands = [])
    (hs : ∀ e ∈ es, e.Sound) {e : Errand} {error : Error}
    (he : (x.play es).errands[j]? = some e) (hp : e.progress = .answered (.error error)) :
    ∃ pre k, pre ++ [TapeEvent.turn j] <+: es ∧ (x.play pre).members[e.client]? = some k ∧
      (x.play pre).log.check k = .error error := by
  induction es using List.reverseRecOn with
  | nil =>
    rw [Clientele.play, List.foldl_nil, hn] at he
    cases he
  | append_singleton es ev ih =>
    obtain ⟨rs', hy⟩ := hx.before hs
    rw [play_concat] at he
    rcases hy.meet_errand he with he | ⟨-, client, d, rfl⟩ | ⟨e, k, k', p, rfl, hm, rfl⟩
    · obtain ⟨pre, k, hpre, hk⟩ := ih (fun e he => hs e (List.mem_append_left _ he)) he
      exact ⟨pre, k, hpre.trans (List.prefix_append ..), hk⟩
    · cases hp
    · cases hp
      exact ⟨es, k, List.prefix_rfl, hm.client, (hm.turned.of_open rfl).2.2.2 error rfl⟩

end

/-- However the clients of a tape are used while it comes and goes: the records on it are those it
held at first and then one for each append, in the order of the writes, and an append returns how
many stood before its own. What a client reads between two calls that send it back to the beginning is
a run of these records without a gap, from the beginning or from where the client stood at first, each
with its offset; so of two clients that began at one offset, one has read what the other has, and
perhaps more. A call fails only because its client is closed or the tape out of reach, and leaves the
tape and all clients as they were in each of its turns. -/
theorem tape_gives_one_order (hr : ∀ r ∈ records, r.Readable)
    (clients : List (Site Tape TapeClient ε)) {es : List TapeEvent} (hs : ∀ e ∈ es, e.Sound)
    (hx : x = opened records clients) :
    ∃ rs : List Record, records <+: rs ∧ (x.play es).log.lines = rs.map Record.line ∧
      (∀ j e id payload a, (x.play es).errands[j]? = some e → e.demand = .append id payload →
        e.progress = .answered (.ok a) →
          ∃ n r pre, a = .appended n ∧ rs[n]? = some r ∧ r.id = id ∧ r.payload = payload ∧
            pre ++ [TapeEvent.turn j] <+: es ∧ (x.play pre).log.lines.length = n ∧
            ((x.play pre).turn j).log.lines.length = n + 1) ∧
      (∀ n, records.length ≤ n → n < rs.length → ∃! j, (x.play es).written? j = some n) ∧
      (∀ i k, x.members[i]? = some k → ∃ k', (x.play es).members[i]? = some k' ∧
        ((x.play es).haul i k.cursor).Fills rs k'.cursor) ∧
      (∀ i i' k k', x.members[i]? = some k → x.members[i']? = some k' →
        ((x.play es).haul i k.cursor).start = ((x.play es).haul i' k'.cursor).start →
          ((x.play es).haul i k.cursor).commands <+: ((x.play es).haul i' k'.cursor).commands ∨
            ((x.play es).haul i' k'.cursor).commands <+:
              ((x.play es).haul i k.cursor).commands) ∧
      ∀ j e error, (x.play es).errands[j]? = some e → e.progress = .answered (.error error) →
        (∃ pre k, pre ++ [TapeEvent.turn j] <+: es ∧ (x.play pre).members[e.client]? = some k ∧
          (x.play pre).log.check k = .error error) ∧
        ∀ pre, pre ++ [TapeEvent.turn j] <+: es →
          ((x.play pre).turn j).log = (x.play pre).log ∧
            ((x.play pre).turn j).members = (x.play pre).members := by
  have hn : x.errands = [] := by rw [hx]; rfl
  have hstart : x.Sound records _ records := hx ▸ opened_sound hr clients
  obtain ⟨rs, -, hy⟩ := hstart.play hs
  have hlen := hstart.length_members hs
  have hfills {i : Nat} {k : TapeClient} (hk : x.members[i]? = some k) :
      ∃ k', (x.play es).members[i]? = some k' ∧
        ((x.play es).haul i k.cursor).Fills rs k'.cursor := by
    have hlt := (List.getElem?_eq_some_iff.1 hk).1
    refine ⟨_, List.getElem?_eq_getElem (hlen ▸ hlt), ?_⟩
    have hf := hy.hauls (List.getElem?_eq_getElem (hlen ▸ hlt))
    rwa [hk] at hf
  refine ⟨rs, hy.grown, hy.lines, ?_, ?_, fun i k => hfills, ?_, ?_⟩
  · intro j e id payload a he hd ha
    obtain ⟨n, rfl⟩ := hy.replied (List.mem_of_getElem? he) hd ha
    have hw : (x.play es).written? j = some n := by
      rw [written?, he, Option.bind_some, ha]
      rfl
    obtain ⟨-, r, hr, hdemand⟩ := hy.stands hw
    rw [demand?, he, Option.map_some, hd] at hdemand
    cases hdemand
    obtain ⟨pre, hp, hlines⟩ := hstart.turn_writes hn hs hw
    exact ⟨n, r, pre, rfl, hr, rfl, rfl, hp, hlines⟩
  · intro n hle hlt
    obtain ⟨j, hj⟩ := hy.owner hle hlt
    exact ⟨j, hj, fun i hi => hy.apart hi hj⟩
  · intro i i' k k' hk hk' he
    obtain ⟨_, -, hf⟩ := hfills hk
    obtain ⟨_, -, hf'⟩ := hfills hk'
    have hc := hf'.commands
    rw [← he] at hc
    exact List.prefix_or_prefix_of_prefix hf.commands hc
  · intro j e error he hp
    refine ⟨hstart.turn_fails hn hs he hp, fun pre hpre => ?_⟩
    refine hstart.turns_idle hs (fun e' he' => ?_) hpre
    cases he.symm.trans he'
    rw [hp]
    rfl

def pair : List (Site Tape TapeClient Script) :=
  List.replicate 2 (Lifetime.onTape [] {} {})

def switching : List TapeEvent :=
  [TapeEvent.ask 0 (.append Twin.creation.id Twin.creation.payload), .turn 0, .switch false,
    .ask 1 (.append Twin.deletion.id Twin.deletion.payload), .turn 1, .turn 0, .switch true,
    .ask 1 (.append Twin.deletion.id Twin.deletion.payload), .turn 2, .turn 2,
    .ask 0 (.poll 0), .ask 1 (.poll 0)] ++
  (List.replicate 5 [TapeEvent.turn 3, .turn 4]).flatten

set_option maxRecDepth 10000 in
theorem tape_gives_one_order_switching :
    (∀ pre, pre ++ [.turn 1] <+: switching →
      (((opened [] pair).play pre).turn 1).log = ((opened [] pair).play pre).log) ∧
    ∀ i < 2, (((opened [] pair).play switching).haul i 0).commands =
      [Twin.creation.command 0, Twin.deletion.command 1] := by
  have hrun : ((opened [] pair).play switching).reply? 0 = some (.ok (.appended 0)) ∧
      ((opened [] pair).play switching).reply? 1 =
        some (.error (.logUnavailable .unreachable)) ∧
      ((opened [] pair).play switching).reply? 2 = some (.ok (.appended 1)) ∧
      ((opened [] pair).play switching).log.lines.length = 2 ∧
      ((opened [] pair).play switching).members = [⟨2, false⟩, ⟨2, false⟩] ∧
      (((opened [] pair).play switching).haul 0 0).start = 0 ∧
      (((opened [] pair).play switching).haul 1 0).start = 0 ∧
      ((opened [] pair).play switching).demand? 0 =
        some (.append Twin.creation.id Twin.creation.payload) ∧
      ((opened [] pair).play switching).demand? 2 =
        some (.append Twin.deletion.id Twin.deletion.payload) := by
    decide +kernel
  obtain ⟨hfirst, hrefused, hsecond, hsize, hmembers, hstart, hstart', hcreation, hdeletion⟩ := hrun
  obtain ⟨e, he, hfirst⟩ := answered_of_reply? hfirst
  obtain ⟨e', he', hsecond⟩ := answered_of_reply? hsecond
  obtain ⟨f, hf, hrefused⟩ := answered_of_reply? hrefused
  rw [demand?, he, Option.map_some, Option.some.injEq] at hcreation
  rw [demand?, he', Option.map_some, Option.some.injEq] at hdeletion
  have hreadable : ∀ r ∈ ([] : List Record), r.Readable := by simp
  have hsound : ∀ e ∈ switching, e.Sound := by decide
  obtain ⟨rs, -, hlines, happend, -, hhaul, -, hfail⟩ :=
    tape_gives_one_order hreadable pair hsound rfl
  obtain ⟨_, r, -, hn, hr, hid, hpayload, -⟩ := happend 0 e _ _ _ he hcreation hfirst
  cases hn
  obtain ⟨_, r', -, hn, hr', hid', hpayload', -⟩ := happend 2 e' _ _ _ he' hdeletion hsecond
  cases hn
  have hall : Record.commandsFrom 0 rs = [Twin.creation.command 0, Twin.deletion.command 1] := by
    rw [hlines, List.length_map] at hsize
    obtain ⟨r₀, r₁, rfl⟩ := List.length_eq_two.1 hsize
    cases hr
    cases hr'
    simp only [Record.commandsFrom, List.zipIdx_cons, List.zipIdx_nil, List.map_cons, List.map_nil,
      Record.command, hid, hpayload, hid', hpayload']
  have hclient (i : Nat) (hk : (opened [] pair).members[i]? = some {})
      (hk' : ((opened [] pair).play switching).members[i]? = some ⟨2, false⟩)
      (hs : (((opened [] pair).play switching).haul i 0).start = 0) :
      (((opened [] pair).play switching).haul i 0).commands =
        [Twin.creation.command 0, Twin.deletion.command 1] := by
    obtain ⟨k, hmember, hfills⟩ := hhaul i {} hk
    cases hk'.symm.trans hmember
    have hc := hfills.commands
    have hlen := hfills.cursor
    rw [hs, List.drop_zero, hall] at hc
    rw [hs, Nat.zero_add] at hlen
    exact hc.eq_of_length hlen
  refine ⟨fun pre hp => ((hfail 1 f _ hf hrefused).2 pre hp).1, fun i hi => ?_⟩
  obtain rfl | rfl : i = 0 ∨ i = 1 := by omega
  · exact hclient 0 rfl (by rw [hmembers]; rfl) hstart
  · exact hclient 1 rfl (by rw [hmembers]; rfl) hstart'

end Clientele

end StatementLog
