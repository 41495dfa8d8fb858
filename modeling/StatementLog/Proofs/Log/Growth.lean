import Mathlib.Logic.Relation
import StatementLog.Proofs.Log.Tally

namespace StatementLog

namespace Lines

theorem complete_append (octets more : List UInt8) :
    complete (octets ++ more) = complete octets ++ complete (tail octets ++ more) := by
  obtain ⟨hf, -, ht, hc⟩ := front_spec octets
  calc complete (octets ++ more)
      = complete (front octets ++ (tail octets ++ more)) := by rw [← List.append_assoc, ← hf]
    _ = complete octets ++ complete (tail octets ++ more) := by rw [(split_append ht _).1, hc]

theorem completeLength_append {octets : List UInt8} (h : tail octets = []) (more : List UInt8) :
    completeLength (octets ++ more) = octets.length + completeLength more := by
  obtain ⟨hf, hlength, -, -⟩ := front_spec more
  have hl := congrArg List.length hf
  rw [List.length_append, hlength] at hl
  rw [completeLength, (split_append h more).2, List.length_append]
  omega

theorem Legible.of_prefix {octets octets' : List UInt8} (h : Legible (complete octets'))
    (hp : octets <+: octets') : Legible (complete octets) := by
  obtain ⟨more, rfl⟩ := hp
  intro line hl
  exact h line (complete_append octets more ▸ List.mem_append_left _ hl)

def isBlank (line : List UInt8) : Bool :=
  decide (kind line = .blank)

def Delivers (line : List UInt8) (c : Command) : Prop :=
  ∃ cs, Text.Utf8.decode line = .ok cs ∧ Record.decode cs c.offset = .ok c

theorem delivers_of_kind {line : List UInt8} {r : Record} (h : kind line = .record r) (n : Nat) :
    Delivers line (r.command n) := by
  unfold kind at h
  split at h
  · cases h
  next cs hcs =>
  split at h
  · cases h
  split at h
  next hr =>
    cases h
    refine ⟨cs, hcs, ?_⟩
    rw [Record.decode, hr]
    rfl
  · cases h

theorem delivers_all {lines : List (List UInt8)} (h : Legible lines) (n : Nat) :
    List.Forall₂ Delivers (lines.filter (!isBlank ·)) (Record.commandsFrom n (records lines)) := by
  induction lines generalizing n with
  | nil => exact .nil
  | cons line lines ih =>
    rw [records_cons]
    cases hk : kind line with
    | garbled => exact absurd hk (h line List.mem_cons_self)
    | blank =>
      rw [List.filter_cons_of_neg (by simp [isBlank, hk])]
      exact ih h.tail n
    | record r =>
      rw [List.filter_cons_of_pos (by simp [isBlank, hk])]
      have hrest := ih h.tail (n + 1)
      exact .cons (delivers_of_kind hk n) hrest

end Lines

theorem Record.offset_commandsFrom (n : Nat) (rs : List Record) :
    (Record.commandsFrom n rs).map Command.offset = List.range' n rs.length := by
  induction rs generalizing n with
  | nil => rfl
  | cons r rs ih =>
    rw [List.length_cons, List.range'_succ, ← ih]
    rfl

theorem Record.commandsFrom_of_prefix {known content : List UInt8} (h : known <+: content) :
    Record.commandsFrom 0 (Lines.stored content) = Record.commandsFrom 0 (Lines.stored known) ++
      (Record.commandsFrom 0 (Lines.stored content)).drop (Lines.stored known).length := by
  obtain ⟨more, rfl⟩ := h
  have hs : Lines.stored (known ++ more) = Lines.stored known ++
      Lines.records (Lines.complete (Lines.tail known ++ more)) := by
    rw [Lines.stored, Lines.complete_append, Lines.records_append]
    rfl
  rw [hs, Record.commandsFrom_append, List.drop_left' (Record.length_commandsFrom 0 _)]

def Disk.Shows (d : Disk) (c : FileClient) (content : List UInt8) : Prop :=
  ∃ found, d.entries.content? (d.handleOf c).place = .ok found ∧ found.getD [] = content

namespace FileClient

variable (handle : Nat) {content content' : List UInt8}

theorem stands_of_prefix (h : content <+: content') :
    (({ handle } : FileClient).through content).Stands content' :=
  stands_of_front handle ((List.take_prefix ..).trans h)

theorem through_through (h : content <+: content') :
    (({ handle } : FileClient).through content).through content' =
      ({ handle } : FileClient).through content' := by
  have hoctets : (({ handle } : FileClient).through content).octets +
      Lines.completeLength (content'.drop (({ handle } : FileClient).through content).octets) =
        0 + Lines.completeLength content' := by
    obtain ⟨more, rfl⟩ := h
    obtain ⟨hf, -, ht, -⟩ := Lines.front_spec content
    have hsplit : content ++ more = Lines.front content ++ (Lines.tail content ++ more) := by
      rw [← List.append_assoc, ← hf]
    rw [octets_through, hsplit, List.drop_left, Lines.completeLength_append ht, Nat.zero_add]
  rw [through, hoctets]
  rfl

theorem read_grown {d : Disk} (hd : d.Shows { handle } content') (h : content <+: content')
    (hl : Lines.Legible (Lines.complete content')) :
    d.read (({ handle } : FileClient).through content) =
      (.ok ((Record.commandsFrom 0 (Lines.stored content')).drop (Lines.stored content).length),
        ({ handle } : FileClient).through content') := by
  obtain ⟨found, hfound, rfl⟩ := hd
  have hs := stands_of_prefix handle h
  rw [← through_through handle h]
  cases found with
  | some content' =>
    simp only [Option.getD_some] at h hl hs ⊢
    exact hs.read hfound (hs.legible_drop hl)
  | none =>
    obtain rfl := List.prefix_nil.1 h
    have hfound : d.entries.content? (d.handleOf (({ handle } : FileClient).through [])).place =
        .ok none := hfound
    rw [Disk.read, hfound]
    rfl

end FileClient

variable {ε : Type}

theorem Disk.Shows.congr {d : Disk} {c c' : FileClient} {content : List UInt8}
    (h : d.Shows c content) (hc : c'.handle = c.handle) : d.Shows c' content := by
  rw [Shows, handleOf, hc]
  exact h

theorem Disk.Shows.unique {d : Disk} {c : FileClient} {content content' : List UInt8}
    (h : d.Shows c content) (h' : d.Shows c content') : content = content' := by
  obtain ⟨found, hf, rfl⟩ := h
  obtain ⟨found', hf', rfl⟩ := h'
  cases hf.symm.trans hf'
  rfl

theorem Disk.handle_read (d : Disk) (c : FileClient) : (d.read c).2.handle = c.handle := by
  rcases d.read_cases c with ⟨e, h⟩ | ⟨-, octets, h⟩ | ⟨line, rest, -, -, h⟩ <;> rw [h]

namespace Polling

def look (s : Site Disk FileClient ε) : Polling → List (List UInt8)
  | reading _ _ =>
    let found := s.log.entries.content? (s.log.handleOf s.node.client).place
    [found.toOption.join.getD []]
  | _ => []

def gain (s : Site Disk FileClient ε) :
    Polling → Except Error (List Command) × FileClient
  | checking _ _ => (s.check.map fun _ => [], s.node.client)
  | reading _ _ => s.log.read s.node.client
  | _ => (.ok [], s.node.client)

def Takes (s : Site Disk FileClient ε) (gain : Except Error (List Command) × FileClient) :
    Move (Site Disk FileClient ε) Polling (Except Error (List Command)) → Prop
  | .wait => True
  | .next s' _ => s'.log = s.log ∧ s'.node.client = gain.2 ∧ gain.1 = .ok []
  | .done s' result => s'.log = s.log ∧ s'.node.client = gain.2 ∧ result = gain.1

theorem step_takes (s : Site Disk FileClient ε) (stage : Polling) (task : Nat) :
    Takes s (stage.gain s) (stage.step task s) := by
  cases stage with
  | arriving timeout => exact ⟨rfl, rfl, rfl⟩
  | queued timeout =>
    rw [step]
    split
    · exact ⟨rfl, rfl, rfl⟩
    · trivial
  | enlisting deadline => exact ⟨rfl, rfl, rfl⟩
  | checking deadline epoch =>
    rw [step, gain]
    cases s.check with
    | error e => exact ⟨rfl, rfl, rfl⟩
    | ok _ => exact ⟨rfl, rfl, rfl⟩
  | reading deadline epoch =>
    have hgain : (reading deadline epoch).gain s = CommandLog.read s.log s.node.client := rfl
    rw [hgain, step]
    split
    · next h => exact ⟨rfl, by rw [h]; rfl, by rw [h]⟩
    · next h =>
      rw [h]
      simp only [CommandLog.patience]
      split
      · exact ⟨rfl, rfl, rfl⟩
      · exact ⟨rfl, rfl, rfl⟩
    · next h => exact ⟨rfl, by rw [h]; rfl, by rw [h]⟩
  | waiting deadline epoch look =>
    simp only [step]
    split
    · exact ⟨rfl, rfl, rfl⟩
    · split
      · split
        · exact ⟨rfl, rfl, rfl⟩
        · trivial
      · split
        · exact ⟨rfl, rfl, rfl⟩
        · trivial

theorem handle_gain (s : Site Disk FileClient ε) (stage : Polling) :
    (stage.gain s).2.handle = s.node.client.handle := by
  cases stage with
  | reading deadline epoch => exact s.log.handle_read s.node.client
  | _ => rfl

theorem look_cases (s : Site Disk FileClient ε) (stage : Polling) :
    stage.look s = [] ∨ ∃ deadline epoch, stage = reading deadline epoch := by
  cases stage with
  | reading deadline epoch => exact .inr ⟨deadline, epoch, rfl⟩
  | _ => exact .inl rfl

theorem gain_of_open {s : Site Disk FileClient ε} {stage : Polling}
    (h : s.node.client.closed = false) (hl : stage.look s = []) :
    stage.gain s = (.ok [], s.node.client) := by
  cases stage with
  | checking deadline epoch =>
    have hcheck : s.check = .ok () := s.log.check_open h
    rw [gain, hcheck]
    rfl
  | reading deadline epoch => cases hl
  | _ => rfl

end Polling

/-- The polls of a client, one after the other or beside each other. -/
structure Perusal (ε : Type) where
  site : Site Disk FileClient ε
  polls : List (Option Polling) := []
  looks : List (List UInt8) := []
  results : List (Except Error (List Command)) := []

namespace Perusal

def poll? (x : Perusal ε) (i : Nat) : Option (Perusal ε) :=
  match x.polls[i]?.join with
  | none => none
  | some stage =>
    match stage.step i x.site with
    | .wait => none
    | .next site stage' => some { x with
        site
        polls := x.polls.set i (some stage')
        looks := x.looks ++ stage.look x.site }
    | .done site result => some {
        site
        polls := x.polls.set i none
        looks := x.looks ++ stage.look x.site
        results := x.results ++ [result] }

inductive Step (x : Perusal ε) : Perusal ε → Prop where
  | begin (timeout : Nat) : Step x { x with polls := x.polls ++ [some (.arriving timeout)] }
  | poll {y : Perusal ε} (i : Nat) : x.poll? i = some y → Step x y
  | grow {s : Site Disk FileClient ε} {content more : List UInt8} :
      s.node.client = x.site.node.client → x.site.log.Shows x.site.node.client content →
      s.log.Shows s.node.client (content ++ more) → Step x { x with site := s }

def Reaches : Perusal ε → Perusal ε → Prop :=
  Relation.ReflTransGen Step

def known (x : Perusal ε) : List UInt8 :=
  x.looks.getLast?.getD []

structure Reads (handle : Nat) (x : Perusal ε) : Prop where
  client : x.site.node.client = ({ handle } : FileClient).through x.known
  results : ∃ batches : List (List Command), x.results = batches.map .ok ∧
    batches.flatten = Record.commandsFrom 0 (Lines.stored x.known)

structure Sound (handle : Nat) (x : Perusal ε) : Prop where
  same : x.site.node.client.handle = handle
  shows : ∃ content, x.known <+: content ∧ x.site.log.Shows { handle } content
  reads : Lines.Legible (Lines.complete x.known) → x.Reads handle

variable {handle : Nat} {x y : Perusal ε}

theorem poll?_cases {i : Nat} (h : x.poll? i = some y) : ∃ stage : Polling,
    y.looks = x.looks ++ stage.look x.site ∧ y.site.log = x.site.log ∧
      y.site.node.client = (stage.gain x.site).2 ∧
      (y.results = x.results ∧ (stage.gain x.site).1 = .ok [] ∨
        y.results = x.results ++ [(stage.gain x.site).1]) := by
  unfold poll? at h
  split at h
  · cases h
  next stage _ =>
  have ht := stage.step_takes x.site i
  refine ⟨stage, ?_⟩
  split at h
  · cases h
  · next site stage' hs =>
    rw [hs] at ht
    obtain ⟨hlog, hclient, hnone⟩ := ht
    cases h
    exact ⟨rfl, hlog, hclient, .inl ⟨rfl, hnone⟩⟩
  · next site result hs =>
    rw [hs] at ht
    obtain ⟨hlog, hclient, rfl⟩ := ht
    cases h
    exact ⟨rfl, hlog, hclient, .inr rfl⟩

theorem Reads.take {content : List UInt8} {batch : List Command} (h : x.Reads handle)
    (hp : x.known <+: content) (hknown : y.known = content)
    (hclient : y.site.node.client = ({ handle } : FileClient).through content)
    (hbatch : batch =
      (Record.commandsFrom 0 (Lines.stored content)).drop (Lines.stored x.known).length)
    (hresults : y.results = x.results ∧ batch = [] ∨ y.results = x.results ++ [.ok batch]) :
    y.Reads handle := by
  obtain ⟨-, batches, hx, hflat⟩ := h
  have hall := Record.commandsFrom_of_prefix hp
  rw [← hbatch, ← hflat] at hall
  refine ⟨hknown ▸ hclient, ?_⟩
  rw [hknown, hall]
  rcases hresults with ⟨hy, hnone⟩ | hy
  · refine ⟨batches, hy.trans hx, ?_⟩
    rw [hnone, List.append_nil]
  · refine ⟨batches ++ [batch], ?_, ?_⟩
    · rw [hy, hx, List.map_append]
      rfl
    · rw [List.flatten_append, List.flatten_singleton]

theorem Sound.poll {i : Nat} (h : x.Sound handle) (hy : x.poll? i = some y) : y.Sound handle := by
  obtain ⟨stage, hlooks, hlog, hclient, hresults⟩ := poll?_cases hy
  obtain ⟨content, hp, hshows⟩ := h.shows
  have hhandle : y.site.node.client.handle = handle := by
    rw [hclient, stage.handle_gain, h.same]
  rcases stage.look_cases x.site with hlook | ⟨deadline, epoch, rfl⟩
  · have hknown : y.known = x.known := by
      rw [known, known, hlooks, hlook, List.append_nil]
    refine ⟨hhandle, ⟨content, hknown ▸ hp, hlog ▸ hshows⟩, fun hl => ?_⟩
    rw [hknown] at hl
    have hx := h.reads hl
    have hgain : stage.gain x.site = (.ok [], x.site.node.client) :=
      Polling.gain_of_open (by rw [hx.client]; rfl) hlook
    rw [hgain] at hclient hresults
    refine hx.take (List.prefix_refl _) hknown (hclient.trans hx.client) ?_
      (hresults.imp_left fun hy => ⟨hy.1, rfl⟩)
    rw [← Record.length_commandsFrom 0, List.drop_length]
  · have hknown : y.known = content := by
      have hx : x.site.log.Shows x.site.node.client content := hshows.congr h.same
      obtain ⟨found, hfound, rfl⟩ := hx
      rw [known, hlooks, Polling.look, List.getLast?_concat, Option.getD_some, hfound]
      rfl
    refine ⟨hhandle, ⟨content, hknown ▸ List.prefix_refl _, hlog ▸ hshows⟩, fun hl => ?_⟩
    rw [hknown] at hl
    have hx := h.reads (hl.of_prefix hp)
    have hread := FileClient.read_grown handle hshows hp hl
    rw [← hx.client] at hread
    rw [Polling.gain, hread] at hclient hresults
    exact hx.take hp hknown hclient rfl (hresults.imp_left fun hy => ⟨hy.1, Except.ok.inj hy.2⟩)

theorem Sound.step (h : x.Sound handle) (hy : x.Step y) : y.Sound handle := by
  cases hy with
  | begin timeout => exact ⟨h.same, h.shows, fun hl => ⟨(h.reads hl).client, (h.reads hl).results⟩⟩
  | poll i hy => exact h.poll hy
  | @grow s content more hclient hx hs =>
    obtain ⟨content', hp, hshows⟩ := h.shows
    have hsame : x.site.log.Shows x.site.node.client content' := hshows.congr h.same
    obtain rfl := hsame.unique hx
    have hhandle : s.node.client.handle = handle := by rw [hclient, h.same]
    refine ⟨hhandle, ⟨_, hp.trans (List.prefix_append ..), hs.congr hhandle.symm⟩, fun hl => ?_⟩
    exact ⟨hclient.trans (h.reads hl).client, (h.reads hl).results⟩

theorem Sound.reaches (h : x.Sound handle) (hy : Reaches x y) : y.Sound handle := by
  induction hy with
  | refl => exact h
  | tail _ hstep ih => exact ih.step hstep

theorem fresh_sound {s : Site Disk FileClient ε} {content : List UInt8}
    (hs : s.node.client = { handle }) (hshows : s.log.Shows { handle } content) :
    Sound handle { site := s } where
  same := by rw [hs]
  shows := ⟨content, List.nil_prefix, hshows⟩
  reads _ := ⟨hs, [], rfl, rfl⟩

/-- Polls of a file that grows hand out what one poll of the last of it would: each line that is
complete and not blank, once, in order and at the offset that counts those before it. Nor can it be
told from the client how the file has come to be what it is. -/
theorem growth_is_immaterial {s : Site Disk FileClient ε} {start content : List UInt8}
    {x : Perusal ε} (hs : s.node.client = { handle }) (hstart : s.log.Shows { handle } start)
    (hx : Reaches { site := s } x) (hlast : x.looks.getLast? = some content)
    (hl : Lines.Legible (Lines.complete content)) :
    ∃ batches : List (List Command), x.results = batches.map .ok ∧
      (∀ d : Disk, d.Shows { handle } content → LogCall.poll.perform d ({ handle } : FileClient) =
        (.ok (.batch batches.flatten), d, x.site.node.client)) ∧
      List.Forall₂ Lines.Delivers ((Lines.complete content).filter (!Lines.isBlank ·))
        batches.flatten ∧
      batches.flatten.map Command.offset = List.range batches.flatten.length := by
  have hknown : x.known = content := by rw [known, hlast, Option.getD_some]
  obtain ⟨hclient, batches, hresults, hflat⟩ :=
    ((fresh_sound hs hstart).reaches hx).reads (hknown ▸ hl)
  rw [hknown] at hclient hflat
  refine ⟨batches, hresults, fun d hd => ?_, ?_, ?_⟩
  · have hread : CommandLog.read d ({ handle } : FileClient) = _ :=
      FileClient.read_grown handle hd List.nil_prefix hl
    have hcheck : CommandLog.check d ({ handle } : FileClient) = .ok () := d.check_open rfl
    rw [LogCall.perform, hcheck, hread, hflat, hclient]
    rfl
  · rw [hflat]
    exact Lines.delivers_all hl 0
  · rw [hflat, Record.offset_commandsFrom, Record.length_commandsFrom, List.range_eq_range']

def run? (i : Nat) : Nat → Perusal ε → Option (Perusal ε)
  | 0, x => some x
  | n + 1, x => (x.poll? i).bind (run? i n)

theorem run?_reaches {i n : Nat} (h : run? i n x = some y) : Reaches x y := by
  induction n generalizing x with
  | zero =>
    cases h
    exact .refl
  | succ n ih =>
    obtain ⟨z, hz, hy⟩ := Option.bind_eq_some_iff.1 h
    exact .head (.poll i hz) (ih hy)

def accented : List UInt8 :=
  Lines.written [Disk.sample] ++ Lines.lineFeed :: Lines.written
    [⟨⟨.stream, "B", .create⟩, { statement := "CREATE STREAM B (É INT);" }, 0⟩] ++ [123, 34]

def torn : Site Disk FileClient Unit where
  now := 0
  origin := 0
  log := Disk.holding (accented.take 209)
  broker := {}
  tracker := .ofCapacity 1
  executor := ()
  node := .ofConfig {} { handle := 0 } 0 0

def arrived (x : Perusal ε) : Perusal ε :=
  { x with polls := x.polls ++ [some (.arriving 0)] }

def mended (x : Perusal ε) : Perusal ε :=
  { x with site := { x.site with log := Disk.holding accented } }

theorem shows_holding {c : FileClient} (h : c.handle = 0) (content : List UInt8) :
    (Disk.holding content).Shows c content := by
  refine ⟨some content, Disk.Lodges.content? ?_, rfl⟩
  rw [h]
  exact Disk.holding_lodges content

set_option maxRecDepth 10000 in
theorem growth_is_immaterial_torn : ∃ x : Perusal Unit, Reaches { site := torn } x ∧
    x.looks = [accented.take 209, accented] ∧
    ∃ first second : List Command, x.results = [.ok first, .ok second] ∧
      LogCall.poll.perform (Disk.holding accented) ({ handle := 0 } : FileClient) =
        (.ok (.batch (first ++ second)), Disk.holding accented, x.site.node.client) := by
  have hrun : ((run? 0 5 (arrived { site := torn })).bind fun y =>
      (run? 1 5 (arrived (mended y))).map fun z => decide (
        y.site.log = Disk.holding (accented.take 209) ∧ y.site.node.client.handle = 0 ∧
        z.looks = [accented.take 209, accented] ∧ z.results.length = 2)) = some true := by
    decide +kernel
  obtain ⟨y, hy, hrun⟩ := Option.bind_eq_some_iff.1 hrun
  obtain ⟨z, hz, hrun⟩ := Option.map_eq_some_iff.1 hrun
  obtain ⟨hlog, hhandle, hlooks, hlength⟩ := of_decide_eq_true hrun
  have hgrow : Step y (mended y) := by
    have hbefore : y.site.log.Shows y.site.node.client (accented.take 209) := by
      rw [hlog]
      exact shows_holding hhandle _
    have hafter : (Disk.holding accented).Shows y.site.node.client
        (accented.take 209 ++ accented.drop 209) := by
      rw [List.take_append_drop]
      exact shows_holding hhandle accented
    exact .grow rfl hbefore hafter
  have hz : Reaches { site := torn } z :=
    .head (.begin 0) ((run?_reaches hy).trans (.head hgrow (.head (.begin 0) (run?_reaches hz))))
  have hlast : z.looks.getLast? = some accented := by
    rw [hlooks]
    rfl
  obtain ⟨batches, hresults, hfresh, -⟩ := growth_is_immaterial rfl (shows_holding rfl _) hz hlast
    (by decide +kernel)
  refine ⟨z, hz, hlooks, ?_⟩
  rw [hresults, List.length_map] at hlength
  obtain ⟨first, second, rfl⟩ := List.length_eq_two.1 hlength
  refine ⟨first, second, hresults, ?_⟩
  rw [hfresh _ (shows_holding rfl _)]
  simp

end Perusal

end StatementLog
