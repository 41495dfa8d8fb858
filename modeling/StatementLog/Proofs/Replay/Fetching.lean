import StatementLog.Proofs.Log.Tally
import StatementLog.Proofs.Replay.Progress

namespace StatementLog

variable {ε : Type}

structure FileClient.Keeps (c : FileClient) (content : List UInt8) : Prop
    extends c.Stands content where
  position : c.position = c.offset

structure Site.Seeks (s : Site Disk FileClient ε) (content : List UInt8) : Prop where
  lodged : s.log.Lodges s.node.client.handle content
  opened : s.node.client.closed = false
  stop : s.node.runner.stopRequested = false

/-- A runner on a log that has just been opened has that log for itself. -/
theorem Site.seeks_of_open? {d d' : Disk} {c : FileClient} {path : String}
    (h : d.open? path = (.ok c, d')) {s : Site Disk FileClient ε} (hlog : s.log = d')
    (hclient : s.node.client = c) (hstop : s.node.runner.stopRequested = false) :
    ∃ content, d'.octets? path = some content ∧ s.Seeks content := by
  obtain ⟨content, hc, hlodged, hoctets⟩ := Disk.Lodges.open? h
  refine ⟨content, hoctets, ?_, ?_, hstop⟩
  · rw [hlog, hclient]
    exact hlodged
  · rw [hclient, hc]

structure Site.Fetches (s : Site Disk FileClient ε) (content : List UInt8) : Prop
    extends s.Seeks content where
  keeps : s.node.client.Keeps content
  short : s.node.client.position < Lines.ending content

def Polling.Seeks (content : List UInt8) (task : Nat) (turns : List Nat) : Polling → Prop
  | arriving _ => turns = []
  | waiting _ _ _ => turns = [task] ∧ Lines.strays content ≠ 0
  | _ => turns = [task]

def Polling.Fetches (content : List UInt8) (task : Nat) (s : Site Disk FileClient ε)
    (stage : Polling) : Move (Site Disk FileClient ε) Polling (Except Error (List Command)) → Prop
  | .wait => Lines.strays content ≠ 0
  | .next s' stage' => s'.Fetches content ∧ stage'.Seeks content task s'.node.turns ∧
      (Lines.strays content = 0 → s'.node.client = s.node.client ∧ stage'.rank < stage.rank)
  | .done s' r => ∃ batch, r = .ok batch ∧ s'.Seeks content ∧ s'.node.client.Keeps content ∧
      s'.node.turns = [] ∧
        (Lines.strays content = 0 → s.node.client.position < s'.node.client.position)

def Replaying.Seeks (content : List UInt8) (task : Nat) (n : Node FileClient) : Replaying → Prop
  | starting | rewinding .arriving => n.turns = []
  | rewinding .queued => n.turns = [task]
  | measuring => n.turns = [] ∧ n.client.Keeps content
  | fetching limit _ => limit = Lines.ending content ∧ n.turns = [] ∧ n.client.Keeps content
  | polling limit _ stage => limit = Lines.ending content ∧ stage.Seeks content task n.turns ∧
      n.client.Keeps content ∧ n.client.position < Lines.ending content
  | _ => False

def Replaying.ahead (content : List UInt8) (position : Nat) : Replaying → Nat
  | fetching limit backlog => rank (fetching limit backlog) +
      50 * ((Lines.stored content).length - position)
  | polling limit backlog stage => rank (polling limit backlog stage) +
      50 * ((Lines.stored content).length - position)
  | stage => rank stage + 50 * ((Lines.stored content).length + 1)

def Replaying.Fetches (content : List UInt8) (task : Nat) (s : Site Disk FileClient ε)
    (stage : Replaying) :
    Move (Site Disk FileClient ε) Replaying (Except Error ReplayOutcome) → Prop
  | .wait => Lines.strays content ≠ 0
  | .next s' stage' =>
    (s'.Seeks content ∧ stage'.Seeks content task s'.node ∧ (Lines.strays content = 0 →
      stage'.ahead content s'.node.client.position < stage.ahead content s.node.client.position)) ∨
    (Lines.strays content = 0 ∧ ∃ limit backlog, stage' = sorting limit backlog)
  | .done _ _ => False

section

variable {s : Site Disk FileClient ε} {content : List UInt8} {task : Nat}

theorem Site.Seeks.check (h : s.Seeks content) : s.check = .ok () :=
  s.log.check_open h.opened

theorem FileClient.Keeps.through {c : FileClient} (h : c.Keeps content) :
    (c.through content).Keeps content :=
  ⟨h.toStands.through, rfl⟩

theorem Site.Fetches.astray (h : s.Fetches content)
    (hn : (Record.commandsFrom 0 (Lines.stored content)).drop s.node.client.offset = []) :
    Lines.strays content ≠ 0 := by
  have hle := List.drop_eq_nil_iff.1 hn
  have hlt := h.short
  rw [Record.length_commandsFrom] at hle
  rw [h.keeps.position, Lines.ending] at hlt
  omega

theorem Polling.step_fetches {stage : Polling} (hl : Lines.Legible (Lines.complete content))
    (hs : s.Fetches content) (h : stage.Seeks content task s.node.turns) :
    stage.Fetches content task s (stage.step task s) := by
  have hturn (ht : s.node.turns = [task]) : s.node.hasTurn task = true := by
    simp [Node.hasTurn, ht]
  have hgone (ht : s.node.turns = [task]) : s.node.turns.erase task = [] := by
    simp [ht]
  cases stage with
  | arriving timeout =>
    exact ⟨⟨⟨hs.lodged, hs.opened, hs.stop⟩, hs.keeps, hs.short⟩,
      congrArg (· ++ [task]) h, fun _ => ⟨rfl, Nat.lt_succ_self 4⟩⟩
  | queued timeout =>
    rw [step, if_pos (hturn h)]
    exact ⟨hs, h, fun _ => ⟨rfl, Nat.lt_succ_self 3⟩⟩
  | enlisting deadline => exact ⟨hs, h, fun _ => ⟨rfl, Nat.lt_succ_self 2⟩⟩
  | checking deadline epoch =>
    rw [step, hs.check]
    exact ⟨hs, h, fun _ => ⟨rfl, Nat.lt_succ_self 1⟩⟩
  | reading deadline epoch =>
    have hread : CommandLog.read s.log s.node.client = _ :=
      hs.lodged.read hl hs.keeps.toStands
    simp only [step, hread]
    cases hbatch : (Record.commandsFrom 0 (Lines.stored content)).drop s.node.client.offset with
    | nil =>
      -- the poll is made short of the end, so what is counted there is never read
      have hstray := hs.astray hbatch
      simp only [CommandLog.patience]
      split
      · exact ⟨[], rfl, ⟨hs.lodged, hs.opened, hs.stop⟩, hs.keeps.through, hgone h,
          fun hn => absurd hn hstray⟩
      · refine ⟨⟨⟨hs.lodged, hs.opened, hs.stop⟩, hs.keeps.through, ?_⟩, ⟨h, hstray⟩,
          fun hn => absurd hn hstray⟩
        exact Nat.lt_add_of_pos_right (Nat.pos_of_ne_zero hstray)
    | cons c cs =>
      refine ⟨c :: cs, rfl, ⟨hs.lodged, hs.opened, hs.stop⟩, hs.keeps.through, hgone h,
        fun hn => ?_⟩
      have hshort := hs.short
      rw [Lines.ending, hn] at hshort
      exact hshort
  | waiting deadline epoch look =>
    obtain ⟨ht, hstray⟩ := h
    simp only [step]
    split
    · exact ⟨hs, ht, fun hn => absurd hn hstray⟩
    · split
      · split
        · exact ⟨[], rfl, ⟨hs.lodged, hs.opened, hs.stop⟩, hs.keeps, hgone ht,
            fun hn => absurd hn hstray⟩
        · exact hstray
      · split
        · exact ⟨hs, ht, fun hn => absurd hn hstray⟩
        · exact hstray

theorem FileClient.Keeps.position_le {c : FileClient} (h : c.Keeps content) :
    c.position ≤ (Lines.stored content).length := by
  rw [h.position, h.offset, h.stored_eq, List.length_append]
  exact Nat.le_add_right ..

theorem FileClient.keeps_rewind (c : FileClient) (content : List UInt8) :
    (Disk.rewind c).Keeps content :=
  ⟨⟨rfl, rfl⟩, rfl⟩

theorem Replaying.step_fetches [Executor ε] {stage : Replaying}
    (hl : Lines.Legible (Lines.complete content)) (hs : s.Seeks content)
    (h : stage.Seeks content task s.node) :
    stage.Fetches content task s (stage.step task s) := by
  -- without strays each step lowers the rank, until the client is at the end
  cases stage with
  | starting =>
    exact .inl ⟨⟨hs.lodged, hs.opened, hs.stop⟩, h,
      fun _ => Nat.add_lt_add_right (by decide : 42 < 43) _⟩
  | rewinding stage =>
    cases stage with
    | arriving =>
      rw [step, Rewinding.step, hs.check]
      exact .inl ⟨⟨hs.lodged, hs.opened, hs.stop⟩, congrArg (· ++ [task]) h,
        fun _ => Nat.add_lt_add_right (by decide : 41 < 42) _⟩
    | queued =>
      have ht : s.node.turns = [task] := h
      have hturn : s.node.hasTurn task = true := by simp [Node.hasTurn, ht]
      have hgone : s.node.turns.erase task = [] := by simp [ht]
      rw [step, Rewinding.step, if_pos hturn]
      exact .inl ⟨⟨hs.lodged, hs.opened, hs.stop⟩, ⟨hgone, FileClient.keeps_rewind _ _⟩,
        fun _ => Nat.add_lt_add_right (by decide : 40 < 41) _⟩
  | measuring =>
    obtain ⟨ht, hk⟩ := h
    obtain ⟨d, hend, hd⟩ := hs.lodged.endPosition hs.opened
    rw [Lines.countRecords_legible hl] at hend
    have hend : s.endPosition = (.ok (Lines.ending content), { s with log := d }) := by
      have hend : CommandLog.endPosition s.log s.node.client = _ := hend
      rw [Site.endPosition, hend]
      rfl
    rw [step, hend]
    refine .inl ⟨⟨hd, hs.opened, hs.stop⟩, ⟨rfl, ht, hk⟩, fun _ => ?_⟩
    simp only [ahead, rank]
    omega
  | fetching limit backlog =>
    obtain ⟨rfl, ht, hk⟩ := h
    rw [step]
    split
    · next hlt =>
      rw [hs.stop]
      exact .inl ⟨hs, ⟨rfl, ht, hk, hlt⟩, fun _ => Nat.add_lt_add_right (by decide : 35 < 36) _⟩
    · next hle =>
      have hle : ¬ s.node.client.position < Lines.ending content := hle
      have hposition := hk.position_le
      refine .inr ⟨?_, _, _, rfl⟩
      rw [Lines.ending] at hle
      omega
  | polling limit backlog stage =>
    obtain ⟨rfl, hstage, hk, hlt⟩ := h
    have hmove := Polling.step_fetches hl ⟨hs, hk, hlt⟩ hstage
    rw [step]
    cases hm : stage.step task s with
    | wait =>
      rw [hm] at hmove
      exact hmove
    | next s' stage' =>
      rw [hm] at hmove
      obtain ⟨hs', hstage', hrank⟩ := hmove
      refine .inl ⟨hs'.toSeeks, ⟨rfl, hstage', hs'.keeps, hs'.short⟩, fun hn => ?_⟩
      obtain ⟨hclient, hrank⟩ := hrank hn
      rw [hclient]
      exact Nat.add_lt_add_right (Nat.add_lt_add_left hrank 30) _
    | done s' r =>
      rw [hm] at hmove
      obtain ⟨batch, rfl, hs', hk', ht', hread⟩ := hmove
      refine .inl ⟨⟨hs'.lodged, hs'.opened, hs'.stop⟩, ⟨rfl, ht', hk'⟩, fun hn => ?_⟩
      have hread := hread hn
      have hposition := hk'.position_le
      simp only [ahead, rank]
      show 36 + 50 * ((Lines.stored content).length - s'.node.client.position) < _
      omega
  | sorting limit backlog => exact h.elim
  | terminating limit attempt => exact h.elim
  | resuming rest replayed => exact h.elim
  | applying rest replayed attempt => exact h.elim
  | finishing replayed => exact h.elim

end

def Replaying.Unfetched : Replaying → Prop
  | starting | rewinding _ | measuring | fetching _ _ | polling _ _ _ => True
  | _ => False

theorem Replaying.Seeks.unfetched {content : List UInt8} {task : Nat} {n : Node FileClient}
    {stage : Replaying} (h : stage.Seeks content task n) : stage.Unfetched := by
  cases stage with
  | starting | rewinding _ | measuring | fetching _ _ | polling _ _ _ => trivial
  | _ => exact h

def Site.Ticks (s s' : Site Disk FileClient ε) : Prop :=
  ∃ now, s.now ≤ now ∧ s' = { s with now }

namespace Lifetime

variable [Executor ε] {x y : Lifetime Disk FileClient ε} {content : List UInt8}

structure Fetches (x : Lifetime Disk FileClient ε) (content : List UInt8) (stage : Replaying) :
    Prop where
  phase : x.phase = .replaying stage
  site : x.site.Seeks content
  stage : stage.Seeks content x.task x.site.node

def Fetched (x : Lifetime Disk FileClient ε) : Prop :=
  ∃ limit backlog, x.phase = .replaying (.sorting limit backlog)

theorem Fetches.advance {stage : Replaying} (hl : Lines.Legible (Lines.complete content))
    (h : x.Fetches content stage) :
    (Lines.strays content ≠ 0 ∧ x.advance? = none) ∨ ∃ y, x.advance? = some y ∧
      ((∃ stage', y.Fetches content stage' ∧ (Lines.strays content = 0 →
          stage'.ahead content y.site.node.client.position <
            stage.ahead content x.site.node.client.position)) ∨
        Lines.strays content = 0 ∧ y.Fetched) := by
  have hmove := Replaying.step_fetches hl h.site h.stage
  have hadvance : x.advance? = x.enter (stage.step x.task x.site) .replaying .replayed := by
    rw [advance?, h.phase]
  rw [hadvance]
  cases hm : stage.step x.task x.site with
  | wait =>
    rw [hm] at hmove
    exact .inl ⟨hmove, rfl⟩
  | next s stage' =>
    rw [hm] at hmove
    refine .inr ⟨_, rfl, ?_⟩
    rcases hmove with ⟨hs, hstage, hahead⟩ | ⟨hn, limit, backlog, rfl⟩
    · exact .inl ⟨stage', ⟨rfl, hs, hstage⟩, hahead⟩
    · exact .inr ⟨hn, limit, backlog, rfl⟩
  | done s r =>
    rw [hm] at hmove
    exact hmove.elim

theorem Fetches.ends {stage : Replaying} (hl : Lines.Legible (Lines.complete content))
    (hn : Lines.strays content = 0) (h : x.Fetches content stage) :
    ∃ n y, steps? n x = some y ∧ y.Fetched := by
  induction ha : stage.ahead content x.site.node.client.position using Nat.strongRecOn
    generalizing x stage with
  | ind a ih =>
    rcases h.advance hl with ⟨hstray, -⟩ | ⟨y, hy, ⟨stage', hstage, hlt⟩ | ⟨-, hfetched⟩⟩
    · exact absurd hn hstray
    · obtain ⟨n, z, hz, hfetched⟩ := ih _ (ha ▸ hlt hn) hstage rfl
      exact ⟨n + 1, z, by rw [steps?, hy]; exact hz, hfetched⟩
    · exact ⟨1, y, by rw [steps?, hy]; rfl, hfetched⟩

theorem Fetches.stays {stage : Replaying} (hl : Lines.Legible (Lines.complete content))
    (hn : Lines.strays content ≠ 0) (h : x.Fetches content stage)
    (hr : Reaches Site.Ticks x y) : ∃ stage', y.Fetches content stage' := by
  induction hr with
  | refl => exact ⟨stage, h⟩
  | tail _ hs ih =>
    obtain ⟨stage', hstage⟩ := ih
    cases hs with
    | act ha =>
      rcases hstage.advance hl with ⟨-, hnone⟩ | ⟨y, hy, ⟨stage'', hnext, -⟩ | ⟨hzero, -⟩⟩
      · rw [hnone] at ha
        cases ha
      · rw [hy] at ha
        cases ha
        exact ⟨stage'', hnext⟩
      · exact absurd hzero hn
    | change hw =>
      obtain ⟨now, -, rfl⟩ := hw
      exact ⟨stage', hstage.phase, ⟨hstage.site.lodged, hstage.site.opened, hstage.site.stop⟩,
        hstage.stage⟩

/-- Counting and reading on a log that can be read in full, for those who call and for a runner that
replays it. -/
structure Reckons (task : Nat) (s : Site Disk FileClient ε) (content : List UInt8) : Prop where
  tallies : s.log.Tallies s.node.client.handle content
  agrees : Lines.ending content = (Lines.stored content).length ↔
    ∀ line ∈ Lines.complete content, Lines.kind line = .blank →
      ∀ b ∈ line, Text.isBlankOctet b = true
  ends : Lines.ending content = (Lines.stored content).length →
    ∃ n y, steps? n (ofSite task s) = some y ∧ y.Fetched
  lasts {y : Lifetime Disk FileClient ε} : Lines.ending content ≠ (Lines.stored content).length →
    Reaches Site.Ticks (ofSite task s) y → ∃ stage, y.phase = .replaying stage ∧ stage.Unfetched

/-- On a log whose complete lines are all blank or records, with any tail, a client that polls until
nothing is left comes to the position behind the last record, and an append is read there. The end
of the log and the offset that the append is told are the same just if no blank line holds white
space that is not an ASCII blank. Exactly then the fetch loop of a replay ends; otherwise it goes on
however much time goes by. -/
theorem reckons_of_legible {task : Nat} {s : Site Disk FileClient ε}
    (hl : Lines.Legible (Lines.complete content)) (hs : s.Seeks content)
    (ht : s.node.turns = []) : Reckons task s content := by
  have hstart : (ofSite task s).Fetches content .starting := ⟨rfl, hs, ht⟩
  have hzero : Lines.ending content = (Lines.stored content).length ↔ Lines.strays content = 0 := by
    rw [Lines.ending, Nat.add_eq_left]
  refine ⟨hs.lodged.tallies hl, Lines.ending_eq_iff, fun he => hstart.ends hl (hzero.1 he),
    fun {y} he hr => ?_⟩
  obtain ⟨stage, hstage⟩ := hstart.stays hl (he ∘ hzero.2) hr
  exact ⟨stage, hstage.phase, hstage.stage.unfetched⟩

def reader (content : List UInt8) : Site Disk FileClient Engine where
  now := 0
  origin := 0
  log := .holding content
  broker := {}
  tracker := .ofCapacity 1
  executor := {}
  node := .ofConfig {} { handle := 0 } 0 0

theorem reader_seeks (content : List UInt8) : (reader content).Seeks content :=
  ⟨Disk.holding_lodges content, rfl, rfl⟩

def assorted : List UInt8 :=
  Lines.written [Disk.sample] ++ [32, 10, 11, 10, 123]

theorem reckons_of_legible_assorted :
    Lines.Legible (Lines.complete assorted) ∧ Reckons 0 (reader assorted) assorted ∧
      Lines.stored assorted = [Disk.sample] ∧ Lines.ending assorted = 2 ∧
      Lines.tail assorted = [123] := by
  have hl : Lines.Legible (Lines.complete assorted) := by decide +kernel
  exact ⟨hl, reckons_of_legible hl (reader_seeks assorted) rfl, by decide +kernel,
    by decide +kernel, by decide +kernel⟩

/-- A line of a vertical tab, which is blank to a reader and a record to a count. -/
def tabbed : Disk :=
  .holding [11, 10]

/-- The end of the log stays ahead of the position, an append is told an offset at which no reader
sees its record, and a replay never has the log fetched. -/
theorem tab_counted_but_not_read :
    Lines.Legible (Lines.complete [11, 10]) ∧
      FileClient.replies { handle := 0 }
        [(tabbed, .poll), (tabbed, .poll), (tabbed, .position), (tabbed, .endPosition)] =
          [.ok (.batch []), .ok (.batch []), .ok (.ending 0), .ok (.ending 1)] ∧
      ((LogCall.append Disk.sample).perform tabbed { handle := 0 }).1 = .ok (.appended 1) ∧
      FileClient.replies { handle := 0 }
        [(((LogCall.append Disk.sample).perform tabbed { handle := 0 }).2.1, .poll)] =
          [.ok (.batch [Disk.sample.command 0])] ∧
      ∀ y, Reaches Site.Ticks (ofSite 0 (reader [11, 10])) y → ¬ y.Fetched := by
  have hl : Lines.Legible (Lines.complete [11, 10]) := by decide +kernel
  have hstart : (ofSite 0 (reader [11, 10])).Fetches [11, 10] .starting :=
    ⟨rfl, reader_seeks [11, 10], rfl⟩
  refine ⟨hl, by decide +kernel, by decide +kernel, by decide +kernel, ?_⟩
  rintro y hr ⟨limit, backlog, hy⟩
  obtain ⟨stage, hstage⟩ := hstart.stays hl (by decide +kernel) hr
  cases hstage.phase.symm.trans hy
  exact hstage.stage

end Lifetime

end StatementLog
