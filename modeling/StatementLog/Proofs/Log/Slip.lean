import StatementLog.Proofs.Log.Calling
import StatementLog.Proofs.Log.Disk
import StatementLog.Proofs.Log.Legible

namespace StatementLog

namespace Disk

variable {d : Disk} {c c' : FileClient} {f : RecordFault}

def unread (d : Disk) (c : FileClient) : List (List UInt8) :=
  let content := (d.entries.content? (d.handleOf c).place).toOption.join
  Lines.complete ((content.getD []).drop c.octets)

/-- How many records stand between the place of a client and the next garbled line. -/
def passed (d : Disk) (c : FileClient) : Nat :=
  (Lines.records (Lines.legible (d.unread c))).length

theorem read_cases (d : Disk) (c : FileClient) :
    (∃ e, d.read c = (.error (fault e), c)) ∨
      (Lines.Legible (d.unread c) ∧ ∃ octets, d.read c =
        (.ok (Record.commandsFrom c.offset (Lines.records (d.unread c))),
          { c with octets, offset := c.offset + (Lines.records (d.unread c)).length,
                   position := c.offset + (Lines.records (d.unread c)).length })) ∨
      ∃ line rest, d.unread c = Lines.legible (d.unread c) ++ line :: rest ∧
        Lines.kind line = .garbled ∧ d.read c =
          (.error (.serialization (Lines.fault (c.offset + d.passed c) line)),
            { c with offset := c.offset + d.passed c }) := by
  unfold read passed unread
  cases d.entries.content? (d.handleOf c).place with
  | error e => exact .inl ⟨e, rfl⟩
  | ok content =>
    refine .inr ?_
    simp only [Except.toOption, Option.join_some]
    rcases Lines.readFrom_cases c.offset (Lines.complete ((content.getD []).drop c.octets)) with
      ⟨h, hr⟩ | ⟨line, rest, h, hk, hr⟩
    · exact .inl ⟨h, _, by rw [hr]⟩
    · exact .inr ⟨line, rest, h, hk, by rw [hr]⟩

theorem read_garbled (h : d.read c = (.error (.serialization f), c')) :
    c' = { c with offset := c.offset + d.passed c } ∧ f.offset = c.offset + d.passed c := by
  rcases d.read_cases c with ⟨e, hr⟩ | ⟨-, octets, hr⟩ | ⟨line, rest, -, -, hr⟩
  · rw [hr] at h
    cases e <;> cases h
  · rw [hr] at h
    cases h
  · rw [hr] at h
    cases h
    exact ⟨rfl, Lines.offset_fault _ _⟩

theorem read_later (d : Disk) (c : FileClient) (k : Nat) :
    (d.read { c with offset := c.offset + k }).1 = Lines.later k (d.read c).1 := by
  have hh : d.handleOf { c with offset := c.offset + k } = d.handleOf c := rfl
  rw [read, read, hh]
  cases d.entries.content? (d.handleOf c).place with
  | error e => cases e <;> rfl
  | ok content =>
    simp only [Lines.readFrom_add]
    cases Lines.readFrom c.offset (Lines.complete ((content.getD []).drop c.octets)) with
    | mk r reached => cases r <;> rfl

end Disk

namespace FileClient

def replies (c : FileClient) : List (Disk × LogCall) → List Reply
  | [] => []
  | (d, call) :: later => (call.perform d c).1 :: replies (call.perform d c).2.2 later

theorem replies_poll {d : Disk} {c : FileClient} (hc : c.closed = false)
    (later : List (Disk × LogCall)) :
    c.replies ((d, .poll) :: later) =
      (d.read c).1.map .batch :: (d.read c).2.replies later := by
  have hcheck : CommandLog.check d c = .ok () := d.check_open hc
  rw [replies, LogCall.perform, hcheck]
  rfl

theorem perform_closed {c : FileClient} (hc : c.closed = true) (d : Disk) (call : LogCall)
    (n : Nat) : (call.perform d c).2.2 = c ∧
      (call.perform d { c with offset := n }).1 = (call.perform d c).1 := by
  have hcheck (n : Nat) : d.check { c with offset := n } =
      .error (.logUnavailable (.handleClosed (d.handleOf c).path)) := d.check_closed hc
  cases call with
  | append r =>
    simp only [LogCall.perform, CommandLog.append, Disk.append, hcheck]
    trivial
  | poll => simp only [LogCall.perform, CommandLog.check, hcheck, and_self]
  | endPosition =>
    simp only [LogCall.perform, CommandLog.endPosition, Disk.endPosition, hcheck]
    trivial
  | position => exact ⟨rfl, rfl⟩
  | rewind => simp only [LogCall.perform, CommandLog.check, hcheck, and_self]
  | close =>
    refine ⟨?_, rfl⟩
    cases c
    cases hc
    rfl

theorem replies_closed {c : FileClient} (hc : c.closed = true) (n : Nat)
    (calls : List (Disk × LogCall)) : replies { c with offset := n } calls = replies c calls := by
  induction calls with
  | nil => rfl
  | cons first later ih =>
    have hstays := (perform_closed (c := { c with offset := n }) hc first.1 first.2 n).1
    obtain ⟨hstay, hreply⟩ := perform_closed hc first.1 first.2 n
    rw [replies, replies, hreply, hstay, hstays, ih]

end FileClient

theorem Polling.read_of_garbled {ε : Type} {task : Nat} {s s' : Site Disk FileClient ε}
    {stage : Polling} {f : RecordFault}
    (h : stage.step task s = .done s' (.error (.serialization f))) :
    s'.log = s.log ∧ s.log.read s.node.client = (.error (.serialization f), s'.node.client) := by
  cases stage with
  | arriving timeout => cases h
  | enlisting deadline => cases h
  | queued timeout =>
    simp only [step] at h
    split at h <;> cases h
  | checking deadline epoch =>
    simp only [step] at h
    split at h
    · next e he =>
      cases h
      simp only [Site.check, CommandLog.check, Disk.check] at he
      split at he <;> cases he
    · cases h
  | waiting deadline epoch look =>
    simp only [step] at h
    split at h
    · cases h
    · cases look with
      | none => simp only at h; split at h <;> cases h
      | some t => simp only at h; split at h <;> cases h
  | reading deadline epoch =>
    simp only [step, finish] at h
    split at h
    · next e client hr =>
      cases h
      exact ⟨rfl, hr⟩
    · split at h
      · cases h
      · split at h <;> cases h
    · cases h

namespace Disk

/-- What has become of a client whose poll has ended at a garbled line: it keeps its place, and
counts the records that it has passed on the way. -/
structure Slips (d : Disk) (c c' : FileClient) (f : RecordFault) : Prop where
  client : c' = { c with offset := c.offset + d.passed c }
  told : f.offset = c.offset + d.passed c
  again : (d.read c').1 = .error (.serialization (f.later (d.passed c)))
  reads (d' : Disk) : (d'.read c').1 = Lines.later (d.passed c) (d'.read c).1
  counts {d' : Disk} {content : List UInt8} :
    d'.entries.content? (d'.handleOf c).place = .ok (some content) →
    c.Stands content → Lines.Legible (Lines.complete (content.drop c.octets)) →
      ((d'.read c').1 = .ok ((Record.commandsFrom 0 (Lines.stored content)).drop c.offset) ↔
        d.passed c = 0 ∨ (d'.read c).1 = .ok [])
  rewound : Disk.rewind c' = Disk.rewind c
  harmless : (∀ calls, c'.replies calls = c.replies calls) ↔ d.passed c = 0 ∨ c.closed = true

/-- A poll that ends at a garbled line, with any timeout and whatever else goes on, does no harm to
later calls just if no record stands between the place of its client and that line. Otherwise the
client counts those records again whenever it reads them: it finds the same line at a larger offset,
and once the line is mended it gives each record an offset that is by so much too large. -/
theorem slips_of_garbled {ε : Type} {task : Nat} {s s' : Site Disk FileClient ε} {stage : Polling}
    {f : RecordFault} (h : stage.step task s = .done s' (.error (.serialization f))) :
    s'.log = s.log ∧ s.log.Slips s.node.client s'.node.client f := by
  obtain ⟨hlog, hr⟩ := Polling.read_of_garbled h
  obtain ⟨hclient, htold⟩ := read_garbled hr
  have hreads (d' : Disk) : (d'.read s'.node.client).1 =
      Lines.later (s.log.passed s.node.client) (d'.read s.node.client).1 := by
    rw [hclient, read_later]
  have hagain : (s.log.read s'.node.client).1 =
      .error (.serialization (f.later (s.log.passed s.node.client))) := by
    rw [hreads, hr]
    rfl
  refine ⟨hlog, ⟨hclient, htold, hagain, hreads, ?_, by rw [hclient]; rfl, ?_⟩⟩
  · intro d' content hc hstands hl
    rw [hreads, hstands.read hc hl]
    simp only [Lines.later, Except.ok.injEq]
    exact Command.map_later
  · constructor
    · intro hsame
      refine or_iff_not_imp_right.2 fun hopen => ?_
      have hopen : s.node.client.closed = false := Bool.eq_false_iff.2 hopen
      have hopen' : s'.node.client.closed = false := by rw [hclient]; exact hopen
      -- one more poll of the log as it is tells the two clients apart
      have hpoll := hsame [(s.log, .poll)]
      rw [FileClient.replies_poll hopen', FileClient.replies_poll hopen, hagain, hr] at hpoll
      have hoffset : (f.later (s.log.passed s.node.client)).offset = f.offset :=
        congrArg RecordFault.offset
          (Error.serialization.inj (Except.error.inj (List.cons.inj hpoll).1))
      rw [RecordFault.offset_later] at hoffset
      exact Nat.add_eq_left.1 hoffset
    · rintro (hnone | hclosed)
      · rw [hclient, hnone]
        exact fun _ => rfl
      · rw [hclient]
        exact fun calls => FileClient.replies_closed hclosed _ calls

def holding (content : List UInt8) : Disk :=
  (({} : Disk).open? "log").2.write "log" content

def sample : Record :=
  ⟨⟨.stream, "A", .create⟩, { statement := "CREATE STREAM A (X INT);" }, 0⟩

def spoilt : Disk :=
  holding (Lines.written [sample] ++ [120, Lines.lineFeed])

def mended : Disk :=
  holding (Lines.written [sample, sample])

theorem slips_of_garbled_spoilt :
    ∃ s s' : Site Disk FileClient Unit, s.log = spoilt ∧ s.node.client = { handle := 0 } ∧
      (Polling.reading 0 0).step 0 s = .done s' (.error (.serialization (.malformed 1))) ∧
      s'.log = s.log ∧ s.log.Slips s.node.client s'.node.client (.malformed 1) ∧
      s.log.passed s.node.client = 1 := by
  have hr : CommandLog.read spoilt ({ handle := 0 } : FileClient) =
      (.error (.serialization (.malformed 1)), { handle := 0, offset := 1 }) := by decide +kernel
  let s : Site Disk FileClient Unit :=
    { now := 0, origin := 0, log := spoilt, broker := {}, tracker := .ofCapacity 1, executor := ()
      node := .ofConfig {} { handle := 0 } 0 0 }
  have hs : (Polling.reading 0 0).step 0 s = .done
      ((s.mapNode fun n => { n with client := { handle := 0, offset := 1 } }).mapNode
        fun n => n.depart 0) (.error (.serialization (.malformed 1))) := by
    have hr : CommandLog.read s.log s.node.client = _ := hr
    simp only [Polling.step, hr]
    rfl
  obtain ⟨hlog, hslips⟩ := slips_of_garbled hs
  exact ⟨s, _, rfl, rfl, hs, hlog, hslips, by decide +kernel⟩

/-- The same line is reported at two offsets, and once it is mended the two records are read at the
offsets of a third and a fourth one. -/
theorem spoilt_counts_again :
    FileClient.replies { handle := 0 } [(spoilt, .poll), (spoilt, .poll), (mended, .poll)] =
      [.error (.serialization (.malformed 1)), .error (.serialization (.malformed 2)),
        .ok (.batch (Record.commandsFrom 2 [sample, sample]))] ∧
    FileClient.replies { handle := 0 } [(mended, .poll)] =
      [.ok (.batch (Record.commandsFrom 0 [sample, sample]))] := by
  decide +kernel

end Disk

end StatementLog
