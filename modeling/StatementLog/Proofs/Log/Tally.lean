import StatementLog.Proofs.Log.Slip

namespace StatementLog

namespace Text.Utf8

theorem decodeFrom_blank {octets : List UInt8} (h : octets.all Text.isBlankOctet = true) (i : Nat) :
    ∃ cs, decodeFrom i octets = .ok cs ∧ Text.isBlankText cs = true := by
  induction octets generalizing i with
  | nil => exact ⟨[], rfl, rfl⟩
  | cons b octets ih =>
    rw [List.all_cons, Bool.and_eq_true] at h
    obtain ⟨cs, hcs, hblank⟩ := ih h.2 (i + 1)
    have hb : b = 9 ∨ b = 10 ∨ b = 12 ∨ b = 13 ∨ b = 32 := by
      simpa [Text.isBlankOctet, or_assoc] using h.1
    have hone : width? b = some 1 ∧ Text.isBlank (Char.ofNat b.toNat) = true := by
      rcases hb with rfl | rfl | rfl | rfl | rfl <;> decide
    refine ⟨Char.ofNat b.toNat :: cs, ?_, ?_⟩
    · rw [decodeFrom_one hone.1, hcs]
      rfl
    · rw [Text.isBlankText, List.all_cons, hone.2]
      exact hblank

end Text.Utf8

namespace Lines

theorem kind_of_not_isRecord {line : List UInt8} (h : isRecord line = false) :
    kind line = .blank := by
  have hall : line.all Text.isBlankOctet = true := by
    simpa [isRecord] using h
  obtain ⟨cs, hcs, hblank⟩ := Text.Utf8.decodeFrom_blank hall 0
  rw [kind, Text.Utf8.decode, hcs]
  exact if_pos hblank

theorem kind_octets {r : Record} (h : r.Readable) : kind r.octets = .record r := by
  rw [kind, r.decode_octets]
  simp only [r.line_not_blank, Bool.false_eq_true, if_false, r.ofLine?_line, if_pos h]

/-- A line that counts as a record, but is passed over by readers. -/
def isStray (line : List UInt8) : Bool :=
  decide (kind line = .blank) && isRecord line

def strays (content : List UInt8) : Nat :=
  (complete content).countP isStray

def ending (content : List UInt8) : Nat :=
  (stored content).length + strays content

theorem strays_eq_zero_iff {content : List UInt8} : strays content = 0 ↔
    ∀ line ∈ complete content, kind line = .blank → ∀ b ∈ line, Text.isBlankOctet b = true := by
  rw [strays, List.countP_eq_zero]
  simp [isStray, isRecord]

theorem ending_eq_iff {content : List UInt8} : ending content = (stored content).length ↔
    ∀ line ∈ complete content, kind line = .blank → ∀ b ∈ line, Text.isBlankOctet b = true := by
  rw [← strays_eq_zero_iff, ending, Nat.add_eq_left]

theorem countRecords_append (lines lines' : List (List UInt8)) :
    countRecords (lines ++ lines') = countRecords lines + countRecords lines' :=
  List.countP_append

theorem countRecords_legible {lines : List (List UInt8)} (h : Legible lines) :
    countRecords lines = (records lines).length + lines.countP isStray := by
  induction lines with
  | nil => rfl
  | cons line lines ih =>
    have ih : lines.countP isRecord = (records lines).length + lines.countP isStray := ih h.tail
    rw [countRecords, List.countP_cons, List.countP_cons, records_cons, ih]
    cases hk : kind line with
    | garbled => exact absurd hk (h line List.mem_cons_self)
    | blank => simp only [isStray, hk, decide_true, Bool.true_and, Nat.add_assoc]
    | record r =>
      have hr : isRecord line = true := by
        rw [← Bool.not_eq_false]
        intro hn
        rw [kind_of_not_isRecord hn] at hk
        cases hk
      simp only [isStray, hk, hr, reduceCtorEq, decide_false, Bool.false_and, Bool.false_eq_true,
        if_true, if_false, List.length_cons]
      omega

def appended (content : List UInt8) (r : Record) : List UInt8 :=
  front content ++ (r.octets ++ [lineFeed])

theorem appended_spec (content : List UInt8) (r : Record) :
    tail (appended content r) = [] ∧
      complete (appended content r) = complete content ++ [r.octets] := by
  obtain ⟨-, -, ht, hc⟩ := front_spec content
  obtain ⟨hcomplete, htail⟩ := split_append ht (r.octets ++ [lineFeed])
  rw [appended, hcomplete, htail, hc, complete_line r.lineFeed_not_mem_octets,
    tail_line r.lineFeed_not_mem_octets]
  exact ⟨rfl, rfl⟩

theorem stored_appended {r : Record} (h : r.Readable) (content : List UInt8) :
    stored (appended content r) = stored content ++ [r] := by
  rw [stored, (appended_spec content r).2, records_append, records_cons, kind_octets h]
  rfl

theorem legible_appended {content : List UInt8} {r : Record} (h : r.Readable)
    (hl : Legible (complete content)) : Legible (complete (appended content r)) := by
  rw [(appended_spec content r).2]
  intro line hm
  rcases List.mem_append.1 hm with hm | hm
  · exact hl line hm
  · rw [List.mem_singleton.1 hm, kind_octets h]
    exact LineKind.noConfusion

end Lines

namespace Extent

/-- The extent is that of the lines up to some line feed of the file. -/
def Within (known : Extent) (content : List UInt8) : Prop :=
  ∃ front rest, content = front ++ rest ∧ Lines.tail front = [] ∧
    known = ⟨front.length, Lines.countRecords (Lines.complete front)⟩

theorem Within.all {content : List UInt8} (h : Lines.tail content = []) :
    Within ⟨content.length, Lines.countRecords (Lines.complete content)⟩ content :=
  ⟨content, [], (List.append_nil content).symm, h, rfl⟩

theorem Within.front (content : List UInt8) :
    Within ⟨Lines.completeLength content, Lines.countRecords (Lines.complete content)⟩ content := by
  obtain ⟨hf, hlength, ht, hc⟩ := Lines.front_spec content
  exact ⟨Lines.front content, Lines.tail content, hf, ht, by rw [hlength, hc]⟩

theorem Within.scan {known : Extent} {content : List UInt8} (h : known.Within content) :
    known.scan content =
      (⟨Lines.completeLength content, Lines.countRecords (Lines.complete content)⟩,
        (Lines.tail content).length) := by
  obtain ⟨front, rest, rfl, ht, rfl⟩ := h
  obtain ⟨hc, htail⟩ := Lines.split_append ht rest
  have hstart : Extent.start ⟨front.length, Lines.countRecords (Lines.complete front)⟩
      (front ++ rest) = ⟨front.length, Lines.countRecords (Lines.complete front)⟩ :=
    if_neg (Nat.not_lt.2 (by rw [List.length_append]; exact Nat.le_add_right ..))
  have hlength : (Lines.tail rest).length ≤ rest.length := by
    obtain ⟨hr, -⟩ := Lines.front_spec rest
    have hl := congrArg List.length hr
    rw [List.length_append] at hl
    omega
  rw [Extent.scan, hstart]
  simp only [List.drop_left, hc, htail, Lines.countRecords_append, Lines.completeLength,
    List.length_append, Prod.mk.injEq, Extent.mk.injEq, and_true]
  omega

theorem within_nothing (content : List UInt8) : ({} : Extent).Within content :=
  ⟨[], content, rfl, rfl, rfl⟩

theorem Within.of_nil {known : Extent} (h : known.Within []) (content : List UInt8) :
    known.Within content := by
  obtain ⟨front, rest, he, -, rfl⟩ := h
  obtain ⟨rfl, -⟩ := List.append_eq_nil_iff.1 he.symm
  exact within_nothing content

theorem scan_nothing (content : List UInt8) : scan {} content =
    (⟨Lines.completeLength content, Lines.countRecords (Lines.complete content)⟩,
      (Lines.tail content).length) :=
  (within_nothing content).scan

theorem extent_appended (content : List UInt8) (r : Record) :
    (⟨Lines.completeLength content + (r.octets ++ [Lines.lineFeed]).length,
      Lines.countRecords (Lines.complete content) + 1⟩ : Extent) =
      ⟨(Lines.appended content r).length,
        Lines.countRecords (Lines.complete (Lines.appended content r))⟩ := by
  obtain ⟨-, hlength, -, -⟩ := Lines.front_spec content
  obtain ⟨-, hcomplete⟩ := Lines.appended_spec content r
  have hline : Lines.countRecords [r.octets] = 1 := Lines.countRecords_octets [r]
  have hoctets : (Lines.appended content r).length =
      Lines.completeLength content + (r.octets ++ [Lines.lineFeed]).length := by
    rw [Lines.appended, List.length_append, hlength]
  rw [hcomplete, Lines.countRecords_append, hline, hoctets]

end Extent

namespace FileClient

theorem Stands.legible_drop {c : FileClient} {content : List UInt8} (h : c.Stands content)
    (hl : Lines.Legible (Lines.complete content)) :
    Lines.Legible (Lines.complete (content.drop c.octets)) := by
  intro line hm
  refine hl line ?_
  rw [← List.take_append_drop c.octets content, (Lines.split_append h.tail _).1]
  exact List.mem_append_right _ hm

theorem octets_through (handle : Nat) (content : List UInt8) :
    (({ handle } : FileClient).through content).octets = (Lines.front content).length := by
  rw [(Lines.front_spec content).2.1, through, Nat.zero_add, List.drop_zero]

theorem stands_of_front (handle : Nat) {content content' : List UInt8}
    (h : Lines.front content <+: content') :
    (({ handle } : FileClient).through content).Stands content' := by
  obtain ⟨more, rfl⟩ := h
  have htake : (Lines.front content ++ more).take
      (({ handle } : FileClient).through content).octets = Lines.front content := by
    rw [octets_through, List.take_left]
  exact ⟨by rw [htake, (Lines.front_spec content).2.2.1], by rw [htake, Lines.stored_front]; rfl⟩

end FileClient

namespace Disk

/-- A handle of a log that holds the content. The extent that it knows is one of the log. -/
def Lodges (d : Disk) (handle : Nat) (content : List UInt8) : Prop :=
  ∃ h, d.handles[handle]? = some h ∧ h.extent.Within content ∧
    d.entries[h.place]? = some (.file content) ∧ ∃ known, d.entries[h.lock]? = some (.file known)

variable {d d' : Disk} {c : FileClient} {i : Nat} {content : List UInt8} {r : Record}

theorem open?_known {path : String} (h : d.open? path = (.ok c, d')) :
    ∃ content h, c = { handle := c.handle } ∧ d'.handles[c.handle]? = some h ∧
      h.extent.Within content ∧ d'.entries.Houses path h.place h.lock content := by
  obtain ⟨place, lock, known, rfl, hhandles, hhouses, -⟩ := open?_ok h
  have hscan : (Extent.scan {} known).1 =
      ⟨Lines.completeLength known, Lines.countRecords (Lines.complete known)⟩ := by
    rw [Extent.scan_nothing]
  obtain ⟨-, hlength, ht, hc⟩ := Lines.front_spec known
  rw [hscan] at hhandles hhouses
  have hextent : Extent.Within ⟨Lines.completeLength known,
      Lines.countRecords (Lines.complete known)⟩ (Lines.front known) := by
    rw [← hlength, ← hc]
    exact .all ht
  exact ⟨Lines.front known, _, rfl, by rw [hhandles, List.getElem?_concat_length], hextent,
    hhouses⟩

theorem Lodges.open? {path : String} (h : d.open? path = (.ok c, d')) :
    ∃ content, c = { handle := c.handle } ∧ d'.Lodges c.handle content ∧
      d'.octets? path = some content := by
  obtain ⟨content, handle, hc, hget, hwithin, hhouses⟩ := open?_known h
  exact ⟨content, hc, ⟨handle, hget, hwithin, hhouses.holds, hhouses.locked⟩,
    octets?_eq_some.2 ⟨handle.place, hhouses.leads, hhouses.holds⟩⟩

theorem Lodges.write {path : String} (h : d.open? path = (.ok c, d'))
    (he : d'.octets? path = some []) (content : List UInt8) :
    (d'.write path content).Lodges c.handle content := by
  obtain ⟨known, handle, -, hget, hwithin, hhouses⟩ := open?_known h
  obtain ⟨place, hplace, hfile⟩ := octets?_eq_some.1 he
  cases hhouses.leads.symm.trans hplace
  cases hhouses.holds.symm.trans hfile
  have hwrite : d'.write path content =
      { d' with entries := d'.entries.insert handle.place (.file content) } := by
    simp only [Disk.write, put, hhouses.leads, hhouses.holds, hhouses.parents]
    simp
  have hafter := hhouses.rewrite content
  rw [hwrite]
  exact ⟨handle, hget, hwithin.of_nil content, hafter.holds, hafter.locked⟩

theorem Lodges.content? (h : d.Lodges c.handle content) :
    d.entries.content? (d.handleOf c).place = .ok (some content) := by
  obtain ⟨h, hget, -, hfile, -⟩ := h
  rw [handleOf_eq hget, Entries.content?, hfile]

theorem Lodges.read (h : d.Lodges c.handle content)
    (hl : Lines.Legible (Lines.complete content)) (hs : c.Stands content) :
    d.read c =
      (.ok ((Record.commandsFrom 0 (Lines.stored content)).drop c.offset), c.through content) :=
  hs.read h.content? (hs.legible_drop hl)

theorem Lodges.endPosition (h : d.Lodges c.handle content) (hc : c.closed = false) :
    ∃ d', d.endPosition c = (.ok (Lines.countRecords (Lines.complete content)), d') ∧
      d'.Lodges c.handle content := by
  obtain ⟨h, hget, hwithin, hfile, hlock⟩ := h
  refine ⟨d.setHandle c { h with extent := (h.extent.scan content).1 }, ?_,
    { h with extent := (h.extent.scan content).1 }, ?_, ?_, hfile, hlock⟩
  · rw [Disk.endPosition, d.check_open hc, handleOf_eq hget]
    simp only [Entries.content?, hfile, hwithin.scan]
  · rw [setHandle]
    simp only [List.getElem?_set_self (List.getElem?_eq_some_iff.1 hget).1]
  · rw [hwithin.scan]
    exact .front content

theorem Lodges.announce (h : d.Lodges c.handle content) :
    (d.announce c).Lodges c.handle content := by
  obtain ⟨h, hget, hwithin, hfile, hlock⟩ := h
  refine ⟨{ h with epoch := h.epoch + 1 }, ?_, hwithin, hfile, hlock⟩
  rw [Disk.announce, setHandle, handleOf_eq hget]
  simp only [List.getElem?_set_self (List.getElem?_eq_some_iff.1 hget).1]

theorem Lodges.append (h : d.Lodges c.handle content) (hc : c.closed = false) (r : Record) :
    ∃ d', d.append c r = (.ok (Lines.countRecords (Lines.complete content)), d') ∧
      d'.Lodges c.handle (Lines.appended content r) := by
  obtain ⟨h, hget, hwithin, hfile, known, hlock⟩ := h
  obtain ⟨htail, -⟩ := Lines.appended_spec content r
  let extent : Extent := ⟨Lines.completeLength content + (r.octets ++ [Lines.lineFeed]).length,
    Lines.countRecords (Lines.complete content) + 1⟩
  refine ⟨Disk.setHandle
    { d with entries := d.entries.insert h.place (.file (Lines.appended content r)) } c
    { h with extent }, ?_, { h with extent }, ?_, ?_, ?_, ?_⟩
  · rw [Disk.append, d.check_open hc, handleOf_eq hget]
    simp only [Entries.openFile_of_file hlock, Entries.openFile_of_file hfile, hwithin.scan]
    rfl
  · rw [setHandle]
    simp only [List.getElem?_set_self (List.getElem?_eq_some_iff.1 hget).1]
  · have hextent : extent = _ := Extent.extent_appended content r
    show extent.Within (Lines.appended content r)
    rw [hextent]
    exact .all htail
  · simp [setHandle]
  · rw [setHandle, Std.ExtTreeMap.getElem?_insert]
    split
    -- for all that `Lodges` says, the lock may stand in the place of the log
    · exact ⟨Lines.appended content r, rfl⟩
    · exact ⟨known, hlock⟩

theorem stands_fresh (handle : Nat) (content : List UInt8) :
    ({ handle } : FileClient).Stands content :=
  ⟨rfl, rfl⟩

theorem stands_appended (handle : Nat) (content : List UInt8) (r : Record) :
    (({ handle } : FileClient).through content).Stands (Lines.appended content r) :=
  FileClient.stands_of_front handle (List.prefix_append ..)

/-- What polls, the end of the log and an append come to on a log that can be read in full. -/
structure Tallies (d : Disk) (handle : Nat) (content : List UInt8) : Prop where
  polls : FileClient.replies { handle }
      [(d, .poll), (d, .poll), (d, .position), (d, .endPosition)] =
    [.ok (.batch (Record.commandsFrom 0 (Lines.stored content))), .ok (.batch []),
      .ok (.ending (Lines.stored content).length), .ok (.ending (Lines.ending content))]
  appends {c : FileClient} {r : Record} : c.handle = handle → c.closed = false → r.Readable →
    ∃ d', (LogCall.append r).perform d c = (.ok (.appended (Lines.ending content)), d', c) ∧
      FileClient.replies { handle } [(d, .poll), (d', .poll)] =
        [.ok (.batch (Record.commandsFrom 0 (Lines.stored content))),
          .ok (.batch [r.command (Lines.stored content).length])]

theorem Lodges.replies_poll (h : d.Lodges c.handle content)
    (hl : Lines.Legible (Lines.complete content)) (hs : c.Stands content) (hc : c.closed = false)
    (later : List (Disk × LogCall)) :
    c.replies ((d, .poll) :: later) =
      .ok (.batch ((Record.commandsFrom 0 (Lines.stored content)).drop c.offset)) ::
        (c.through content).replies later := by
  rw [FileClient.replies_poll hc, h.read hl hs]
  rfl

theorem Lodges.tallies {handle : Nat} (h : d.Lodges handle content)
    (hl : Lines.Legible (Lines.complete content)) : d.Tallies handle content := by
  let fresh : FileClient := { handle }
  have hstands : fresh.Stands content := stands_fresh handle content
  have hcount : Lines.countRecords (Lines.complete content) = Lines.ending content :=
    Lines.countRecords_legible hl
  have hdrop (more : List Command) : (Record.commandsFrom 0 (Lines.stored content) ++ more).drop
      (fresh.through content).offset = more :=
    List.drop_left' (Record.length_commandsFrom 0 _)
  constructor
  · obtain ⟨d', hend, -⟩ :=
      Lodges.endPosition (c := (fresh.through content).through content) h rfl
    have hnone := hdrop []
    rw [List.append_nil] at hnone
    rw [h.replies_poll hl hstands rfl, Lodges.replies_poll h hl hstands.through rfl, hnone]
    have hend : CommandLog.endPosition d ((fresh.through content).through content) = _ := hend
    simp only [FileClient.replies, LogCall.perform, hend, hcount]
    rfl
  · rintro c r rfl hc hr
    obtain ⟨d', happend, hd'⟩ := h.append hc r
    have hd' : (d'.announce c).Lodges (fresh.through content).handle (Lines.appended content r) :=
      hd'.announce
    refine ⟨d'.announce c, ?_, ?_⟩
    · have happend : CommandLog.append d c r = _ := happend
      rw [LogCall.perform, happend, hcount]
      rfl
    · rw [Lodges.replies_poll (c := fresh) h hl hstands rfl,
        hd'.replies_poll (Lines.legible_appended hr hl) (stands_appended _ _ _) rfl,
        Lines.stored_appended hr, Record.commandsFrom_append, hdrop, Nat.zero_add]
      rfl

theorem holding_lodges (content : List UInt8) : (holding content).Lodges 0 content := by
  obtain ⟨d, hopen⟩ : ∃ d, ({} : Disk).open? "log" = (.ok { handle := 0 }, d) := ⟨_, rfl⟩
  have hempty : (({} : Disk).open? "log").2.octets? "log" = some [] := by decide +kernel
  rw [holding]
  rw [hopen] at hempty ⊢
  exact .write hopen hempty content

end Disk

end StatementLog
