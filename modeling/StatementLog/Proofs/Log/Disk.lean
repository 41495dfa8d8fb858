import StatementLog.Proofs.Log.Octets
import StatementLog.Proofs.Log.Path

namespace StatementLog

open Std

namespace Extent

theorem take_scan {content : List UInt8} (h : (scan {} content).2 = 0) :
    content.take (scan {} content).1.octets = content := by
  have hs : start {} content = {} := if_neg (Nat.not_lt_zero _)
  rw [scan, hs] at h ⊢
  have h : (Lines.tail content).length = 0 := h
  have hl : 0 + Lines.completeLength content = content.length := by
    rw [Lines.completeLength, h, Nat.zero_add, Nat.sub_zero]
  exact List.take_of_length_le (Nat.le_of_eq hl.symm)

end Extent

namespace Disk

variable {d d' : Disk} {c : FileClient} {path : String}

theorem open?_ok (h : d.open? path = (.ok c, d')) :
    ∃ place lock content, c = { handle := d.handles.length } ∧
      d'.handles = d.handles ++ [{ path, place, lock, extent := (Extent.scan {} content).1 }] ∧
      d'.entries.Houses path place lock (content.take (Extent.scan {} content).1.octets) ∧
      (d.entries.makeParents path).2.resolve path = .ok place ∧
      (d.entries.makeParents path).2.resolve (lockPath path) = .ok lock ∧
      ((d.entries.makeParents path).2[place]? = some (.file content) ∨
        (d.entries.makeParents path).2[place]? = none ∧ content = []) := by
  unfold open? at h
  split at h
  · cases h
  next e₁ hm =>
  split at h
  · cases h
  next lock known e₂ hl =>
  split at h
  · cases h
  next place content e₃ hp =>
  cases h
  obtain ⟨hlock, ho₂⟩ := Entries.openPath_ok hl
  obtain ⟨hplace, ho₃⟩ := Entries.openPath_ok hp
  have hw : e₁.Within e₃ := ho₂.within.trans ho₃.within
  have hhouse : e₃.Houses path place lock content :=
    ⟨Entries.makeParents_again hm hw (.inl rfl), Entries.resolve_ok hplace ho₃.within,
      Entries.resolve_ok hlock hw, ⟨known, ho₃.kept ho₂.there⟩, ho₃.there⟩
  rw [hm]
  refine ⟨place, lock, content, rfl, rfl, ?_, Entries.resolve_ok hplace ho₂.back, hlock, ?_⟩
  · simp only
    split
    · exact hhouse.rewrite _
    · next ht =>
      rw [Extent.take_scan (Nat.eq_zero_of_not_pos ht)]
      exact hhouse
  · rcases ho₃.made ho₃.there with hc | ⟨hc, rfl⟩
    · exact ho₂.made hc
    · refine .inr ⟨?_, rfl⟩
      cases he : e₁[place]? with
      | none => rfl
      | some entry =>
        cases entry with
        | directory =>
          rw [ho₂.within place he] at hc
          cases hc
        | file known =>
          rw [ho₂.kept he] at hc
          cases hc

theorem open?_houses {place lock : Place} {content : List UInt8}
    (h : d.entries.Houses path place lock content) : ∃ c d', d.open? path = (.ok c, d') := by
  obtain ⟨known, hk⟩ := h.locked
  unfold open?
  rw [h.parents]
  simp only
  rw [Entries.openPath_of_file h.locks hk]
  simp only
  rw [Entries.openPath_of_file h.leads h.holds]
  exact ⟨_, _, rfl⟩

theorem open?_error {error : Error} (h : d.open? path = (.error error, d'))
    (hv : d.entries.Vacant path) : d'.handles = d.handles ∧ d'.entries.Vacant path := by
  unfold open? at h
  split at h
  · next hm =>
    cases h
    exact ⟨rfl, hv.extend hm .rfl .rfl (.inr rfl) .inl⟩
  next hm =>
  split at h
  · cases h
    exact ⟨rfl, hv.extend hm .rfl .rfl (.inr rfl) .inl⟩
  next hl =>
  obtain ⟨-, ho⟩ := Entries.openPath_ok hl
  split at h
  · cases h
    refine ⟨rfl, hv.extend hm ho.within ho.back (.inl rfl) fun hq => ?_⟩
    rcases ho.made hq with hq | ⟨-, rfl⟩
    · exact .inl hq
    · exact .inr List.not_mem_nil
  · cases h

def tear (d : Disk) (path : String) (octets : List UInt8) : Disk :=
  match d.octets? path with
  | none => d
  | some content => d.write path (content.take (Lines.completeLength content) ++ octets)

theorem tear_houses {place lock : Place} {content : List UInt8}
    (h : d.entries.Houses path place lock content) (octets : List UInt8) :
    d.tear path octets = { d with
      entries := d.entries.insert place
        (.file (content.take (Lines.completeLength content) ++ octets)) } := by
  rw [tear, octets?_eq_some.2 ⟨place, h.leads, h.holds⟩]
  simp only [write, put, h.leads, h.parents, h.holds]
  simp

theorem tear_vacant {octets : List UInt8} (hv : d.entries.Vacant path)
    (ho : Lines.lineFeed ∉ octets) :
    (d.tear path octets).handles = d.handles ∧ (d.tear path octets).entries.Vacant path := by
  unfold tear
  split
  · exact ⟨rfl, hv⟩
  next content hc =>
  obtain ⟨place, hres, hfile⟩ := octets?_eq_some.1 hc
  have hlf := hv.not_mem (.inl rfl) hres hfile
  have hnew : content.take (Lines.completeLength content) ++ octets = octets := by
    rw [Lines.completeLength, Lines.tail, Lines.split_tail hlf, Nat.sub_self, List.take_zero,
      List.nil_append]
  have hd : ¬ d.entries[place]? = some .directory := by rw [hfile]; simp
  rw [hnew, write, hres]
  simp only [if_neg hd, put]
  cases hm : d.entries.makeParents path with
  | mk result e₁ =>
    cases result with
    | error f => exact ⟨rfl, hv.extend hm .rfl .rfl (.inr rfl) .inl⟩
    | ok u =>
      have hto := d.entries.makeParents_within path
      have hkept := (d.entries.makeParents_file path).2 hfile
      rw [hm] at hto hkept
      simp only [Entries.resolve_ok hres hto]
      refine ⟨trivial, hv.extend hm (Entries.within_insert_file (by rw [hkept]; simp) octets)
        (Entries.insert_file_within e₁ place octets) (.inl rfl) fun {q known} hq => ?_⟩
      rw [ExtTreeMap.getElem?_insert] at hq
      split at hq
      · cases hq
        exact .inr ho
      · exact .inl hq

end Disk

section

variable (path : String) (place lock : Place)

/-- The handle is one of the log, and the extent that it knows is that of some of the records. -/
structure FileHandle.Fits (h : FileHandle) (rs : List Record) : Prop where
  path_eq : h.path = path
  place_eq : h.place = place
  lock_eq : h.lock = lock
  extent : ∃ n ≤ rs.length, h.extent = .ofFirst n rs

namespace Disk

/-- The log holds the records, and after them what belongs to no line. -/
def Stores (d : Disk) (rs : List Record) : Prop :=
  ∃ t, Lines.lineFeed ∉ t ∧ d.entries.Houses path place lock (Lines.written rs ++ t)

def Opened (d : Disk) (c : FileClient) (rs : List Record) : Prop :=
  ∃ h, d.handles[c.handle]? = some h ∧ h.Fits path place lock rs

end Disk

end

section

variable {path : String} {place lock : Place} {d : Disk} {c : FileClient} {h : FileHandle}
  {rs : List Record}

theorem FileHandle.Fits.append (hf : h.Fits path place lock rs) (rs' : List Record) :
    h.Fits path place lock (rs ++ rs') := by
  obtain ⟨n, hn, he⟩ := hf.extent
  refine ⟨hf.path_eq, hf.place_eq, hf.lock_eq, n, ?_, ?_⟩
  · rw [List.length_append]
    exact Nat.le_add_right_of_le hn
  · rw [he, Extent.ofFirst_append hn]

namespace Disk

theorem handleOf_eq (hc : d.handles[c.handle]? = some h) : d.handleOf c = h := by
  rw [handleOf, hc, Option.getD_some]

theorem Opened.set {d' : Disk} {c' : FileClient} {i : Nat} {rs' : List Record}
    (ho : d.Opened path place lock c' rs) (hd : d'.handles = d.handles.set i h)
    (hf : h.Fits path place lock rs')
    (hm : ∀ h' : FileHandle, h'.Fits path place lock rs → h'.Fits path place lock rs') :
    d'.Opened path place lock c' rs' := by
  obtain ⟨h', hc', hf'⟩ := ho
  rw [Opened, hd, List.getElem?_set]
  split
  · next he =>
    rw [he, if_pos (List.getElem?_eq_some_iff.1 hc').1]
    exact ⟨h, rfl, hf⟩
  · exact ⟨h', hc', hm h' hf'⟩

theorem Opened.of_append {d' : Disk} {hs : List FileHandle} (ho : d.Opened path place lock c rs)
    (hd : d'.handles = d.handles ++ hs) : d'.Opened path place lock c rs := by
  obtain ⟨h, hc, hf⟩ := ho
  refine ⟨h, ?_, hf⟩
  rw [hd, List.getElem?_append_left (List.getElem?_eq_some_iff.1 hc).1]
  exact hc

theorem check_open (d : Disk) {c : FileClient} (hc : c.closed = false) : d.check c = .ok () := by
  simp only [check, hc, Bool.false_eq_true, if_false]

theorem check_closed (d : Disk) {c : FileClient} (hc : c.closed = true) :
    d.check c = .error (.logUnavailable (.handleClosed (d.handleOf c).path)) := by
  simp only [check, hc, if_true]

theorem append_open (hs : d.Stores path place lock rs) (ho : d.Opened path place lock c rs)
    (hc : c.closed = false) (r : Record) :
    ∃ d', d.append c r = (.ok rs.length, d') ∧ d'.Stores path place lock (rs ++ [r]) ∧
      ∀ c', d.Opened path place lock c' rs → d'.Opened path place lock c' (rs ++ [r]) := by
  obtain ⟨t, ht, hh⟩ := hs
  obtain ⟨h, hget, hf⟩ := ho
  obtain ⟨n, hn, he⟩ := hf.extent
  obtain ⟨known, hlock⟩ := hh.locked
  have hcheck := d.check_open hc
  have hscan := Extent.scan_written hn ht
  have htake : (Lines.written rs ++ t).take (Extent.ofFirst rs.length rs).octets =
      Lines.written rs := by
    rw [Extent.ofFirst, List.take_length, List.take_left]
  have hnew : Lines.written rs ++ (Text.Utf8.encode r.line ++ [Lines.lineFeed]) =
      Lines.written (rs ++ [r]) := by
    rw [Lines.written_append]
    simp [Lines.written, Record.octets]
  have hext : (⟨(Extent.ofFirst rs.length rs).octets +
      (Text.Utf8.encode r.line ++ [Lines.lineFeed]).length,
      (Extent.ofFirst rs.length rs).records + 1⟩ : Extent) =
        .ofFirst (rs ++ [r]).length (rs ++ [r]) := by
    simp only [Extent.ofFirst, List.take_length, ← hnew]
    simp only [List.length_append, List.length_singleton]
  refine ⟨Disk.setHandle
    { d with entries := d.entries.insert place (.file (Lines.written (rs ++ [r]))) } c
    { h with extent := .ofFirst (rs ++ [r]).length (rs ++ [r]) }, ?_, ?_, ?_⟩
  · rw [append, hcheck, handleOf_eq hget]
    simp only [hf.lock_eq, hf.place_eq, he, Entries.openFile_of_file hlock,
      Entries.openFile_of_file hh.holds, hscan, htake, hnew, hext]
    rfl
  · refine ⟨[], List.not_mem_nil, ?_⟩
    rw [List.append_nil]
    exact hh.rewrite _
  · exact fun c' ho' => ho'.set rfl
      ⟨hf.path_eq, hf.place_eq, hf.lock_eq, _, Nat.le_refl _, rfl⟩ fun h' hf' => hf'.append [r]

theorem endPosition_open (hs : d.Stores path place lock rs) (ho : d.Opened path place lock c rs)
    (hc : c.closed = false) :
    ∃ d', d.endPosition c = (.ok rs.length, d') ∧ d'.Stores path place lock rs ∧
      ∀ c', d.Opened path place lock c' rs → d'.Opened path place lock c' rs := by
  obtain ⟨t, ht, hh⟩ := hs
  obtain ⟨h, hget, hf⟩ := ho
  obtain ⟨n, hn, he⟩ := hf.extent
  have hcheck := d.check_open hc
  refine ⟨d.setHandle c { h with extent := .ofFirst rs.length rs }, ?_, ⟨t, ht, hh⟩, ?_⟩
  · rw [endPosition, hcheck, handleOf_eq hget]
    simp only [hf.place_eq, Entries.content?, hh.holds, he, Extent.scan_written hn ht]
    rfl
  · exact fun c' ho' => ho'.set rfl
      ⟨hf.path_eq, hf.place_eq, hf.lock_eq, _, Nat.le_refl _, rfl⟩ fun _ => id

theorem read_open (hs : d.Stores path place lock rs) (ho : d.Opened path place lock c rs)
    (hr : ∀ r ∈ rs, r.Readable) {n : Nat} (hn : n ≤ rs.length) (hoffset : c.offset = n)
    (hoctets : c.octets = (Lines.written (rs.take n)).length) :
    d.read c = (.ok (Record.commandsFrom n (rs.drop n)),
      { c with
        octets := (Lines.written rs).length, offset := rs.length, position := rs.length }) := by
  obtain ⟨t, ht, hh⟩ := hs
  obtain ⟨h, hget, hf⟩ := ho
  have hdrop : ∀ r ∈ rs.drop n, r.Readable := fun r hm => hr r (List.mem_of_mem_drop hm)
  rw [read, handleOf_eq hget, hf.place_eq]
  simp only [Entries.content?, hh.holds, Option.getD_some, hoctets, hoffset, Lines.drop_written,
    Lines.complete_written _ ht, Lines.completeLength_written _ ht, Lines.readFrom_octets hdrop,
    Lines.length_written_take, List.length_drop, Nat.add_sub_cancel' hn]

theorem announce_open (hs : d.Stores path place lock rs) (ho : d.Opened path place lock c rs) :
    (d.announce c).Stores path place lock rs ∧
      ∀ c', d.Opened path place lock c' rs → (d.announce c).Opened path place lock c' rs := by
  obtain ⟨h, hget, hf⟩ := ho
  have hd : (d.announce c).handles = d.handles.set c.handle { h with epoch := h.epoch + 1 } := by
    rw [announce, handleOf_eq hget]
    rfl
  exact ⟨hs, fun c' ho' => ho'.set hd
    ⟨hf.path_eq, hf.place_eq, hf.lock_eq, hf.extent⟩ fun _ => id⟩

theorem epoch_read (d : Disk) (c : FileClient) :
    CommandLog.epoch d (CommandLog.read d c).2 = CommandLog.epoch d c := by
  simp only [CommandLog.epoch, CommandLog.read, read]
  split
  · rfl
  · split <;> rfl

end Disk

end

end StatementLog
