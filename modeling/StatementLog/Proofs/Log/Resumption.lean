import Mathlib.Data.List.Chain
import StatementLog.Proofs.Log.Growth

namespace StatementLog

theorem Lines.front_append {octets : List UInt8} (h : tail octets = []) (more : List UInt8) :
    front (octets ++ more) = octets ++ front more := by
  rw [front, completeLength_append h, List.take_length_add_append, front]

namespace Extent

/-- The lines that were complete are there still, or the file is shorter than they were. -/
def Follows (before after : List UInt8) : Prop :=
  after.take (scan {} before).1.octets = before.take (scan {} before).1.octets ∨
    after.length < (scan {} before).1.octets

instance (before after : List UInt8) : Decidable (Follows before after) :=
  inferInstanceAs (Decidable (_ ∨ _))

def Suits (known : Extent) (content : List UInt8) : Prop :=
  known.scan content = scan {} content

/-- What is known when the contents have been scanned one after the other. -/
def along (contents : List (List UInt8)) : Extent :=
  contents.foldl (fun known content => (known.scan content).1) {}

theorem suits_nothing (content : List UInt8) : ({} : Extent).Suits content :=
  rfl

theorem Within.suits {known : Extent} {content : List UInt8} (h : known.Within content) :
    known.Suits content := by
  rw [Suits, h.scan, scan_nothing]

theorem suits_of_lt {known : Extent} {content : List UInt8} (h : content.length < known.octets) :
    known.Suits content := by
  rw [Suits, scan, scan, start, if_pos h, start, if_neg (Nat.not_lt_zero _)]

variable {before after content : List UInt8} {contents : List (List UInt8)}

theorem Follows.suits (h : Follows before after) : (scan {} before).1.Suits after := by
  rcases h with hkept | hshort
  · refine Within.suits ?_
    obtain ⟨-, hlength, htail, hcomplete⟩ := Lines.front_spec before
    rw [scan_nothing] at hkept ⊢
    have hfront : after = Lines.front before ++ after.drop (Lines.completeLength before) := by
      rw [Lines.front, ← hkept, List.take_append_drop]
    exact ⟨Lines.front before, _, hfront, htail, by rw [hlength, hcomplete]⟩
  · exact suits_of_lt hshort

-- lines that others have replaced, and made no shorter, are not looked at again
example : ¬ Follows [97, 10] [10, 10, 97, 10] ∧
    (scan {} [97, 10]).1.scan [10, 10, 97, 10] ≠ scan {} [10, 10, 97, 10] := by
  decide

theorem follows_of_front (h : Lines.front before <+: after) : Follows before after := by
  obtain ⟨more, rfl⟩ := h
  obtain ⟨-, hlength, -, -⟩ := Lines.front_spec before
  refine .inl ?_
  rw [scan_nothing, ← hlength, List.take_left, hlength, Lines.front]

theorem follows_take (content : List UInt8) (n : Nat) : Follows content (content.take n) := by
  by_cases hn : (scan {} content).1.octets ≤ n
  · exact .inl (by rw [List.take_take, Nat.min_eq_left hn])
  · refine .inr ?_
    rw [List.length_take]
    omega

theorem scan_front (content : List UInt8) :
    (scan {} (Lines.front content)).1 = (scan {} content).1 := by
  obtain ⟨-, hlength, htail, hcomplete⟩ := Lines.front_spec content
  rw [scan_nothing, scan_nothing, Lines.completeLength, htail, hlength, hcomplete]
  rfl

theorem scan_appended (content : List UInt8) (r : Record) :
    (scan {} (Lines.appended content r)).1 =
      ⟨(scan {} content).1.octets + (r.octets ++ [Lines.lineFeed]).length,
        (scan {} content).1.records + 1⟩ := by
  obtain ⟨htail, -⟩ := Lines.appended_spec content r
  rw [scan_nothing, scan_nothing, Lines.completeLength, htail]
  exact (extent_appended content r).symm

theorem along_concat (contents : List (List UInt8)) (content : List UInt8) :
    along (contents ++ [content]) = ((along contents).scan content).1 := by
  rw [along, List.foldl_concat, along]

theorem along_suits (h : (contents ++ [content]).IsChain Follows) :
    (along contents).Suits content := by
  induction contents using List.reverseRecOn generalizing content with
  | nil => exact suits_nothing content
  | append_singleton contents last ih =>
    have hlast : (along contents).Suits last := ih h.left_of_append
    have hfollows : Follows last content := by
      rw [List.append_assoc] at h
      exact List.isChain_pair.1 h.right_of_append
    rw [along_concat, hlast]
    exact hfollows.suits

end Extent

namespace Entries

def held (e : Entries) (place : Place) : List UInt8 :=
  (e.content? place).toOption.join.getD []

theorem held_of_file {e : Entries} {place : Place} {content : List UInt8}
    (h : e[place]? = some (.file content)) : e.held place = content := by
  rw [held, content?, h]
  rfl

theorem held_eq_nil {e : Entries} {place : Place}
    (h : ∀ content, e[place]? ≠ some (.file content)) : e.held place = [] := by
  unfold held content?
  split
  · next content hfile => exact absurd hfile (h content)
  · rfl
  · rfl

theorem held_congr {e e' : Entries} {q : Place}
    (h : ∀ content, e'[q]? = some (.file content) ↔ e[q]? = some (.file content)) :
    e'.held q = e.held q := by
  by_cases hq : ∃ content, e[q]? = some (.file content)
  · obtain ⟨content, hq⟩ := hq
    rw [held_of_file hq, held_of_file ((h content).2 hq)]
  · rw [held_eq_nil fun content he => hq ⟨content, he⟩,
      held_eq_nil fun content he => hq ⟨content, (h content).1 he⟩]

theorem held_makeParents (e : Entries) (path : String) (q : Place) :
    (e.makeParents path).2.held q = e.held q :=
  held_congr fun _ => e.makeParents_file path

theorem held_insert (e : Entries) (place q : Place) (content : List UInt8) :
    held (e.insert place (.file content)) q = if place = q then content else e.held q := by
  split
  · next hq =>
    subst hq
    exact held_of_file (by simp)
  · next hq =>
    have hother : (e.insert place (.file content))[q]? = e[q]? := by
      rw [Std.ExtTreeMap.getElem?_insert, if_neg fun he => hq (Std.compare_eq_iff_eq.1 he)]
    rw [held, content?, hother, held, content?]

theorem Opens.held_eq {e e' : Entries} {place : Place} {content : List UInt8}
    (h : e.Opens e' place content) (q : Place) : e'.held q = e.held q := by
  by_cases hq : ∃ known, e[q]? = some (.file known)
  · obtain ⟨known, hq⟩ := hq
    rw [held_of_file hq, held_of_file (h.kept hq)]
  · have hq (known : List UInt8) : e[q]? ≠ some (.file known) := fun he => hq ⟨known, he⟩
    rw [held_eq_nil hq]
    cases he' : e'[q]? with
    | none => exact held_eq_nil fun known he => by rw [he'] at he; cases he
    | some entry =>
      cases entry with
      | directory => exact held_eq_nil fun known he => by rw [he'] at he; cases he
      | file known =>
        rcases h.made he' with he | ⟨-, rfl⟩
        · exact absurd he (hq known)
        · exact held_of_file he'

def Spares (e e' : Entries) : Prop :=
  ∀ q, Lines.front (e.held q) <+: e'.held q

variable {e e' : Entries}

theorem spares_of_held (h : ∀ q, e'.held q = e.held q) : e.Spares e' := by
  intro q
  rw [h q]
  exact List.take_prefix ..

theorem spares_insert {place : Place} {content : List UInt8} (h : ∀ q, e'.held q = e.held q)
    (hc : Lines.front (e.held place) <+: content) :
    e.Spares (e'.insert place (.file content)) := by
  intro q
  rw [held_insert]
  split
  · next hq =>
    subst hq
    exact hc
  · exact spares_of_held h q

theorem Spares.prefix {content : List UInt8} {q : Place} (h : e.Spares e')
    (hc : Lines.front content <+: e.held q) : Lines.front content <+: e'.held q := by
  obtain ⟨-, -, htail, -⟩ := Lines.front_spec content
  obtain ⟨more, hmore⟩ := hc
  have hfront := h q
  rw [← hmore, Lines.front_append htail] at hfront
  exact (List.prefix_append ..).trans hfront

end Entries

namespace Disk

variable {d : Disk} {c : FileClient}

def holds (d : Disk) (c : FileClient) : List UInt8 :=
  d.entries.held (d.handleOf c).place

def views (d : Disk) : List (Place × Extent) :=
  d.handles.map fun h => (h.place, h.extent)

def knowing (d : Disk) (c : FileClient) (known : Extent) : Disk :=
  d.setHandle c { d.handleOf c with extent := known }

theorem length_views (d : Disk) : d.views.length = d.handles.length := by
  rw [views, List.length_map]

theorem getElem?_views (hc : c.handle < d.handles.length) :
    d.views[c.handle]? = some ((d.handleOf c).place, (d.handleOf c).extent) := by
  rw [views, List.getElem?_map, handleOf, List.getElem?_eq_getElem hc]
  rfl

theorem handleOf_setHandle (hc : c.handle < d.handles.length) (h : FileHandle) :
    (d.setHandle c h).handleOf c = h := by
  rw [handleOf, setHandle, List.getElem?_set_self hc, Option.getD_some]

theorem handleOf_knowing (hc : c.handle < d.handles.length) (known : Extent) :
    (d.knowing c known).handleOf c = { d.handleOf c with extent := known } :=
  handleOf_setHandle hc _

theorem setHandle_knowing (d : Disk) (c : FileClient) (known : Extent) (entries : Entries)
    (h : FileHandle) : ({ d.knowing c known with entries } : Disk).setHandle c h =
      ({ d with entries } : Disk).setHandle c h := by
  simp only [knowing, setHandle, List.set_set]

theorem knowing_self (hc : c.handle < d.handles.length) :
    d.knowing c (d.handleOf c).extent = d := by
  rw [knowing, setHandle, handleOf, List.getElem?_eq_getElem hc, Option.getD_some,
    List.set_getElem_self]

theorem views_knowing (d : Disk) (c : FileClient) (known : Extent) :
    (d.knowing c known).views = d.views.set c.handle ((d.handleOf c).place, known) := by
  rw [views, knowing, setHandle, List.map_set, views]

theorem views_announce (hc : c.handle < d.handles.length) : (d.announce c).views = d.views := by
  have hset : (d.announce c).views =
      d.views.set c.handle ((d.handleOf c).place, (d.handleOf c).extent) := by
    rw [views, announce, setHandle, List.map_set, views]
  rw [hset, ← views_knowing, knowing_self hc]

theorem place_eq_of_views {d' : Disk} (hc : c.handle < d.handles.length) (h : d'.views = d.views) :
    (d'.handleOf c).place = (d.handleOf c).place := by
  have hc' : c.handle < d'.handles.length := by
    rwa [← d'.length_views, h, d.length_views]
  have hview := getElem?_views hc'
  rw [h, getElem?_views hc] at hview
  exact (congrArg Prod.fst (Option.some.inj hview)).symm

theorem handleOf_announce (hc : c.handle < d.handles.length) :
    (d.announce c).handleOf c = { d.handleOf c with epoch := (d.handleOf c).epoch + 1 } :=
  handleOf_setHandle hc _

theorem announce_knowing (hc : c.handle < d.handles.length) (known : Extent) :
    (d.knowing c known).announce c = (d.announce c).knowing c known := by
  calc (d.knowing c known).announce c
      = d.setHandle c
          { d.handleOf c with extent := known, epoch := (d.handleOf c).epoch + 1 } := by
        rw [announce, handleOf_knowing hc]
        exact setHandle_knowing d c known d.entries _
    _ = (d.announce c).knowing c known := by
        rw [knowing, handleOf_announce hc]
        simp only [announce, setHandle, List.set_set]

theorem holds_knowing (hc : c.handle < d.handles.length) (known : Extent) :
    (d.knowing c known).holds c = d.holds c := by
  rw [holds, handleOf_knowing hc]
  rfl

theorem holds_announce (hc : c.handle < d.handles.length) :
    (d.announce c).holds c = d.holds c := by
  rw [holds, handleOf_announce hc, holds]
  rfl

theorem check_knowing (hc : c.handle < d.handles.length) (known : Extent) :
    (d.knowing c known).check c = d.check c := by
  rw [check, handleOf_knowing hc, check]

theorem read_knowing (hc : c.handle < d.handles.length) (known : Extent) :
    (d.knowing c known).read c = d.read c := by
  rw [read, handleOf_knowing hc, read]
  rfl

theorem views_open?_error {path : String} {e : Error} {d' : Disk}
    (h : d.open? path = (.error e, d')) : d'.views = d.views := by
  unfold open? at h
  split at h
  · cases h
    rfl
  split at h
  · cases h
    rfl
  split at h
  · cases h
    rfl
  · cases h

theorem views_open? {path : String} {d' : Disk} (h : d.open? path = (.ok c, d')) :
    c.handle = d.handles.length ∧
      ∃ place left, d'.views = d.views ++ [(place, (Extent.scan {} left).1)] ∧
        d'.holds c = left ∧ d'.entries.held place = left := by
  obtain ⟨place, lock, content, rfl, hhandles, hhouse, -⟩ := open?_ok h
  have hget : d'.handles[d.handles.length]? =
      some { path, place, lock, extent := (Extent.scan {} content).1 } := by
    rw [hhandles, List.getElem?_concat_length]
  have hfront : content.take (Extent.scan {} content).1.octets = Lines.front content := by
    rw [Extent.scan_nothing]
    rfl
  have hheld : d'.entries.held place = Lines.front content := by
    rw [Entries.held_of_file hhouse.holds, hfront]
  refine ⟨rfl, place, Lines.front content, ?_, ?_, hheld⟩
  · rw [views, hhandles, List.map_append, views, Extent.scan_front]
    rfl
  · rw [holds, handleOf_eq hget, hheld]

theorem open?_spares (d : Disk) (path : String) : d.entries.Spares (d.open? path).2.entries := by
  unfold open?
  have h₁ := d.entries.held_makeParents path
  cases hm : d.entries.makeParents path with
  | mk result e₁ =>
  rw [hm] at h₁
  cases result with
  | error f => exact Entries.spares_of_held h₁
  | ok _ =>
  simp only
  cases hl : e₁.openPath (lockPath path) with
  | error f => exact Entries.spares_of_held h₁
  | ok found =>
  obtain ⟨lock, known, e₂⟩ := found
  have h₂ (q : Place) : e₂.held q = d.entries.held q :=
    ((Entries.openPath_ok hl).2.held_eq q).trans (h₁ q)
  simp only
  cases hp : e₂.openPath path with
  | error f => exact Entries.spares_of_held h₂
  | ok found =>
  obtain ⟨place, content, e₃⟩ := found
  obtain ⟨-, hopens⟩ := Entries.openPath_ok hp
  have h₃ (q : Place) : e₃.held q = d.entries.held q := (hopens.held_eq q).trans (h₂ q)
  simp only
  split
  · refine Entries.spares_insert h₃ ?_
    rw [← h₃ place, Entries.held_of_file hopens.there, Extent.scan_nothing]
    exact List.prefix_refl _
  · exact Entries.spares_of_held h₃

theorem append_knowing (hc : c.handle < d.handles.length) (r : Record) :
    (∃ e, ∃ entries : Entries, (∀ q, entries.held q = d.entries.held q) ∧
        ∀ known, (d.knowing c known).append c r =
          (.error e, ({ d with entries } : Disk).knowing c known)) ∨
      ∃ entries : Entries, (∀ q, entries.held q = d.entries.held q) ∧
        ∀ known : Extent, ∃ n content extent,
        (d.knowing c known).append c r = (.ok n, ({ d with
          entries := entries.insert (d.handleOf c).place (.file content) } : Disk).knowing c
            extent) ∧
          (known.Suits (d.holds c) → n = (Extent.scan {} (d.holds c)).1.records ∧
            content = Lines.appended (d.holds c) r ∧ extent = (Extent.scan {} content).1) := by
  cases hcheck : d.check c with
  | error e =>
    refine .inl ⟨e, d.entries, fun _ => rfl, fun known => ?_⟩
    rw [append, check_knowing hc, hcheck]
  | ok _ =>
  have hopen (known : Extent) : (d.knowing c known).check c = .ok () :=
    (check_knowing hc known).trans hcheck
  cases hlock : d.entries.openFile (d.handleOf c).lock with
  | error f =>
    refine .inl ⟨fault f, d.entries, fun _ => rfl, fun known => ?_⟩
    have hlock : (d.knowing c known).entries.openFile (d.handleOf c).lock = .error f := hlock
    rw [append, hopen, handleOf_knowing hc]
    simp only [hlock]
  | ok found =>
  obtain ⟨_, entries⟩ := found
  have hlocked (known : Extent) :
      (d.knowing c known).entries.openFile (d.handleOf c).lock = .ok (_, entries) := hlock
  have hkept := (Entries.openFile_opens hlock).held_eq
  cases hplace : entries.openFile (d.handleOf c).place with
  | error f =>
    refine .inl ⟨fault f, entries, hkept, fun known => ?_⟩
    rw [append, hopen, handleOf_knowing hc]
    simp only [hlocked, hplace]
    rfl
  | ok found =>
  obtain ⟨content, entries'⟩ := found
  have hopens := Entries.openFile_opens hplace
  have hkept' (q : Place) : entries'.held q = d.entries.held q :=
    (hopens.held_eq q).trans (hkept q)
  -- the lock may be new, or even stand in the place of the log
  have hcontent : content = d.holds c := by
    rw [← Entries.held_of_file hopens.there, hkept', holds]
  refine .inr ⟨entries', hkept', fun known => ?_⟩
  let line := r.octets ++ [Lines.lineFeed]
  let extent := (known.scan (d.holds c)).1
  refine ⟨extent.records, (d.holds c).take extent.octets ++ line,
    ⟨extent.octets + line.length, extent.records + 1⟩, ?_, fun hk => ?_⟩
  · rw [append, hopen, handleOf_knowing hc]
    simp only [hlocked, hplace, setHandle_knowing, hcontent]
    rfl
  · have hextent : extent = (Extent.scan {} (d.holds c)).1 := congrArg Prod.fst hk
    have hcontent : (d.holds c).take extent.octets ++ line = Lines.appended (d.holds c) r := by
      rw [hextent, Extent.scan_nothing]
      rfl
    rw [hcontent, Extent.scan_appended, hextent]
    exact ⟨rfl, rfl, rfl⟩

theorem endPosition_knowing (hc : c.handle < d.handles.length) :
    (∃ e, ∀ known, (d.knowing c known).endPosition c = (.error e, d.knowing c known)) ∨
      ∀ known : Extent, ∃ extent : Extent,
        (d.knowing c known).endPosition c = (.ok extent.records, d.knowing c extent) ∧
          (known.Suits (d.holds c) → extent = (Extent.scan {} (d.holds c)).1) := by
  cases hcheck : d.check c with
  | error e =>
    refine .inl ⟨e, fun known => ?_⟩
    rw [endPosition, check_knowing hc, hcheck]
  | ok _ =>
  have hopen (known : Extent) : (d.knowing c known).check c = .ok () :=
    (check_knowing hc known).trans hcheck
  have hentries (known : Extent) : (d.knowing c known).entries = d.entries := rfl
  cases hfound : d.entries.content? (d.handleOf c).place with
  | error f =>
    refine .inl ⟨fault f, fun known => ?_⟩
    rw [endPosition, hopen, handleOf_knowing hc, hentries]
    simp only [hfound]
  | ok found =>
  refine .inr fun known => ?_
  have hholds : d.holds c = found.getD [] := by
    rw [holds, Entries.held, hfound]
    rfl
  have hset (extent : Extent) : (d.knowing c known).setHandle c { d.handleOf c with extent } =
      d.knowing c extent := setHandle_knowing d c known d.entries _
  rw [endPosition, hopen, handleOf_knowing hc, hentries, hholds]
  cases found with
  | none =>
    refine ⟨{}, ?_, fun _ => rfl⟩
    simp only [hfound, hset]
  | some content =>
    refine ⟨(known.scan content).1, ?_, congrArg Prod.fst⟩
    simp only [hfound, hset]

end Disk

namespace LogCall

def scans : LogCall → Bool
  | append _ | endPosition => true
  | poll | position | rewind | close => false

/-- What the call finds in the file and what it leaves there, if it comes to look for the end. -/
def sights (call : LogCall) (d : Disk) (c : FileClient) : List (List UInt8) :=
  match (call.perform d c).1 with
  | .error _ => []
  | .ok _ => if call.scans then [d.holds c, (call.perform d c).2.1.holds c] else []

inductive Course (call : LogCall) (d : Disk) (c : FileClient) : Prop where
  | aside {reply : Reply} {d' : Disk} {c' : FileClient}
    (performs : ∀ known, call.perform (d.knowing c known) c = (reply, d'.knowing c known, c'))
    (views : d'.views = d.views) (held : ∀ q, d'.entries.held q = d.entries.held q)
    (handle : c'.handle = c.handle) (sights : call.sights d c = [])
  | scan (answer : Answer) (left : Disk) (scans : call.scans = true)
    (performs : ∀ known : Extent, ∃ a d' extent,
      call.perform (d.knowing c known) c = (.ok a, Disk.knowing d' c extent, c) ∧
        d'.views = d.views ∧ (known.Suits (d.holds c) →
          a = answer ∧ d' = left ∧ extent = (Extent.scan {} (left.holds c)).1))
    (spares : d.entries.Spares left.entries)

variable {d : Disk} {c : FileClient}

theorem sights_of_not_scans {call : LogCall} (h : call.scans = false) : call.sights d c = [] := by
  rw [sights, h]
  split <;> rfl

theorem sights_of_error {call : LogCall} {e : Error} (h : (call.perform d c).1 = .error e) :
    call.sights d c = [] := by
  rw [sights, h]

theorem sights_of_ok {call : LogCall} {a : Answer} (hs : call.scans = true)
    (h : (call.perform d c).1 = .ok a) :
    call.sights d c = [d.holds c, (call.perform d c).2.1.holds c] := by
  rw [sights, h, hs]
  rfl

theorem Course.of_error {call : LogCall} {e : Error} {d' : Disk} (hc : c.handle < d.handles.length)
    (h : ∀ known, call.perform (d.knowing c known) c = (.error e, d'.knowing c known, c))
    (views : d'.views = d.views) (held : ∀ q, d'.entries.held q = d.entries.held q) :
    call.Course d c := by
  have hself := h (d.handleOf c).extent
  rw [Disk.knowing_self hc] at hself
  exact .aside h views held rfl (sights_of_error (congrArg Prod.fst hself))

theorem course_append (hc : c.handle < d.handles.length) (r : Record) :
    (append r).Course d c := by
  rcases Disk.append_knowing hc r with ⟨e, entries, hkept, happend⟩ | ⟨entries, hkept, happend⟩
  · have hperform (known : Extent) : (append r).perform (d.knowing c known) c =
        (.error e, ({ d with entries } : Disk).knowing c known, c) := by
      have happend : CommandLog.append (d.knowing c known) c r = _ := happend known
      rw [perform, happend]
    exact .of_error hc hperform rfl hkept
  · let written (content : List UInt8) : Disk :=
      { d with entries := entries.insert (d.handleOf c).place (.file content) }
    have hlength (content : List UInt8) : c.handle < (written content).handles.length := hc
    have hholds (content : List UInt8) : ((written content).announce c).holds c = content := by
      have hfile : (written content).entries[(d.handleOf c).place]? = some (.file content) := by
        simp [written]
      rw [Disk.holds_announce (hlength content)]
      exact Entries.held_of_file hfile
    have hspares := Entries.spares_insert hkept (List.prefix_append (Lines.front (d.holds c))
      (r.octets ++ [Lines.lineFeed]))
    refine .scan (.appended (Extent.scan {} (d.holds c)).1.records)
      ((written (Lines.appended (d.holds c) r)).announce c) rfl (fun known => ?_) hspares
    obtain ⟨n, content, extent, happend, hsuits⟩ := happend known
    have happend : CommandLog.append (d.knowing c known) c r = _ := happend
    refine ⟨.appended n, (written content).announce c, extent, ?_,
      Disk.views_announce (hlength content), fun hk => ?_⟩
    · rw [perform, happend, ← Disk.announce_knowing (hlength content)]
      rfl
    · obtain ⟨rfl, rfl, rfl⟩ := hsuits hk
      rw [hholds]
      exact ⟨rfl, rfl, rfl⟩

theorem course_endPosition (hc : c.handle < d.handles.length) : endPosition.Course d c := by
  rcases Disk.endPosition_knowing hc with ⟨e, hend⟩ | hend
  · have hperform (known : Extent) :
        endPosition.perform (d.knowing c known) c = (.error e, d.knowing c known, c) := by
      have hend : CommandLog.endPosition (d.knowing c known) c = _ := hend known
      rw [perform, hend]
      rfl
    exact .of_error hc hperform rfl fun _ => rfl
  · refine .scan (.ending (Extent.scan {} (d.holds c)).1.records) d rfl (fun known => ?_)
      (Entries.spares_of_held fun _ => rfl)
    obtain ⟨extent, hend, hextent⟩ := hend known
    have hend : CommandLog.endPosition (d.knowing c known) c = _ := hend
    refine ⟨.ending extent.records, d, extent, ?_, rfl, fun hk => ?_⟩
    · rw [perform, hend]
      rfl
    · rw [hextent hk]
      exact ⟨rfl, rfl, rfl⟩

theorem course (hc : c.handle < d.handles.length) (call : LogCall) : call.Course d c := by
  cases call with
  | append r => exact course_append hc r
  | endPosition => exact course_endPosition hc
  | poll =>
    have hread (known : Extent) : CommandLog.read (d.knowing c known) c = CommandLog.read d c :=
      Disk.read_knowing hc known
    have hperform (known : Extent) : poll.perform (d.knowing c known) c =
        ((poll.perform d c).1, d.knowing c known, (poll.perform d c).2.2) := by
      have hcheck : CommandLog.check (d.knowing c known) c = CommandLog.check d c :=
        Disk.check_knowing hc known
      rw [perform, perform, hcheck, hread]
      cases CommandLog.check d c <;> rfl
    refine .aside hperform rfl (fun _ => rfl) ?_ (sights_of_not_scans rfl)
    rw [perform]
    split
    · rfl
    · exact d.handle_read c
  | position => exact .aside (fun _ => rfl) rfl (fun _ => rfl) rfl (sights_of_not_scans rfl)
  | rewind =>
    have hperform (known : Extent) : rewind.perform (d.knowing c known) c =
        ((rewind.perform d c).1, d.knowing c known, (rewind.perform d c).2.2) := by
      have hcheck : CommandLog.check (d.knowing c known) c = CommandLog.check d c :=
        Disk.check_knowing hc known
      rw [perform, perform, hcheck]
      cases CommandLog.check d c <;> rfl
    refine .aside hperform rfl (fun _ => rfl) ?_ (sights_of_not_scans rfl)
    rw [perform]
    split <;> rfl
  | close =>
    have hperform (known : Extent) : close.perform (d.knowing c known) c =
        (.ok .done, (d.announce c).knowing c known, { c with closed := true }) := by
      rw [← Disk.announce_knowing hc]
      rfl
    exact .aside hperform (Disk.views_announce hc) (fun _ => rfl) rfl (sights_of_not_scans rfl)

end LogCall

namespace Disk

variable {d : Disk} {c : FileClient}

/-- The handle of the client might as well have seen nothing of its file, or anything else that what
is there now follows upon. -/
structure Resumes (d : Disk) (c : FileClient) : Prop where
  scan : (d.handleOf c).extent.scan (d.holds c) = Extent.scan {} (d.holds c)
  appends (r : Record) :
    (d.append c r).1 = .ok (Lines.countRecords (Lines.complete (d.holds c))) ∨
      ∃ e, ∀ known, ((d.knowing c known).append c r).1 = .error e
  ends : (d.endPosition c).1 = .ok (Lines.countRecords (Lines.complete (d.holds c))) ∨
    ∃ e, ∀ known, ((d.knowing c known).endPosition c).1 = .error e
  calls (contents : List (List UInt8)) : (contents ++ [d.holds c]).IsChain Extent.Follows →
    ∀ call : LogCall,
      let other := call.perform (d.knowing c (.along contents)) c
      other.1 = (call.perform d c).1 ∧ other.2.1.entries = (call.perform d c).2.1.entries ∧
        other.2.2 = (call.perform d c).2.2

theorem resumes_of_suits (hc : c.handle < d.handles.length)
    (hown : (d.handleOf c).extent.Suits (d.holds c)) : d.Resumes c where
  scan := hown
  appends r := by
    rcases append_knowing hc r with ⟨e, entries, -, happend⟩ | ⟨entries, -, happend⟩
    · exact .inr ⟨e, fun known => by rw [happend known]⟩
    · obtain ⟨n, content, extent, happend, hsuits⟩ := happend (d.handleOf c).extent
      rw [knowing_self hc] at happend
      rw [happend, (hsuits hown).1, Extent.scan_nothing]
      exact .inl rfl
  ends := by
    rcases endPosition_knowing hc with ⟨e, hend⟩ | hend
    · exact .inr ⟨e, fun known => by rw [hend known]⟩
    · obtain ⟨extent, hend, hextent⟩ := hend (d.handleOf c).extent
      rw [knowing_self hc] at hend
      rw [hend, hextent hown, Extent.scan_nothing]
      exact .inl rfl
  calls contents h call := by
    have hother : (Extent.along contents).Suits (d.holds c) := Extent.along_suits h
    cases LogCall.course hc call with
    | aside performs _ _ _ _ =>
      have hself := performs (d.handleOf c).extent
      rw [knowing_self hc] at hself
      rw [performs, hself]
      exact ⟨rfl, rfl, rfl⟩
    | scan answer left _ performs _ =>
      obtain ⟨a, d', extent, hself, -, hsuits⟩ := performs (d.handleOf c).extent
      obtain ⟨a', d'', extent', hperform, -, hsuits'⟩ := performs (.along contents)
      obtain ⟨rfl, rfl, rfl⟩ := hsuits hown
      obtain ⟨rfl, rfl, rfl⟩ := hsuits' hother
      rw [knowing_self hc] at hself
      rw [hperform, hself]
      exact ⟨rfl, rfl, rfl⟩

end Disk

end StatementLog
