import StatementLog.Log.Disk
import StatementLog.Proofs.Log.Octets

namespace StatementLog

open Std

namespace Entries

def Within (e e' : Entries) : Prop :=
  ∀ p : Place, e[p]? = some .directory → e'[p]? = some .directory

variable {e e' e'' : Entries} {place q : Place} {name path : String} {names : List String}
  {content : List UInt8}

theorem Within.rfl : e.Within e :=
  fun _ h => h

theorem Within.trans (h : e.Within e') (h' : e'.Within e'') : e.Within e'' :=
  fun p hp => h' p (h p hp)

theorem within_insert_directory (e : Entries) (place : Place) :
    e.Within (e.insert place .directory) := by
  intro p hp
  rw [ExtTreeMap.getElem?_insert]
  split
  · rfl
  · exact hp

theorem within_insert_file (h : e[place]? ≠ some .directory) (content : List UInt8) :
    e.Within (e.insert place (.file content)) := by
  intro p hp
  rw [ExtTreeMap.getElem?_insert]
  split
  · next he =>
    cases Std.compare_eq_iff_eq.1 he
    exact absurd hp h
  · exact hp

theorem insert_file_within (e : Entries) (place : Place) (content : List UInt8) :
    Within (e.insert place (.file content)) e := by
  intro p hp
  rw [ExtTreeMap.getElem?_insert] at hp
  split at hp
  · cases hp
  · exact hp

theorem enter_ok (h : e.enter place name = .ok q) (hw : e.Within e') :
    e'.enter place name = .ok q := by
  unfold enter at h ⊢
  split at h
  · next hs => rwa [if_pos hs]
  next hs =>
  rw [if_neg hs]
  split at h
  · next hd => rwa [if_pos hd]
  next hd =>
  rw [if_neg hd]
  split at h
  · cases h
  next hl =>
  rw [if_neg hl]
  split at h
  · cases h
  · cases h
  · next he => rwa [hw _ he]

theorem enter_missing (h : e.enter place name = .error .missing) :
    Path.isStep name = true ∧ Path.isTooLong name = false ∧ e[name :: place]? = none := by
  unfold enter at h
  split at h
  · cases h
  next hs =>
  split at h
  · cases h
  split at h
  · cases h
  next hl =>
  split at h
  · next hn => exact ⟨by simpa using hs, by simpa using hl, hn⟩
  · cases h
  · cases h

theorem enter_made (h : e.enter place name = .error .missing) (hd : name ≠ "..")
    (hn : e'[name :: place]? = some .directory) : e'.enter place name = .ok (name :: place) := by
  obtain ⟨hs, hl, -⟩ := enter_missing h
  simp [enter, hs, hd, hl, hn]

theorem follow_ok (h : e.follow place names = .ok q) (hw : e.Within e') :
    e'.follow place names = .ok q := by
  induction names generalizing place with
  | nil => exact h
  | cons name names ih =>
    cases names with
    | nil =>
      rw [follow] at h ⊢
      split at h
      · next hs =>
        rw [if_pos hs]
        exact enter_ok h hw
      · next hs => rwa [if_neg hs]
    | cons name' names =>
      rw [follow] at h ⊢
      · cases he : e.enter place name with
        | error f =>
          rw [he] at h
          cases h
        | ok place' =>
          rw [he] at h
          rw [enter_ok he hw]
          exact ih h
      · simp
      · simp

theorem resolve_ok (h : e.resolve path = .ok q) (hw : e.Within e') : e'.resolve path = .ok q := by
  unfold resolve at h ⊢
  split at h
  · cases h
  next hn =>
  rw [if_neg hn]
  split at h
  · cases h
  next hl =>
  rw [if_neg hl]
  exact follow_ok h hw

theorem makeDirectories_within (e : Entries) (place : Place) (names : List String) :
    e.Within (e.makeDirectories place names).2 := by
  induction e, place, names using makeDirectories.induct with
  | case1 e place => exact .rfl
  | case2 e place names ih =>
    rw [makeDirectories]
    exact ih
  | case3 e place name names hd place' he ih =>
    rw [makeDirectories, he]
    · exact ih
    · exact hd
  | case4 e place name names hd he ih =>
    rw [makeDirectories, he]
    · exact (within_insert_directory e _).trans ih
    · exact hd
  | case5 e place name names hd fault hf he =>
    rw [makeDirectories, he]
    · cases fault with
      | missing => exact absurd rfl hf
      | _ => exact .rfl
    · exact hd

theorem makeDirectories_file (e : Entries) (place : Place) (names : List String) :
    (e.makeDirectories place names).2[q]? = some (.file content) ↔
      e[q]? = some (.file content) := by
  induction e, place, names using makeDirectories.induct with
  | case1 e place => exact .rfl
  | case2 e place names ih =>
    rw [makeDirectories]
    exact ih
  | case3 e place name names hd place' he ih =>
    rw [makeDirectories, he]
    · exact ih
    · exact hd
  | case4 e place name names hd he ih =>
    obtain ⟨-, -, hnone⟩ := enter_missing he
    rw [makeDirectories, he]
    · refine ih.trans ?_
      rw [ExtTreeMap.getElem?_insert]
      split
      · next heq =>
        rw [← Std.compare_eq_iff_eq.1 heq, hnone]
        simp
      · exact .rfl
    · exact hd
  | case5 e place name names hd fault hf he =>
    rw [makeDirectories, he]
    · cases fault with
      | missing => exact absurd rfl hf
      | _ => exact .rfl
    · exact hd

theorem makeDirectories_again {result : Except PathFault Unit}
    (h : e.makeDirectories place names = (result, e')) (hw : e'.Within e'')
    (hr : result = .ok () ∨ e'' = e') : e''.makeDirectories place names = (result, e'') := by
  induction e, place, names using makeDirectories.induct with
  | case1 e place =>
    cases h
    rw [makeDirectories]
  | case2 e place names ih =>
    rw [makeDirectories] at h ⊢
    exact ih h
  | case3 e place name names hd place' he ih =>
    have hto := makeDirectories_within e place' names
    rw [makeDirectories, he] at h
    · simp only at h
      rw [h] at hto
      rw [makeDirectories, enter_ok he (hto.trans hw)]
      · exact ih h
      · exact hd
    · exact hd
  | case4 e place name names hd he ih =>
    have hto := makeDirectories_within (e.insert (name :: place) .directory) (name :: place) names
    rw [makeDirectories, he] at h
    · simp only at h
      rw [h] at hto
      have hthere : e''[name :: place]? = some .directory := hw _ (hto _ (by simp))
      rw [makeDirectories, enter_made he hd hthere]
      · exact ih h
      · exact hd
    · exact hd
  | case5 e place name names hd fault hf he =>
    rw [makeDirectories, he] at h
    · cases fault with
      | missing => exact absurd rfl hf
      | _ =>
        cases h
        rw [hr.resolve_left nofun, makeDirectories, he]
        exact hd
    · exact hd

theorem makeParents_within (e : Entries) (path : String) : e.Within (e.makeParents path).2 := by
  unfold makeParents
  split
  · exact .rfl
  · exact makeDirectories_within e _ _

theorem makeParents_file (e : Entries) (path : String) :
    (e.makeParents path).2[q]? = some (.file content) ↔ e[q]? = some (.file content) := by
  unfold makeParents
  split
  · exact .rfl
  · exact makeDirectories_file e _ _

theorem makeParents_again {result : Except PathFault Unit}
    (h : e.makeParents path = (result, e')) (hw : e'.Within e'')
    (hr : result = .ok () ∨ e'' = e') : e''.makeParents path = (result, e'') := by
  unfold makeParents at h ⊢
  split at h
  · next hn =>
    cases h
    rw [if_pos hn, hr.resolve_left nofun]
  · next hn =>
    rw [if_neg hn]
    exact makeDirectories_again h hw hr

structure Opens (e e' : Entries) (place : Place) (content : List UInt8) : Prop where
  there : e'[place]? = some (.file content)
  within : e.Within e'
  back : e'.Within e
  kept {q : Place} {known : List UInt8} : e[q]? = some (.file known) → e'[q]? = some (.file known)
  made {q : Place} {known : List UInt8} : e'[q]? = some (.file known) →
    e[q]? = some (.file known) ∨ e[q]? = none ∧ known = []

theorem openFile_of_file (h : e[place]? = some (.file content)) :
    e.openFile place = .ok (content, e) := by
  simp [openFile, content?, h, bind, Except.bind, pure, Except.pure]

theorem openFile_opens (h : e.openFile place = .ok (content, e')) : e.Opens e' place content := by
  cases hp : e[place]? with
  | none =>
    have h : Except.ok ([], e.insert place (.file [])) =
        Except.ok (ε := PathFault) (content, e') := by
      simpa [openFile, content?, hp, bind, Except.bind, pure, Except.pure] using h
    cases h
    refine ⟨by simp, within_insert_file (by simp [hp]) [], insert_file_within e place [], ?_, ?_⟩
    · intro q known hq
      rw [ExtTreeMap.getElem?_insert]
      split
      · next he =>
        rw [← Std.compare_eq_iff_eq.1 he, hp] at hq
        cases hq
      · exact hq
    · intro q known hq
      rw [ExtTreeMap.getElem?_insert] at hq
      split at hq
      · next he =>
        cases hq
        exact .inr ⟨Std.compare_eq_iff_eq.1 he ▸ hp, rfl⟩
      · exact .inl hq
  | some entry =>
    cases entry with
    | directory => simp [openFile, content?, hp, bind, Except.bind] at h
    | file known =>
      rw [openFile_of_file hp] at h
      cases h
      exact ⟨hp, .rfl, .rfl, id, .inl⟩

theorem openPath_ok (h : e.openPath path = .ok (place, content, e')) :
    e.resolve path = .ok place ∧ e.Opens e' place content := by
  unfold openPath at h
  cases hr : e.resolve path with
  | error f =>
    rw [hr] at h
    cases h
  | ok place' =>
    rw [hr] at h
    cases ho : e.openFile place' with
    | error f =>
      simp only [ho, bind, Except.bind] at h
      cases h
    | ok found =>
      simp only [ho, bind, Except.bind, pure, Except.pure] at h
      cases h
      exact ⟨rfl, openFile_opens ho⟩

theorem openPath_of_file (hr : e.resolve path = .ok place) (h : e[place]? = some (.file content)) :
    e.openPath path = .ok (place, content, e) := by
  simp [openPath, hr, openFile_of_file h, bind, Except.bind, pure, Except.pure]

/-- A log at a path: the directories above it are there, and so is the file that its writers
lock. -/
structure Houses (e : Entries) (path : String) (place lock : Place) (content : List UInt8) :
    Prop where
  parents : e.makeParents path = (.ok (), e)
  leads : e.resolve path = .ok place
  locks : e.resolve (Disk.lockPath path) = .ok lock
  locked : ∃ known, e[lock]? = some (.file known)
  holds : e[place]? = some (.file content)

theorem Houses.rewrite {lock : Place} (h : Houses e path place lock content)
    (content' : List UInt8) :
    Houses (e.insert place (.file content')) path place lock content' := by
  have hw : e.Within (e.insert place (.file content')) :=
    within_insert_file (by rw [h.holds]; simp) content'
  refine ⟨makeParents_again h.parents hw (.inl rfl), resolve_ok h.leads hw, resolve_ok h.locks hw,
    ?_, by simp⟩
  rw [ExtTreeMap.getElem?_insert]
  split
  · exact ⟨content', rfl⟩
  · exact h.locked

end Entries

namespace Disk

theorem octets?_eq_some {d : Disk} {path : String} {content : List UInt8} :
    d.octets? path = some content ↔
      ∃ place, d.entries.resolve path = .ok place ∧ d.entries[place]? = some (.file content) := by
  unfold octets? Entries.content?
  cases hr : d.entries.resolve path with
  | error f => simp [Except.toOption]
  | ok place =>
    cases he : d.entries[place]? with
    | none => simp [Except.toOption, he]
    | some entry => cases entry <;> simp [Except.toOption, he]

end Disk

namespace Entries

variable {e e' e'' : Entries} {path : String}

/-- What the path leads to holds no line feed, now and once the directories above it are there. -/
def Vacant (e : Entries) (path : String) : Prop :=
  ∀ e' ∈ [e, (e.makeParents path).2], ∀ content ∈ Disk.octets? { entries := e' } path,
    Lines.lineFeed ∉ content

instance (e : Entries) (path : String) : Decidable (e.Vacant path) :=
  inferInstanceAs (Decidable (∀ e' ∈ [e, (e.makeParents path).2],
    ∀ content ∈ Disk.octets? { entries := e' } path, Lines.lineFeed ∉ content))

theorem Vacant.not_mem (hv : e.Vacant path) (he : e' = e ∨ e' = (e.makeParents path).2)
    {place : Place} {content : List UInt8} (hr : e'.resolve path = .ok place)
    (hc : e'[place]? = some (.file content)) : Lines.lineFeed ∉ content :=
  hv e' (by simpa using he) content (Disk.octets?_eq_some.2 ⟨place, hr, hc⟩)

theorem Vacant.extend (hv : e.Vacant path) {result : Except PathFault Unit}
    (hm : e.makeParents path = (result, e')) (hto : e'.Within e'') (hback : e''.Within e')
    (hr : result = .ok () ∨ e'' = e')
    (hmade : ∀ {q : Place} {known : List UInt8}, e''[q]? = some (.file known) →
      e'[q]? = some (.file known) ∨ Lines.lineFeed ∉ known) : e''.Vacant path := by
  have hsame : (e''.makeParents path).2 = e'' := by rw [makeParents_again hm hto hr]
  intro e₁ he₁ content hcontent
  obtain rfl : e₁ = e'' := by
    rcases List.mem_cons.1 he₁ with rfl | he₁
    · rfl
    · rw [List.mem_singleton.1 he₁, hsame]
  obtain ⟨place, hres, hc⟩ := Disk.octets?_eq_some.1 hcontent
  rcases hmade hc with hc | hc
  · exact hv.not_mem (.inr (by rw [hm])) (resolve_ok hres hback) hc
  · exact hc

end Entries

end StatementLog
