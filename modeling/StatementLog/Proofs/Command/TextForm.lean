import StatementLog.Proofs.Command.RoundTrip

namespace StatementLog

open Text

theorem find?_name_eq_some {α : Type} {name : α → String} {all : List α}
    (hall : ∀ x, all.find? (fun y => name y == name x) = some x) {cs : List Char} {x : α} :
    all.find? (fun y => name y == String.ofList cs) = some x ↔ cs = (name x).toList := by
  constructor
  · intro h
    have hname := List.find?_some h
    rw [beq_iff_eq.1 hname, String.toList_ofList]
  · rintro rfl
    rw [String.ofList_toList]
    exact hall x

namespace EntityKind

theorem read_eq_ok {cs : List Char} {k : EntityKind} :
    read cs = .ok k ↔ lower cs = k.name.toList := by
  have hname : named? (String.ofList (lower cs)) = some k ↔ lower cs = k.name.toList :=
    find?_name_eq_some fun k => by cases k <;> rfl
  rw [read, ← hname]
  cases named? (String.ofList (lower cs)) <;> simp

theorem name_inj {k k' : EntityKind} : k.name = k'.name ↔ k = k' := by
  cases k <;> cases k' <;> decide

end EntityKind

namespace Action

theorem read_eq_ok {cs : List Char} {a : Action} : read cs = .ok a ↔ lower cs = a.name.toList := by
  have hname : named? (String.ofList (lower cs)) = some a ↔ lower cs = a.name.toList :=
    find?_name_eq_some fun a => by cases a <;> rfl
  rw [read, ← hname]
  cases named? (String.ofList (lower cs)) <;> simp

theorem name_inj {a a' : Action} : a.name = a'.name ↔ a = a' := by
  cases a <;> cases a' <;> decide

end Action

namespace CommandId

variable {cs a b kind entity action : List Char} {id id' : CommandId}

theorem cutFirst_eq_some (h : cutFirst cs = some (a, b)) : cs = a ++ '/' :: b ∧ '/' ∉ a := by
  induction cs generalizing a with
  | nil => cases h
  | cons c cs ih =>
    by_cases hc : c = '/'
    · subst hc
      cases h
      exact ⟨rfl, by simp⟩
    · rw [cutFirst] at h
      · obtain ⟨⟨a', b'⟩, hcut, he⟩ := Option.map_eq_some_iff.1 h
        cases he
        obtain ⟨rfl, hslash⟩ := ih hcut
        exact ⟨rfl, by simp [Ne.symm hc, hslash]⟩
      · exact hc

theorem cutLast_eq_some (h : cutLast cs = some (a, b)) : cs = a ++ '/' :: b ∧ '/' ∉ b := by
  obtain ⟨⟨back, front⟩, hcut, he⟩ := Option.map_eq_some_iff.1 h
  cases he
  obtain ⟨hcs, hslash⟩ := cutFirst_eq_some hcut
  refine ⟨?_, by simpa using hslash⟩
  rw [← List.reverse_reverse cs, hcs]
  simp

structure Cut (cs kind entity action : List Char) : Prop where
  text : cs = kind ++ '/' :: (entity ++ '/' :: action)
  kind : '/' ∉ kind
  action : '/' ∉ action

theorem Cut.cutFirst (h : Cut cs kind entity action) :
    cutFirst cs = some (kind, entity ++ '/' :: action) := by
  rw [h.text, cutFirst_append h.kind]

theorem Cut.cutLast (h : Cut cs kind entity action) :
    cutLast (entity ++ '/' :: action) = some (entity, action) :=
  cutLast_append h.action entity

theorem Cut.unique {kind' entity' action' : List Char} (h : Cut cs kind entity action)
    (h' : Cut cs kind' entity' action') :
    kind = kind' ∧ entity = entity' ∧ action = action' := by
  obtain ⟨rfl, hrest⟩ := Prod.mk.inj (Option.some.inj (h.cutFirst.symm.trans h'.cutFirst))
  have hlast := h.cutLast
  rw [hrest, h'.cutLast] at hlast
  obtain ⟨rfl, rfl⟩ := Prod.mk.inj (Option.some.inj hlast)
  exact ⟨rfl, rfl, rfl⟩

theorem text_cut (id : CommandId) :
    Cut id.text.toList id.kind.name.toList id.entity.toList id.action.name.toList where
  text := by simp [text]
  kind := (kind_read id.kind).1
  action := (action_read id.action).1

theorem text_inj : id.text = id'.text ↔ id = id' := by
  constructor
  · intro h
    obtain ⟨hkind, hentity, haction⟩ := id.text_cut.unique (h ▸ id'.text_cut)
    obtain ⟨kind, entity, action⟩ := id
    obtain ⟨kind', entity', action'⟩ := id'
    obtain rfl := EntityKind.name_inj.1 (String.toList_inj.1 hkind)
    obtain rfl := Action.name_inj.1 (String.toList_inj.1 haction)
    obtain rfl := String.toList_inj.1 hentity
    rfl
  · rintro rfl
    rfl

theorem Cut.readChars (h : Cut cs kind entity action) : readChars cs =
    if entity.isEmpty then .error (.emptyEntity (String.ofList cs))
    else do
      let kind ← EntityKind.read kind
      let action ← Action.read action
      return ⟨kind, String.ofList entity, action⟩ := by
  simp only [CommandId.readChars, h.cutFirst, h.cutLast]

theorem readChars_cases (cs : List Char) :
    (∃ kind entity action, Cut cs kind entity action) ∨
      readChars cs = .error (.malformedId (String.ofList cs)) := by
  cases hfirst : cutFirst cs with
  | none => exact .inr (by simp only [readChars, hfirst])
  | some parts =>
    obtain ⟨kind, rest⟩ := parts
    cases hlast : cutLast rest with
    | none => exact .inr (by simp only [readChars, hfirst, hlast])
    | some parts =>
      obtain ⟨entity, action⟩ := parts
      obtain ⟨rfl, hkind⟩ := cutFirst_eq_some hfirst
      obtain ⟨rfl, haction⟩ := cutLast_eq_some hlast
      exact .inl ⟨kind, entity, action, rfl, hkind, haction⟩

structure Spells (cs kind action : List Char) (id : CommandId) : Prop where
  cut : Cut cs kind id.entity.toList action
  entity : id.entity ≠ ""
  kind : lower kind = id.kind.name.toList
  action : lower action = id.action.name.toList

theorem Cut.readChars_eq_ok (h : Cut cs kind entity action) :
    CommandId.readChars cs = .ok id ↔ entity = id.entity.toList ∧ Spells cs kind action id := by
  rw [h.readChars]
  constructor
  · intro hread
    split at hread
    · cases hread
    next hentity =>
    cases hkind : EntityKind.read kind with
    | error e =>
      rw [hkind] at hread
      cases hread
    | ok k =>
      cases haction : Action.read action with
      | error e =>
        rw [hkind, haction] at hread
        cases hread
      | ok a =>
        rw [hkind, haction] at hread
        cases hread
        have he : entity = (String.ofList entity).toList := String.toList_ofList.symm
        exact ⟨he, he ▸ h, by simpa using hentity, EntityKind.read_eq_ok.1 hkind,
          Action.read_eq_ok.1 haction⟩
  · rintro ⟨rfl, hspells⟩
    rw [if_neg (by simpa using hspells.entity), EntityKind.read_eq_ok.2 hspells.kind,
      Action.read_eq_ok.2 hspells.action, String.ofList_toList]
    rfl

theorem readChars_eq_ok :
    readChars cs = .ok id ↔ ∃ kind action, Spells cs kind action id := by
  constructor
  · intro h
    rcases readChars_cases cs with ⟨kind, entity, action, hcut⟩ | he
    · exact ⟨kind, action, (hcut.readChars_eq_ok.1 h).2⟩
    · cases he.symm.trans h
  · rintro ⟨kind, action, h⟩
    exact h.cut.readChars_eq_ok.2 ⟨rfl, h⟩

theorem Spells.text_eq (h : Spells cs kind action id) :
    id.text.toList = lower kind ++ '/' :: (id.entity.toList ++ '/' :: lower action) := by
  rw [h.kind, h.action]
  exact id.text_cut.text

/-- An id that has an entity is read back from its text, and different ids have different texts.
What is read from any text has that text but for the case of its kind and its action, and a text is
read exactly if it has two slashes, with something between the outermost ones, and the names of a
kind and of an action before and after them, in any case. -/
theorem text_form_faithful :
    (∀ id : CommandId, id.entity ≠ "" → read id.text = .ok id) ∧
    (∀ id id' : CommandId, id.text = id'.text → id = id') ∧
    (∀ s id, read s = .ok id → ∃ kind action, Cut s.toList kind id.entity.toList action ∧
      id.text.toList = lower kind ++ '/' :: (id.entity.toList ++ '/' :: lower action)) ∧
    ∀ s, (∃ id, read s = .ok id) ↔ ∃ kind entity action, Cut s.toList kind entity action ∧
      entity ≠ [] ∧ (∃ k : EntityKind, lower kind = k.name.toList) ∧
        ∃ a : Action, lower action = a.name.toList := by
  refine ⟨?_, fun id id' => text_inj.1, ?_, ?_⟩
  · intro id hentity
    rw [read_text, if_neg hentity]
  · intro s id h
    obtain ⟨kind, action, hspells⟩ := readChars_eq_ok.1 h
    exact ⟨kind, action, hspells.cut, hspells.text_eq⟩
  · intro s
    constructor
    · rintro ⟨id, h⟩
      obtain ⟨kind, action, hspells⟩ := readChars_eq_ok.1 h
      exact ⟨kind, _, action, hspells.cut, by simpa using hspells.entity, ⟨_, hspells.kind⟩, _,
        hspells.action⟩
    · rintro ⟨kind, entity, action, hcut, hne, ⟨k, hk⟩, a, ha⟩
      have hentity : entity = (String.ofList entity).toList := String.toList_ofList.symm
      refine ⟨⟨k, String.ofList entity, a⟩, hcut.readChars_eq_ok.2 ⟨hentity, ?_⟩⟩
      exact ⟨hentity ▸ hcut, by simpa using hne, hk, ha⟩

theorem text_form_faithful_slashes :
    (⟨.table, "//", .drop⟩ : CommandId).entity ≠ "" ∧
    read (⟨.table, "//", .drop⟩ : CommandId).text = .ok ⟨.table, "//", .drop⟩ ∧
    read "Table////DROP" = .ok ⟨.table, "//", .drop⟩ ∧
    (∃ id, read "cluster/a/b/Terminate" = .ok id) ∧ ¬ ∃ id, read "cluster//Terminate" = .ok id := by
  obtain ⟨hback, -, -, hread⟩ := text_form_faithful
  refine ⟨by decide, hback ⟨.table, "//", .drop⟩ (by decide), by decide +kernel, ?_, ?_⟩
  · refine (hread _).2 ⟨"cluster".toList, "a/b".toList, "Terminate".toList, ?_, by decide +kernel,
      ⟨.cluster, by decide +kernel⟩, .terminate, by decide +kernel⟩
    exact ⟨by decide +kernel, by decide +kernel, by decide +kernel⟩
  · rintro ⟨id, h⟩
    have herror : read "cluster//Terminate" = .error (.emptyEntity "cluster//Terminate") := by
      decide +kernel
    cases herror.symm.trans h

end CommandId

end StatementLog
