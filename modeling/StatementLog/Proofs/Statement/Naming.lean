import StatementLog.Statement.Reader

namespace StatementLog.Statement

open StatementLog.Text

variable {cs r body : List Char} {i : Identifier} {head : Head} {statement : Statement}

theorem upTo?_ne_nil {q : Char} {inner : List Char} (h : upTo? q cs = some (inner, r)) :
    inner ≠ [] := by
  unfold upTo? at h
  split at h
  · cases h
  · split at h
    · cases h
    · next hn =>
      cases h
      simpa using hn

theorem identifier?_body (h : identifier? cs = some (i, r)) : i.body ≠ [] := by
  cases cs with
  | nil => cases h
  | cons c cs =>
    rw [identifier?] at h
    split at h
    · obtain ⟨⟨inner, r'⟩, hq, he⟩ := Option.map_eq_some_iff.1 h
      cases he
      exact upTo?_ne_nil hq
    · split at h <;> cases h
      exact List.cons_ne_nil _ _

theorem Identifier.name_ne_empty (h : i.body ≠ []) : i.name ≠ "" := by
  have hu : upper i.body ≠ [] := by simpa [upper] using h
  rw [name]
  split
  · simpa using h
  · simpa using hu

def IsName (name : String) : Prop :=
  ∃ cs i r, identifier? cs = some (i, r) ∧ i.name = name

theorem identifier?_name (h : identifier? cs = some (i, r)) : IsName i.name :=
  ⟨cs, i, r, h, rfl⟩

theorem IsName.ne_empty {name : String} (h : IsName name) : name ≠ "" := by
  obtain ⟨cs, i, r, h, rfl⟩ := h
  exact Identifier.name_ne_empty (identifier?_body h)

theorem createAsSelect?_name (h : createAsSelect? cs = some (head, body)) : IsName head.name := by
  obtain ⟨r₁, -, h⟩ := Option.bind_eq_some_iff.1 h
  obtain ⟨⟨kind, r₂⟩, -, h⟩ := Option.bind_eq_some_iff.1 h
  obtain ⟨⟨name, r₃⟩, hn, h⟩ := Option.bind_eq_some_iff.1 h
  obtain ⟨r₄, -, h⟩ := Option.bind_eq_some_iff.1 h
  obtain ⟨r₅, -, h⟩ := Option.bind_eq_some_iff.1 h
  obtain ⟨r₆, -, h⟩ := Option.bind_eq_some_iff.1 h
  by_cases hb : r₆.isEmpty = true
  · rw [if_pos hb] at h
    cases h
  · rw [if_neg hb] at h
    cases h
    exact identifier?_name hn

theorem createSource?_name (h : createSource? cs = some (head, r)) : IsName head.name := by
  obtain ⟨r₁, -, h⟩ := Option.bind_eq_some_iff.1 h
  obtain ⟨⟨kind, r₂⟩, -, h⟩ := Option.bind_eq_some_iff.1 h
  simp only at h
  split at h
  · next name rest hn =>
    cases h
    obtain ⟨r₃, -, hn⟩ := Option.bind_eq_some_iff.1 hn
    exact identifier?_name hn
  · obtain ⟨⟨name, rest⟩, hn, h⟩ := Option.bind_eq_some_iff.1 h
    cases h
    exact identifier?_name hn

theorem insertInto?_name {target : String} (h : insertInto? cs = some (target, body)) :
    IsName target := by
  obtain ⟨r₁, -, h⟩ := Option.bind_eq_some_iff.1 h
  obtain ⟨r₂, -, h⟩ := Option.bind_eq_some_iff.1 h
  obtain ⟨⟨name, r₃⟩, hn, h⟩ := Option.bind_eq_some_iff.1 h
  obtain ⟨r₄, -, h⟩ := Option.bind_eq_some_iff.1 h
  obtain ⟨r₅, -, h⟩ := Option.bind_eq_some_iff.1 h
  by_cases hb : r₅.isEmpty = true
  · rw [if_pos hb] at h
    cases h
  · rw [if_neg hb] at h
    cases h
    exact identifier?_name hn

theorem queryName?_name {query : String} (h : queryName? cs = some query) : IsName query := by
  obtain ⟨⟨i, r⟩, hn, h⟩ := Option.bind_eq_some_iff.1 h
  simp only at h
  split at h <;> cases h
  exact identifier?_name hn

def Names : Statement → Prop
  | .createSource _ name _ _ => IsName name
  | .createAsSelect _ name _ _ => IsName name
  | .insertInto target _ => IsName target
  | .dropSource _ name _ _ => IsName name
  | .terminateQuery query => IsName query
  | .terminateCluster _ => True

theorem Names.entity (h : statement.Names) : statement.id.entity ≠ "" := by
  cases statement with
  -- the id of an insertion has a prefix of its own before the name of the target
  | insertInto target sources => simp [id, String.append_eq_empty_iff]
  | terminateCluster topics => exact of_decide_eq_true rfl
  | _ => exact IsName.ne_empty h

inductive HasForm (cs : List Char) : Statement → Prop
  | createAsSelect {head : Head} {body : List Char} (sources : List String) :
      createAsSelect? cs = some (head, body) →
        HasForm cs (.createAsSelect head.kind head.name sources head.ifNotExists)
  | createSource {head : Head} {rest : List Char} : createSource? cs = some (head, rest) →
      HasForm cs (.createSource head.kind head.name (topic? rest) head.ifNotExists)
  | insertInto {target : String} {body : List Char} (sources : List String) :
      insertInto? cs = some (target, body) → HasForm cs (.insertInto target sources)
  | dropSource {kind : SourceKind} {name : String} {ifExists deleteTopic : Bool} :
      dropSource? cs = some (.dropSource kind name ifExists deleteTopic) → IsName name →
        HasForm cs (.dropSource kind name ifExists deleteTopic)
  | terminateCluster {topics : List String} :
      terminateCluster? cs = some (.terminateCluster topics) →
        HasForm cs (.terminateCluster topics)
  | terminateQuery {query : String} : terminateQuery? cs = some (.terminateQuery query) →
      IsName query → HasForm cs (.terminateQuery query)

theorem hasForm_of_dropSource? (h : dropSource? cs = some statement) : HasForm cs statement := by
  have hform := h
  obtain ⟨r₁, -, h⟩ := Option.bind_eq_some_iff.1 h
  obtain ⟨⟨kind, r₂⟩, -, h⟩ := Option.bind_eq_some_iff.1 h
  obtain ⟨⟨name, r₃⟩, hn, h⟩ := Option.bind_eq_some_iff.1 h
  simp only at h
  split at h <;> cases h
  exact .dropSource hform (identifier?_name hn)

theorem hasForm_of_terminateCluster? (h : terminateCluster? cs = some statement) :
    HasForm cs statement := by
  have hform := h
  obtain ⟨r₁, -, h⟩ := Option.bind_eq_some_iff.1 h
  obtain ⟨r₂, -, h⟩ := Option.bind_eq_some_iff.1 h
  split at h <;> split at h <;> cases h <;> exact .terminateCluster hform

theorem hasForm_of_terminateQuery? (h : terminateQuery? cs = some statement) :
    HasForm cs statement := by
  have hform := h
  obtain ⟨r, -, h⟩ := Option.bind_eq_some_iff.1 h
  obtain ⟨query, hq, h⟩ := Option.bind_eq_some_iff.1 h
  cases h
  refine .terminateQuery hform ?_
  cases hw : (word? "QUERY" r).bind queryName? with
  | some name =>
    rw [hw] at hq
    cases hq
    obtain ⟨r', -, hw⟩ := Option.bind_eq_some_iff.1 hw
    exact queryName?_name hw
  | none =>
    rw [hw] at hq
    exact queryName?_name hq

theorem hasForm_of_readTrimmed (h : readTrimmed cs = .ok statement) : HasForm cs statement := by
  unfold readTrimmed at h
  split at h
  · cases h
  split at h
  · next hc =>
    split at h <;> cases h
    exact .createAsSelect _ hc
  split at h
  · next hc =>
    cases h
    exact .createSource hc
  split at h
  · next hi =>
    split at h <;> cases h
    exact .insertInto _ hi
  split at h
  · next hd =>
    cases h
    exact hasForm_of_dropSource? hd
  split at h
  · next ht =>
    cases h
    exact hasForm_of_terminateCluster? ht
  split at h
  · next hq =>
    cases h
    exact hasForm_of_terminateQuery? hq
  · cases h

theorem HasForm.names (h : HasForm cs statement) : statement.Names := by
  cases h with
  | createAsSelect _ h => exact createAsSelect?_name h
  | createSource h => exact createSource?_name h
  | insertInto _ h => exact insertInto?_name h
  | dropSource _ hname => exact hname
  | terminateCluster _ => trivial
  | terminateQuery _ hname => exact hname

theorem readTrimmed_names (h : readTrimmed cs = .ok statement) : statement.Names :=
  (hasForm_of_readTrimmed h).names

theorem readId_entity {text : String} {id : CommandId} (h : readId text = .ok id) :
    id.entity ≠ "" := by
  rw [readId] at h
  cases hr : read text with
  | error fault =>
    rw [hr] at h
    cases h
  | ok statement =>
    rw [hr] at h
    cases h
    exact (readTrimmed_names hr).entity

end StatementLog.Statement
