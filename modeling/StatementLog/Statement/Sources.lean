import StatementLog.Statement.Lexeme
import StatementLog.Text.Word

namespace StatementLog.Statement

open StatementLog.Text

def sourceAt? (cs : List Char) : Option (Identifier × List Char) :=
  (word? "FROM" cs <|> word? "JOIN" cs).bind identifier?

theorem length_word? {k : String} {cs r : List Char} (h : word? k cs = some r) :
    r.length < cs.length := by
  obtain ⟨a, ha, hr⟩ := Option.bind_eq_some_iff.1 h
  exact Nat.lt_of_lt_of_le (length_blanks? hr) (length_keyword? ha)

theorem length_sourceAt? {cs r : List Char} {i : Identifier}
    (h : sourceAt? cs = some (i, r)) : r.length < cs.length := by
  obtain ⟨a, ha, hr⟩ := Option.bind_eq_some_iff.1 h
  have hlt := length_identifier? hr
  have : a.length < cs.length := by
    cases hf : word? "FROM" cs with
    | some b => simp [hf] at ha; exact ha ▸ length_word? hf
    | none => simp [hf] at ha; exact length_word? ha
  exact Nat.lt_trans hlt this

def mentions (afterWord : Bool) (cs : List Char) : List String :=
  match cs with
  | [] => []
  | c :: r =>
    match h : (if afterWord then none else sourceAt? (c :: r)) with
    | some (i, rest) =>
      have : rest.length < (c :: r).length := by
        cases afterWord with
        | true => simp at h
        | false => exact length_sourceAt? h
      i.name :: mentions (!i.quoted) rest
    | none => mentions (isWord c) r
termination_by cs.length
decreasing_by
  · exact this
  · exact Nat.lt_succ_self r.length

def firstMentions : List String → List String :=
  List.foldl (fun seen s => if s ∈ seen then seen else seen ++ [s]) []

def sources (body : List Char) : List String :=
  firstMentions (mentions false body)

end StatementLog.Statement
