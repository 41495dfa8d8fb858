import StatementLog.Text.Blank
import StatementLog.Text.Caseless

namespace StatementLog.Statement

open StatementLog.Text

def blanks? : List Char → Option (List Char)
  | [] => none
  | c :: r => if isBlank c then some (r.dropWhile isBlank) else none

def skipBlanks (cs : List Char) : List Char :=
  cs.dropWhile isBlank

def word? (k : String) (cs : List Char) : Option (List Char) :=
  (keyword? k.toList cs).bind blanks?

def char? (x : Char) : List Char → Option (List Char)
  | [] => none
  | c :: r => if c == x then some r else none

def isIdentifierStart (c : Char) : Bool :=
  c.isAlpha || c == '_' || c == longS || c == kelvin

def isIdentifierPart (c : Char) : Bool :=
  isIdentifierStart c || c.isDigit

def backquote : Char := '\x60'

def doubleQuote : Char := '\x22'

def singleQuote : Char := '\x27'

def upTo? (q : Char) (cs : List Char) : Option (List Char × List Char) :=
  match cs.dropWhile (· != q) with
  | [] => none
  | _ :: r => if (cs.takeWhile (· != q)).isEmpty then none else some (cs.takeWhile (· != q), r)

structure Identifier where
  quoted : Bool
  body : List Char
  deriving DecidableEq, Repr

def Identifier.name (i : Identifier) : String :=
  String.ofList (if i.quoted then i.body else upper i.body)

def identifier? : List Char → Option (Identifier × List Char)
  | [] => none
  | c :: r =>
    if c == backquote || c == doubleQuote then
      (upTo? c r).map fun (inner, r) => (⟨true, inner⟩, r)
    else if isIdentifierStart c then
      some (⟨false, c :: r.takeWhile isIdentifierPart⟩, r.dropWhile isIdentifierPart)
    else none

def atEnd (cs : List Char) : Bool :=
  match skipBlanks cs with
  | [] => true
  | c :: r => c == ';' && r.all isBlank

/-- A parenthesised list, which ends at the first closing parenthesis. -/
def parenthesised? (cs : List Char) : Option (List Char × List Char) := do
  let r ← char? '(' cs
  match r.dropWhile (· != ')') with
  | [] => none
  | _ :: rest => some (r.takeWhile (· != ')'), rest)

theorem length_keyword? {k cs r : List Char} (h : keyword? k cs = some r) :
    r.length ≤ cs.length := by
  induction k generalizing cs with
  | nil => simp [keyword?] at h; simp [h]
  | cons x k ih =>
    cases cs with
    | nil => simp [keyword?] at h
    | cons c cs =>
      simp only [keyword?] at h
      split at h
      · exact Nat.le_succ_of_le (ih h)
      · simp at h

theorem length_dropWhile_le (p : Char → Bool) (cs : List Char) :
    (cs.dropWhile p).length ≤ cs.length :=
  (List.dropWhile_sublist p).length_le

theorem length_blanks? {cs r : List Char} (h : blanks? cs = some r) : r.length < cs.length := by
  cases cs with
  | nil => simp [blanks?] at h
  | cons c cs =>
    simp only [blanks?] at h
    split at h
    · cases h
      exact Nat.lt_succ_of_le (length_dropWhile_le _ _)
    · simp at h

theorem length_upTo? {q : Char} {cs inner r : List Char} (h : upTo? q cs = some (inner, r)) :
    r.length < cs.length := by
  unfold upTo? at h
  split at h
  · simp at h
  · next x r' hd =>
    split at h
    · simp at h
    · simp only [Option.some.injEq, Prod.mk.injEq] at h
      have := length_dropWhile_le (· != q) cs
      rw [hd, h.2] at this
      exact Nat.lt_of_succ_le this

theorem length_identifier? {cs r : List Char} {i : Identifier}
    (h : identifier? cs = some (i, r)) : r.length < cs.length := by
  cases cs with
  | nil => simp [identifier?] at h
  | cons c cs =>
    simp only [identifier?] at h
    split at h
    · simp only [Option.map_eq_some_iff] at h
      obtain ⟨⟨inner, r'⟩, hq, he⟩ := h
      simp only [Prod.mk.injEq] at he
      have := length_upTo? hq
      rw [he.2] at this
      exact Nat.lt_succ_of_lt this
    · split at h
      · simp only [Option.some.injEq, Prod.mk.injEq] at h
        rw [← h.2]
        exact Nat.lt_succ_of_le (length_dropWhile_le _ _)
      · simp at h

end StatementLog.Statement
