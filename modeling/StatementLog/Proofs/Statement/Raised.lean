import Mathlib
import StatementLog.Proofs.Statement.Identifier

namespace StatementLog.Statement

open StatementLog.Text

structure Raised (c d : Char) : Prop where
  capital : d = c.toUpper
  single : c ≠ singleQuote
  unmarked : ¬ IsMark c

variable {c d x : Char} {cs ds k : List Char}

theorem Raised.eq_or_letters (h : Raised c d) : d = c ∨ c.isAlpha = true ∧ d.isAlpha = true := by
  rw [h.capital]
  cases hc : c.isLower with
  | false => exact .inl (Char.toUpper_eq_of_not_isLower (by simp [hc]))
  | true =>
    have hletter : c.isAlpha = true := by simp [Char.isAlpha, hc]
    exact .inr ⟨hletter, by rw [Char.isAlpha_toUpper_eq_isAlpha, hletter]⟩

theorem Raised.congr {p : Char → Bool} {b : Bool} (hp : ∀ x : Char, x.isAlpha = true → p x = b)
    (h : Raised c d) : p d = p c := by
  rcases h.eq_or_letters with rfl | ⟨hc, hd⟩
  · rfl
  · rw [hp c hc, hp d hd]

theorem Raised.beq (hx : x.isAlpha = false) (h : Raised c d) : (d == x) = (c == x) := by
  refine h.congr (p := (· == x)) (b := false) fun y hy => ?_
  rw [beq_eq_false_iff_ne]
  rintro rfl
  rw [hx] at hy
  cases hy

theorem isIdentifierStart_letter (h : x.isAlpha = true) : isIdentifierStart x = true := by
  simp [isIdentifierStart, h]

theorem isIdentifierPart_letter (h : x.isAlpha = true) : isIdentifierPart x = true :=
  isIdentifierPart_of_start (isIdentifierStart_letter h)

theorem isBlank_letter (h : x.isAlpha = true) : isBlank x = false :=
  isBlank_identifierPart (isIdentifierPart_letter h)

theorem isWord_letter (h : x.isAlpha = true) : isWord x = true := by
  rw [isWord, List.any_eq_true]
  rcases toNat_of_isAlpha h with ⟨hlow, hhigh⟩ | ⟨hlow, hhigh⟩
  · refine ⟨(0x41, 0x5A), ?_, by simp [hlow, hhigh]⟩
    simp [wordRanges, wordRangesA]
  · refine ⟨(0x61, 0x7A), ?_, by simp [hlow, hhigh]⟩
    simp [wordRanges, wordRangesA]

theorem Raised.spells (h : Raised c d) (k : Char) : spells k d = spells k c := by
  have hupper : d.toUpper = c.toUpper := by rw [h.capital, Char.toUpper_toUpper_eq_toUpper]
  rw [Text.spells, Text.spells, hupper, h.beq (x := longS) (by decide),
    h.beq (x := kelvin) (by decide)]

theorem raised_eq (h : List.Forall₂ Raised cs ds) : ds = upper cs := by
  induction h with
  | nil => rfl
  | cons hc _ ih =>
    rw [hc.capital, ih]
    rfl

theorem raised_upper (h : ∀ c ∈ cs, c ≠ singleQuote ∧ ¬ IsMark c) :
    List.Forall₂ Raised cs (upper cs) := by
  refine List.forall₂_map_right_iff.2 (List.forall₂_same.2 fun c hc => ?_)
  exact ⟨rfl, (h c hc).1, (h c hc).2⟩

theorem upper_raised (h : List.Forall₂ Raised cs ds) : upper ds = upper cs := by
  rw [raised_eq h, upper, upper, List.map_map]
  refine List.map_congr_left fun c _ => ?_
  exact Char.toUpper_toUpper_eq_toUpper c

variable {p : Char → Bool}

theorem raised_dropWhile (hp : ∀ {c d}, Raised c d → p d = p c) (h : List.Forall₂ Raised cs ds) :
    List.Forall₂ Raised (cs.dropWhile p) (ds.dropWhile p) := by
  induction h with
  | nil => exact .nil
  | cons hc h ih =>
    rw [List.dropWhile_cons, List.dropWhile_cons, hp hc]
    split
    · exact ih
    · exact .cons hc h

theorem raised_takeWhile (hp : ∀ {c d}, Raised c d → p d = p c) (h : List.Forall₂ Raised cs ds) :
    List.Forall₂ Raised (cs.takeWhile p) (ds.takeWhile p) := by
  induction h with
  | nil => exact .nil
  | cons hc h ih =>
    rw [List.takeWhile_cons, List.takeWhile_cons, hp hc]
    split
    · exact .cons hc ih
    · exact .nil

theorem raised_all (hp : ∀ {c d}, Raised c d → p d = p c) (h : List.Forall₂ Raised cs ds) :
    ds.all p = cs.all p := by
  induction h with
  | nil => rfl
  | cons hc _ ih => rw [List.all_cons, List.all_cons, hp hc, ih]

theorem Raised.isBlank (h : Raised c d) : isBlank d = isBlank c :=
  h.congr fun _ => isBlank_letter

theorem raised_strip (hp : ∀ {c d}, Raised c d → p d = p c) (h : List.Forall₂ Raised cs ds) :
    List.Forall₂ Raised ((cs.dropWhile p).reverse.dropWhile p).reverse
      ((ds.dropWhile p).reverse.dropWhile p).reverse :=
  List.rel_reverse (raised_dropWhile hp (List.rel_reverse (raised_dropWhile hp h)))

theorem raised_trim (h : List.Forall₂ Raised cs ds) :
    List.Forall₂ Raised (trim cs) (trim ds) :=
  raised_strip Raised.isBlank h

theorem raised_unquote (h : List.Forall₂ Raised cs ds) :
    List.Forall₂ Raised (unquote cs) (unquote ds) :=
  raised_strip (Raised.beq (by decide)) h

section

variable {α β γ δ : Type} {R : α → β → Prop} {S : γ → δ → Prop}

theorem rel_bind {o : Option α} {o' : Option β} {f : α → Option γ} {g : β → Option δ}
    (h : Option.Rel R o o') (hf : ∀ a b, R a b → Option.Rel S (f a) (g b)) :
    Option.Rel S (o.bind f) (o'.bind g) := by
  cases h with
  | none => exact .none
  | some hab => exact hf _ _ hab

theorem rel_orElse {o p : Option α} {o' p' : Option β} (h : Option.Rel R o o')
    (hp : Option.Rel R p p') : Option.Rel R (o <|> p) (o' <|> p') := by
  cases h with
  | none => exact hp
  | some hab => exact .some hab

theorem rel_ite {a : α} {b : β} (h : R a b) (t : Bool) :
    Option.Rel R (if t then some a else none) (if t then some b else none) := by
  cases t with
  | true => exact .some h
  | false => exact .none

end

theorem keyword?_raised (k : List Char) (h : List.Forall₂ Raised cs ds) :
    Option.Rel (List.Forall₂ Raised) (keyword? k cs) (keyword? k ds) := by
  induction k generalizing cs ds with
  | nil => exact .some h
  | cons x k ih =>
    cases h with
    | nil => exact .none
    | cons hc h =>
      rw [keyword?, keyword?, hc.spells]
      split
      · exact ih h
      · exact .none

theorem blanks?_raised (h : List.Forall₂ Raised cs ds) :
    Option.Rel (List.Forall₂ Raised) (blanks? cs) (blanks? ds) := by
  cases h with
  | nil => exact .none
  | cons hc h =>
    rw [blanks?, blanks?, hc.isBlank]
    exact rel_ite (raised_dropWhile Raised.isBlank h) _

theorem word?_raised (k : String) (h : List.Forall₂ Raised cs ds) :
    Option.Rel (List.Forall₂ Raised) (word? k cs) (word? k ds) :=
  rel_bind (keyword?_raised _ h) fun _ _ => blanks?_raised

theorem skipBlanks_raised (h : List.Forall₂ Raised cs ds) :
    List.Forall₂ Raised (skipBlanks cs) (skipBlanks ds) :=
  raised_dropWhile Raised.isBlank h

theorem char?_raised (hx : x.isAlpha = false) (h : List.Forall₂ Raised cs ds) :
    Option.Rel (List.Forall₂ Raised) (char? x cs) (char? x ds) := by
  cases h with
  | nil => exact .none
  | cons hc h =>
    rw [char?, char?, hc.beq hx]
    exact rel_ite h _

theorem quote?_raised (h : List.Forall₂ Raised cs ds) :
    Option.Rel (fun _ _ => False) (char? singleQuote cs) (char? singleQuote ds) := by
  cases h with
  | nil => exact .none
  | @cons c d r r' hc h =>
    have hne : ¬ (c == singleQuote) = true := by simpa using hc.single
    rw [char?, char?, hc.beq (by decide), if_neg hne, if_neg hne]
    exact .none

theorem atEnd_raised (h : List.Forall₂ Raised cs ds) : atEnd ds = atEnd cs := by
  have hskip := skipBlanks_raised h
  rw [atEnd, atEnd]
  generalize skipBlanks cs = r, skipBlanks ds = r' at hskip
  cases hskip with
  | nil => rfl
  | cons hc h =>
    simp only [hc.beq (x := ';') (by decide), raised_all Raised.isBlank h]

theorem parenthesised?_raised (h : List.Forall₂ Raised cs ds) :
    Option.Rel (fun x y => List.Forall₂ Raised x.1 y.1 ∧ List.Forall₂ Raised x.2 y.2)
      (parenthesised? cs) (parenthesised? ds) := by
  refine rel_bind (char?_raised (by decide) h) fun r r' hr => ?_
  have hp {c d : Char} (h : Raised c d) : (d != ')') = (c != ')') := by
    rw [bne, bne, h.beq (by decide)]
  have hdrop := raised_dropWhile hp hr
  generalize r.dropWhile (· != ')') = rest, r'.dropWhile (· != ')') = rest' at hdrop
  cases hdrop with
  | nil => exact .none
  | cons _ hrest => exact .some ⟨raised_takeWhile hp hr, hrest⟩

structure SameName (x y : Identifier × List Char) : Prop where
  quoted : y.1.quoted = x.1.quoted
  name : y.1.name = x.1.name
  rest : List.Forall₂ Raised x.2 y.2

theorem identifier?_raised (h : List.Forall₂ Raised cs ds) :
    Option.Rel SameName (identifier? cs) (identifier? ds) := by
  cases h with
  | nil => exact .none
  | @cons c d r r' hc h =>
    have hmark : (c == backquote || c == doubleQuote) = false := by
      simpa [IsMark, not_or] using hc.unmarked
    have hmark' : (d == backquote || d == doubleQuote) = false := by
      rw [hc.beq (by decide), hc.beq (by decide), hmark]
    have hpart {c d : Char} (h : Raised c d) : isIdentifierPart d = isIdentifierPart c :=
      h.congr fun _ => isIdentifierPart_letter
    have hstart : isIdentifierStart d = isIdentifierStart c :=
      hc.congr fun _ => isIdentifierStart_letter
    rw [identifier?, identifier?, hmark, hmark', hstart]
    have hbody := List.Forall₂.cons hc (raised_takeWhile hpart h)
    refine rel_ite ⟨rfl, ?_, raised_dropWhile hpart h⟩ _
    simp only [Identifier.name, Bool.false_eq_true, if_false, upper_raised hbody]

end StatementLog.Statement
