import StatementLog.Proofs.Statement.Naming

namespace StatementLog

open StatementLog.Text

def SourceKind.keyword : SourceKind → String
  | .stream => "STREAM"
  | .table => "TABLE"

namespace Statement

def IsMark (q : Char) : Prop :=
  q = backquote ∨ q = doubleQuote

structure Fits (q : Char) (name : String) : Prop where
  mark : IsMark q
  apart : q ∉ name.toList
  ne_empty : name ≠ ""

def markFor (name : String) : Char :=
  if backquote ∈ name.toList then doubleQuote else backquote

def Quotable (name : String) : Prop :=
  Fits (markFor name) name

def quoted (name : String) : String :=
  String.singleton (markFor name) ++ name ++ String.singleton (markFor name)

def terminationOf (query : String) : String :=
  "TERMINATE " ++ quoted query ++ ";"

def dropOf (kind : SourceKind) (name : String) : String :=
  "DROP " ++ kind.keyword ++ " " ++ quoted name ++ ";"

variable {cs r : List Char} {q c : Char} {name : String}

theorem Fits.quotable (h : Fits q name) : Quotable name := by
  refine ⟨?_, ?_, h.ne_empty⟩
  · rw [markFor]
    split
    · exact .inr rfl
    · exact .inl rfl
  · rw [markFor]
    split
    · next hb =>
      rcases h.mark with rfl | rfl
      · exact absurd hb h.apart
      · exact h.apart
    · next hb => exact hb

theorem eq_of_toUpper (hq : IsMark q) (h : c.toUpper = q) : c = q := by
  unfold Char.toUpper at h
  split at h
  · next hc =>
    obtain ⟨hlow, hhigh⟩ := hc
    subst h
    rcases hq with hq | hq <;>
    · have hv := congrArg Char.val hq
      simp only [backquote, doubleQuote] at hv
      simp only [UInt32.le_iff_toNat_le, ← UInt32.toNat_inj, UInt32.toNat_add] at hlow hhigh hv
      revert hlow hhigh hv
      simp
      omega
  · exact h

theorem not_mem_upper (hq : IsMark q) (h : q ∉ cs) : q ∉ upper cs := by
  intro hm
  obtain ⟨c, hc, he⟩ := List.mem_map.1 hm
  exact h (eq_of_toUpper hq he ▸ hc)

theorem isIdentifierPart_mark (hq : IsMark q) : isIdentifierPart q = false := by
  rcases hq with rfl | rfl <;> decide

theorem upTo?_not_mem {inner : List Char} (h : upTo? q cs = some (inner, r)) : q ∉ inner := by
  unfold upTo? at h
  split at h
  · cases h
  · split at h <;> cases h
    intro hm
    simpa using List.all_eq_true.1 List.all_takeWhile q hm

theorem IsName.quotable (h : IsName name) : Quotable name := by
  have hne := h.ne_empty
  obtain ⟨cs, i, r, h, rfl⟩ := h
  cases cs with
  | nil => cases h
  | cons c cs =>
    rw [identifier?] at h
    split at h
    · next hq =>
      obtain ⟨⟨inner, r'⟩, hi, he⟩ := Option.map_eq_some_iff.1 h
      cases he
      have hapart : c ∉ (Identifier.name ⟨true, inner⟩).toList := by
        simpa [Identifier.name] using upTo?_not_mem hi
      exact Fits.quotable ⟨by simpa [IsMark] using hq, hapart, hne⟩
    · split at h
      · next hc =>
        cases h
        have hmark : IsMark backquote := .inl rfl
        have hparts : ∀ x ∈ c :: cs.takeWhile isIdentifierPart, isIdentifierPart x = true := by
          intro x hx
          rcases List.mem_cons.1 hx with rfl | hx
          · simp [isIdentifierPart, hc]
          · exact List.all_eq_true.1 List.all_takeWhile x hx
        have hbody : backquote ∉ c :: cs.takeWhile isIdentifierPart := fun hm =>
          absurd (hparts _ hm) (by simp [isIdentifierPart_mark hmark])
        have hapart : backquote ∉
            (Identifier.name ⟨false, c :: cs.takeWhile isIdentifierPart⟩).toList := by
          simpa [Identifier.name] using not_mem_upper hmark hbody
        exact Fits.quotable ⟨hmark, hapart, hne⟩
      · cases h

theorem upTo?_append (hm : q ∉ cs) (hne : cs ≠ []) (r : List Char) :
    upTo? q (cs ++ q :: r) = some (cs, r) := by
  have hcs : ∀ x ∈ cs, (x != q) = true := by
    intro x hx
    rw [bne_iff_ne]
    rintro rfl
    exact hm hx
  rw [upTo?, List.dropWhile_append_of_pos hcs, List.takeWhile_append_of_pos hcs]
  simp [hne]

theorem identifier?_quoted (h : Fits q name) (r : List Char) :
    identifier? (q :: (name.toList ++ q :: r)) = some (⟨true, name.toList⟩, r) := by
  have hmark : (q == backquote || q == doubleQuote) = true := by simpa [IsMark] using h.mark
  have hne : name.toList ≠ [] := by simpa using h.ne_empty
  rw [identifier?, if_pos hmark, upTo?_append h.apart hne]
  rfl

theorem trim_eq {d : Char} (hc : isBlank c = false) (hd : isBlank d = false) (cs : List Char) :
    trim (c :: (cs ++ [d])) = c :: (cs ++ [d]) := by
  have hstart : trimStart (c :: (cs ++ [d])) = c :: (cs ++ [d]) := by
    rw [trimStart, List.dropWhile_cons_of_neg (by simp [hc])]
  rw [trim, hstart, trimEnd, ← List.cons_append, List.reverse_append, List.reverse_singleton,
    List.singleton_append, List.dropWhile_cons_of_neg (by simp [hd])]
  simp

theorem queryName?_quoted (h : Fits q name) :
    queryName? (q :: (name.toList ++ [q, ';'])) = some name := by
  rw [queryName?, identifier?_quoted h]
  simp [Identifier.name, atEnd, skipBlanks, isBlank]

theorem terminateQuery?_quoted (h : Fits q name) :
    terminateQuery? ("TERMINATE ".toList ++ q :: (name.toList ++ [q, ';'])) =
      some (.terminateQuery name) := by
  have hword (cs : List Char) :
      word? "TERMINATE" ("TERMINATE ".toList ++ q :: cs) = some (q :: cs) := by
    rcases h.mark with rfl | rfl <;> rfl
  have hquery (cs : List Char) : word? "QUERY" (q :: cs) = none := by
    rcases h.mark with rfl | rfl <;> rfl
  rw [terminateQuery?, hword]
  simp [hquery, queryName?_quoted h]

theorem read_terminationOf (h : Quotable name) :
    read (terminationOf name) = .ok (.terminateQuery name) := by
  have hlist : (terminationOf name).toList =
      "TERMINATE ".toList ++ markFor name :: (name.toList ++ [markFor name, ';']) := by
    simp [terminationOf, quoted]
  have htrim : trim (terminationOf name).toList = (terminationOf name).toList := by
    have := trim_eq (c := 'T') (d := ';') rfl rfl
      ("ERMINATE ".toList ++ markFor name :: (name.toList ++ [markFor name]))
    simpa [hlist] using this
  have hcluster : terminateCluster?
      ("TERMINATE ".toList ++ markFor name :: (name.toList ++ [markFor name, ';'])) = none := by
    rcases h.mark with hq | hq <;> rw [hq] <;> rfl
  have hselect (cs : List Char) : createAsSelect? ("TERMINATE ".toList ++ cs) = none := rfl
  have hcreate (cs : List Char) : createSource? ("TERMINATE ".toList ++ cs) = none := rfl
  have hinsert (cs : List Char) : insertInto? ("TERMINATE ".toList ++ cs) = none := rfl
  have hdrop (cs : List Char) : dropSource? ("TERMINATE ".toList ++ cs) = none := rfl
  rw [read, htrim, hlist, readTrimmed, if_neg (by simp)]
  simp only [hselect, hcreate, hinsert, hdrop, hcluster, terminateQuery?_quoted h]

theorem dropSource?_quoted (h : Fits q name) (kind : SourceKind) :
    dropSource? ("DROP ".toList ++ (kind.keyword.toList ++ ' ' :: q :: (name.toList ++ [q, ';']))) =
      some (.dropSource kind name false false) := by
  have hword (cs : List Char) : (word? "DROP" ("DROP ".toList ++ (kind.keyword.toList ++ cs))) =
      some (kind.keyword.toList ++ cs) := by
    cases kind <;> rfl
  have hkind (cs : List Char) : kind? (kind.keyword.toList ++ ' ' :: q :: cs) =
      some (kind, q :: cs) := by
    rcases h.mark with rfl | rfl <;> cases kind <;> rfl
  have hexists (cs : List Char) : ifExists? (q :: cs) = none := by
    rcases h.mark with rfl | rfl <;> rfl
  have hend : atEnd [';'] = true := rfl
  have htopic : deleteTopic? [';'] = none := rfl
  rw [dropSource?, hword]
  simp [hkind, optional, hexists, identifier?_quoted h, htopic, hend, Identifier.name]

theorem read_dropOf (h : Quotable name) (kind : SourceKind) :
    read (dropOf kind name) = .ok (.dropSource kind name false false) := by
  have hlist : (dropOf kind name).toList = "DROP ".toList ++
      (kind.keyword.toList ++ ' ' :: markFor name :: (name.toList ++ [markFor name, ';'])) := by
    simp [dropOf, quoted]
  have htrim : trim (dropOf kind name).toList = (dropOf kind name).toList := by
    have := trim_eq (c := 'D') (d := ';') rfl rfl
      ("ROP ".toList ++ (kind.keyword.toList ++ ' ' :: markFor name :: (name.toList ++ [markFor name])))
    simpa [hlist] using this
  have hselect (cs : List Char) : createAsSelect? ("DROP ".toList ++ cs) = none := rfl
  have hcreate (cs : List Char) : createSource? ("DROP ".toList ++ cs) = none := rfl
  have hinsert (cs : List Char) : insertInto? ("DROP ".toList ++ cs) = none := rfl
  rw [read, htrim, hlist, readTrimmed, if_neg (by simp)]
  simp only [hselect, hcreate, hinsert, dropSource?_quoted h]

end Statement

end StatementLog
