import StatementLog.Proofs.Statement.Raised

namespace StatementLog.Statement

open StatementLog.Text

variable {cs r front body : List Char}

theorem mentions_cons (afterWord : Bool) (c : Char) (r : List Char) :
    mentions afterWord (c :: r) =
      match (if afterWord then none else sourceAt? (c :: r)) with
      | some (i, rest) => i.name :: mentions (!i.quoted) rest
      | none => mentions (isWord c) r := by
  rw [mentions]
  split
  · next h => simp only [h]
  · next h => simp only [h]

/-- The text has `FROM` in it, as a word of its own and in any case, and then an identifier. -/
inductive NamesSource : List Char → Prop
  | intro (front : List Char) {word gap name : List Char} (post : List Char) :
      (∀ c ∈ front.getLast?, isWord c = false) → upper word = "FROM".toList → gap ≠ [] →
        (∀ c ∈ gap, isBlank c = true) → IsIdentifier name →
          NamesSource (front ++ (word ++ (gap ++ (name ++ post))))

theorem NamesSource.append (h : NamesSource body) (hcs : ∀ c ∈ cs.getLast?, isWord c = false) :
    NamesSource (cs ++ body) := by
  cases h with
  | @intro front word gap name post hfront hword hgap hblank hname =>
    rw [← List.append_assoc]
    refine .intro (cs ++ front) post ?_ hword hgap hblank hname
    intro c hc
    rw [List.getLast?_append, Option.mem_def, Option.or_eq_some_iff] at hc
    rcases hc with hc | ⟨-, hc⟩
    · exact hfront c hc
    · exact hcs c hc

theorem isBlank_of_toUpper {c : Char} (h : c.toUpper.isAlpha = true) : isBlank c = false := by
  rw [Char.isAlpha_toUpper_eq_isAlpha] at h
  exact isBlank_letter h

theorem NamesSource.dropWhile (h : NamesSource body) : NamesSource (body.dropWhile isBlank) := by
  cases h with
  | @intro front word gap name post hfront hword hgap hblank hname =>
    obtain ⟨c, word, rfl⟩ := List.exists_cons_of_ne_nil (l := word) (by rintro rfl; cases hword)
    have hc : isBlank c = false := isBlank_of_toUpper (by
      rw [(List.cons_eq_cons.1 hword).1]
      rfl)
    rw [List.dropWhile_append]
    split
    · rw [List.cons_append, List.dropWhile_cons_of_neg (by simp [hc]), ← List.cons_append,
        ← List.nil_append (c :: word ++ _)]
      exact .intro [] post (by simp) hword hgap hblank hname
    · next hne =>
      refine .intro _ post ?_ hword hgap hblank hname
      obtain ⟨gone, hg⟩ := List.dropWhile_suffix (l := front) isBlank
      intro x hx
      refine hfront x ?_
      rw [← hg, List.getLast?_append, Option.mem_def.1 hx]
      rfl

theorem trimEnd_append {c : Char} (hc : isBlank c = false) (cs r : List Char) :
    trimEnd (cs ++ c :: r) = cs ++ c :: trimEnd r := by
  have hreverse : (cs ++ c :: r).reverse = r.reverse ++ c :: cs.reverse := by simp
  rw [trimEnd, trimEnd, hreverse, List.dropWhile_append]
  split
  · next hr =>
    rw [List.isEmpty_iff.1 hr, List.dropWhile_cons_of_neg (by simp [hc])]
    simp
  · simp

theorem Opens.concat (h : Opens cs i []) : ∃ front c, cs = front ++ [c] ∧ isBlank c = false := by
  rcases h.cases with ⟨q, inner, hq, -, -, rfl, -⟩ | ⟨c, part, hc, hpart, rfl, -⟩
  · exact ⟨q :: inner, q, rfl, isBlank_mark hq⟩
  · have hparts : ∀ x ∈ c :: part, isIdentifierPart x = true := by
      rw [List.forall_mem_cons]
      exact ⟨isIdentifierPart_of_start hc, hpart⟩
    rw [List.append_nil]
    refine ⟨_, _, (List.dropLast_append_getLast (List.cons_ne_nil c part)).symm, ?_⟩
    exact isBlank_identifierPart (hparts _ (List.getLast_mem _))

theorem NamesSource.trimEnd (h : NamesSource body) :
    NamesSource (trimEnd body) ∧ ∀ cs, Text.trimEnd (cs ++ body) = cs ++ Text.trimEnd body := by
  cases h with
  | @intro front word gap name post hfront hword hgap hblank hname =>
    obtain ⟨i, hi⟩ := hname
    obtain ⟨start, c, rfl, hc⟩ := hi.concat
    have htrim (cs : List Char) :
        Text.trimEnd (cs ++ (front ++ (word ++ (gap ++ (start ++ [c] ++ post))))) =
          cs ++ (front ++ (word ++ (gap ++ (start ++ [c] ++ Text.trimEnd post)))) := by
      have hcut := trimEnd_append hc (cs ++ (front ++ (word ++ (gap ++ start)))) post
      simpa using hcut
    have hbody := htrim []
    rw [List.nil_append, List.nil_append] at hbody
    refine ⟨?_, fun cs => ?_⟩
    · rw [hbody]
      exact .intro front _ hfront hword hgap hblank ⟨i, hi⟩
    · rw [hbody, htrim]

theorem keyword?_upper {word : List Char} (k : List Char) (h : upper word = k) (r : List Char) :
    keyword? k (word ++ r) = some r := by
  subst h
  induction word with
  | nil => rfl
  | cons c word ih =>
    have hc : spells c.toUpper c = true := by simp [spells]
    change (if spells c.toUpper c then keyword? (upper word) (word ++ r) else none) = some r
    rw [if_pos hc, ih]

theorem identifier?_append (h : IsIdentifier cs) (r : List Char) :
    (identifier? (cs ++ r)).isSome = true := by
  obtain ⟨i, h⟩ := h
  rcases h.cases with ⟨q, inner, hq, hm, hne, rfl, -⟩ | ⟨c, part, hc, -, rfl, -⟩
  · have hopens := Opens.quoted r hq hm hne
    rw [List.cons_append, List.append_assoc, List.singleton_append, hopens.identifier?]
    rfl
  · have hmark : ¬ (c == backquote || c == doubleQuote) = true := by
      simpa [IsMark] using not_isMark_of_start hc
    rw [List.cons_append, identifier?, if_neg hmark, if_pos hc]
    rfl

theorem blanks?_gap {gap : List Char} (hne : gap ≠ []) (hgap : ∀ c ∈ gap, isBlank c = true)
    (r : List Char) : blanks? (gap ++ r) = some (r.dropWhile isBlank) := by
  obtain ⟨c, gap, rfl⟩ := List.exists_cons_of_ne_nil hne
  rw [List.forall_mem_cons] at hgap
  rw [List.cons_append, blanks?, if_pos hgap.1, List.dropWhile_append_of_pos hgap.2]

theorem mentions_ne_nil {afterWord : Bool} (hr : (sourceAt? r).isSome = true)
    (hlast : ∀ c ∈ front.getLast?, isWord c = false) (hfirst : front = [] → afterWord = false) :
    mentions afterWord (front ++ r) ≠ [] := by
  induction front generalizing afterWord with
  | nil =>
    obtain rfl := hfirst rfl
    cases r with
    | nil => cases hr
    | cons c r =>
      obtain ⟨x, hx⟩ := Option.isSome_iff_exists.1 hr
      rw [List.nil_append, mentions_cons, if_neg Bool.false_ne_true, hx]
      exact List.cons_ne_nil _ _
  | cons c front ih =>
    rw [List.cons_append, mentions_cons]
    split
    · exact List.cons_ne_nil _ _
    · refine ih (fun d hd => hlast d ?_) fun he => ?_
      · rw [List.getLast?_cons, Option.mem_def.1 hd]
        rfl
      · subst he
        exact hlast c rfl

theorem firstMentions_ne_nil {names : List String} (h : names ≠ []) : firstMentions names ≠ [] := by
  have hkept (names : List String) {seen : List String} (hseen : seen ≠ []) :
      names.foldl (fun seen s => if s ∈ seen then seen else seen ++ [s]) seen ≠ [] := by
    induction names generalizing seen with
    | nil => exact hseen
    | cons name names ih =>
      rw [List.foldl_cons]
      split
      · exact ih hseen
      · exact ih (by simp)
  obtain ⟨name, names, rfl⟩ := List.exists_cons_of_ne_nil h
  exact hkept names (List.cons_ne_nil name [])

theorem NamesSource.sources (h : NamesSource body) : sources body ≠ [] := by
  cases h with
  | @intro front word gap name post hfront hword hgap hblank hname =>
    refine firstMentions_ne_nil (mentions_ne_nil ?_ hfront fun _ => rfl)
    obtain ⟨i, hi⟩ := hname
    have hfrom : word? "FROM" (word ++ (gap ++ (name ++ post))) = some (name ++ post) := by
      rw [word?, keyword?_upper _ hword, Option.bind_some, blanks?_gap hgap hblank,
        hi.dropWhile_isBlank]
    rw [sourceAt?, hfrom]
    exact identifier?_append ⟨i, hi⟩ post

end StatementLog.Statement
