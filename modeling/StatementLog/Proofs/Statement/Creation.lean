import StatementLog.Proofs.Statement.Identifier

namespace StatementLog.Statement

open StatementLog.Text

variable {cs r rest : List Char} {i : Identifier} {kind : SourceKind} {b : Bool} {name : String}
  {topic : Option String}

theorem createSource?_of_readTrimmed
    (h : readTrimmed cs = .ok (.createSource kind name topic false)) :
    ∃ rest, createSource? cs = some (⟨kind, false, name⟩, rest) ∧ topic? rest = topic := by
  generalize hs : Statement.createSource kind name topic false = statement at h
  cases hasForm_of_readTrimmed h with
  | @createSource head rest hsource =>
    cases head
    cases hs
    exact ⟨rest, hsource, rfl⟩
  | _ => cases hs

theorem createSource?_plain (h : createSource? cs = some (⟨kind, false, name⟩, rest)) :
    ∃ r i, (word? "CREATE" cs).bind kind? = some (kind, r) ∧ identifier? r = some (i, rest) ∧
      i.name = name := by
  obtain ⟨r₁, hr₁, h⟩ := Option.bind_eq_some_iff.1 h
  obtain ⟨⟨kind', r₂⟩, hr₂, h⟩ := Option.bind_eq_some_iff.1 h
  simp only at h
  split at h
  · cases h
  · obtain ⟨⟨i, rest'⟩, hi, h⟩ := Option.bind_eq_some_iff.1 h
    cases h
    exact ⟨r₂, i, by rw [hr₁, Option.bind_some, hr₂], hi, rfl⟩

def creation : List Char :=
  "CREATE STREAM ".toList

theorem kind?_creation (cs : List Char) :
    (word? "CREATE" (creation ++ cs)).bind kind? = some (.stream, cs.dropWhile isBlank) :=
  rfl

theorem word?_if (c d : Char) (cs : List Char) :
    word? "IF" (c :: d :: cs) = none ∨ word? "IF" (c :: d :: cs) = blanks? cs := by
  have hk : keyword? "IF".toList (c :: d :: cs) =
      if spells 'I' c then if spells 'F' d then some cs else none else none := rfl
  rw [word?, hk]
  split
  · split
    · exact .inr rfl
    · exact .inl rfl
  · exact .inl rfl

theorem ifNotExists?_opens {d : Char} (h : Opens cs i []) (hd : isBlank d = false)
    (hn : spells 'N' d = false) (r : List Char) : ifNotExists? (cs ++ ' ' :: d :: r) = none := by
  rcases h.cases with ⟨q, inner, hq, -, -, rfl, -⟩ | ⟨c, part, -, hpart, rfl, -⟩
  · rcases hq with rfl | rfl <;> rfl
  · have hblank (r : List Char) : blanks? (' ' :: d :: r) = some (d :: r) := by
      rw [blanks?, if_pos (by decide), List.dropWhile_cons_of_neg (by simp [hd])]
    have hnone {e : Char} (he : isBlank e = false) (r : List Char) : blanks? (e :: r) = none := by
      rw [blanks?, if_neg (by simp [he])]
    have hif : word? "IF" (c :: (part ++ []) ++ ' ' :: d :: r) = none ∨
        word? "IF" (c :: (part ++ []) ++ ' ' :: d :: r) = some (d :: r) := by
      rw [List.append_nil]
      cases part with
      | nil =>
        rcases word?_if c ' ' (d :: r) with hw | hw
        · exact .inl hw
        · exact .inl (hw.trans (hnone hd r))
      | cons e part =>
        cases part with
        | nil =>
          rcases word?_if c e (' ' :: d :: r) with hw | hw
          · exact .inl hw
          · exact .inr (hw.trans (hblank r))
        | cons x part =>
          have hx : isBlank x = false := isBlank_identifierPart (hpart x (by simp))
          rcases word?_if c e (x :: (part ++ ' ' :: d :: r)) with hw | hw
          · exact .inl hw
          · exact .inl (hw.trans (hnone hx _))
    have hnot : word? "NOT" (d :: r) = none := by
      have hk : keyword? "NOT".toList (d :: r) =
          if spells 'N' d then keyword? "OT".toList r else none := rfl
      rw [word?, hk, hn]
      rfl
    rcases hif with hif | hif <;> rw [ifNotExists?, hif]
    · rfl
    · simp only [Option.bind_eq_bind, Option.bind_some, hnot, Option.bind_none]

def condition (ifNotExists : Bool) : String :=
  if ifNotExists then "IF NOT EXISTS " else ""

def heading (kind : SourceKind) (ifNotExists : Bool) (name : List Char) : List Char :=
  "CREATE ".toList ++ (kind.keyword.toList ++
    (" ".toList ++ ((condition ifNotExists).toList ++ name)))

def asSelect? (cs : List Char) : Option (List Char) :=
  ((blanks? cs).bind (word? "AS")).bind (word? "SELECT")

theorem kind?_heading (h : Opens cs i []) (r : List Char) :
    (word? "CREATE" (heading kind b cs ++ r)).bind kind? =
      some (kind, (condition b).toList ++ (cs ++ r)) := by
  have hkind (rest : List Char) : (word? "CREATE"
      ("CREATE ".toList ++ (kind.keyword.toList ++ ' ' :: rest))).bind kind? =
        some (kind, rest.dropWhile isBlank) := by
    cases kind <;> rfl
  have hskip : ((condition b).toList ++ (cs ++ r)).dropWhile isBlank =
      (condition b).toList ++ (cs ++ r) := by
    cases b with
    | true => rfl
    | false => exact h.dropWhile_isBlank r
  have hlist : heading kind b cs ++ r = "CREATE ".toList ++ (kind.keyword.toList ++
      ' ' :: ((condition b).toList ++ (cs ++ r))) := by
    have hparts (create kind gap condition name : List Char) :
        create ++ (kind ++ (gap ++ (condition ++ name))) ++ r =
          create ++ (kind ++ (gap ++ (condition ++ (name ++ r)))) := by
      simp
    exact hparts ..
  rw [hlist, hkind, hskip]

theorem ifNotExists?_condition {d : Char} (h : Opens cs i []) (hd : isBlank d = false)
    (hn : spells 'N' d = false) (r : List Char) :
    ifNotExists? ((condition b).toList ++ (cs ++ ' ' :: d :: r)) =
      if b then some (cs ++ ' ' :: d :: r) else none := by
  have hread (rest : List Char) :
      ifNotExists? ("IF NOT EXISTS ".toList ++ rest) = some (rest.dropWhile isBlank) := rfl
  cases b with
  | true =>
    refine (hread _).trans ?_
    rw [h.dropWhile_isBlank]
    rfl
  | false => exact ifNotExists?_opens h hd hn r

theorem optional_condition {d : Char} (h : Opens cs i []) (hd : isBlank d = false)
    (hn : spells 'N' d = false) (r : List Char) :
    optional ifNotExists? ((condition b).toList ++ (cs ++ ' ' :: d :: r)) =
      (b, cs ++ ' ' :: d :: r) := by
  rw [optional, ifNotExists?_condition h hd hn]
  cases b with
  | true => rfl
  | false => rfl

theorem identifier?_followed (h : Opens cs i []) (r : List Char) :
    identifier? (cs ++ ' ' :: r) = some (i, ' ' :: r) :=
  (h.append (by simp; decide)).identifier?

theorem createSource?_heading {d : Char} (h : Opens cs i []) (hd : isBlank d = false)
    (hn : spells 'N' d = false) (r : List Char) :
    createSource? (heading kind b cs ++ ' ' :: d :: r) =
      some (⟨kind, b, i.name⟩, ' ' :: d :: r) := by
  obtain ⟨r₁, hr₁, hr₂⟩ := Option.bind_eq_some_iff.1 (kind?_heading h (' ' :: d :: r))
  rw [createSource?, hr₁]
  simp only [Option.bind_eq_bind, Option.bind_some, hr₂, ifNotExists?_condition h hd hn]
  cases b with
  | true =>
    simp only [if_true, Option.bind_some, identifier?_followed h]
    rfl
  | false =>
    have hnone : (if false = true then some (cs ++ ' ' :: d :: r) else none) = none := rfl
    have hempty : (condition false).toList = [] := rfl
    simp only [hnone, Option.bind_none, hempty, List.nil_append, identifier?_followed h]
    rfl

theorem createAsSelect?_heading {d : Char} (h : Opens cs i []) (hd : isBlank d = false)
    (hn : spells 'N' d = false) (r : List Char) :
    createAsSelect? (heading kind b cs ++ ' ' :: d :: r) =
      (asSelect? (optional withClause? (' ' :: d :: r)).2).bind fun body =>
        if body.isEmpty then none else some (⟨kind, b, i.name⟩, body) := by
  obtain ⟨r₁, hr₁, hr₂⟩ := Option.bind_eq_some_iff.1 (kind?_heading h (' ' :: d :: r))
  rw [createAsSelect?, hr₁]
  simp only [Option.bind_eq_bind, Option.bind_some, hr₂, optional_condition h hd hn,
    identifier?_followed h, asSelect?, Option.bind_assoc]
  rfl

theorem topicAt?_of_not_spells {c : Char} (h : spells 'K' c = false) (r : List Char) :
    topicAt? (c :: r) = none := by
  have hk : keyword? "KAFKA_TOPIC".toList (c :: r) =
      if spells 'K' c then keyword? "AFKA_TOPIC".toList r else none := rfl
  rw [topicAt?, hk, h]
  rfl

theorem topic?_append (h : ∀ c ∈ cs, spells 'K' c = false) (r : List Char) :
    topic? (cs ++ r) = topic? r := by
  induction cs with
  | nil => rfl
  | cons c cs ih =>
    rw [List.cons_append, topic?, topicAt?_of_not_spells (h c (by simp))]
    exact ih fun d hd => h d (List.mem_cons_of_mem _ hd)

theorem topic?_of_topicAt? {t : String} (h : topicAt? cs = some t) : topic? cs = some t := by
  cases cs with
  | nil => cases h
  | cons c cs =>
    rw [topic?, h]
    rfl

theorem topicAt?_apart {t : String} (h : topicAt? cs = some t) : singleQuote ∉ t.toList := by
  obtain ⟨r₁, -, h⟩ := Option.bind_eq_some_iff.1 h
  obtain ⟨r₂, -, h⟩ := Option.bind_eq_some_iff.1 h
  obtain ⟨r₃, -, h⟩ := Option.bind_eq_some_iff.1 h
  obtain ⟨⟨inner, r₄⟩, hi, h⟩ := Option.bind_eq_some_iff.1 h
  cases h
  simpa using upTo?_not_mem hi

theorem topic?_apart {t : String} (h : topic? cs = some t) : singleQuote ∉ t.toList := by
  induction cs with
  | nil => cases h
  | cons c cs ih =>
    rw [topic?] at h
    cases hc : topicAt? (c :: cs) with
    | some t' =>
      rw [hc] at h
      cases h
      exact topicAt?_apart hc
    | none =>
      rw [hc] at h
      exact ih h

theorem creation_append (cs r : List Char) :
    creation ++ (cs ++ r) = heading .stream false cs ++ r :=
  rfl

theorem readTrimmed_creation (h : Opens cs i []) (r : List Char) :
    readTrimmed (creation ++ (cs ++ ' ' :: '(' :: r)) =
      .ok (.createSource .stream i.name (topic? (' ' :: '(' :: r)) false) := by
  have hne : ¬ (heading .stream false cs ++ ' ' :: '(' :: r).isEmpty = true := Bool.false_ne_true
  have hselect : asSelect? (optional withClause? (' ' :: '(' :: r)).2 = none := rfl
  rw [creation_append, readTrimmed, if_neg hne]
  simp only [createAsSelect?_heading h (d := '(') rfl rfl, hselect, Option.bind_none,
    createSource?_heading h (d := '(') rfl rfl]

end StatementLog.Statement
