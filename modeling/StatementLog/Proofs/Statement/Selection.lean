import Mathlib.Data.List.TakeWhile
import StatementLog.Proofs.Statement.Creation
import StatementLog.Proofs.Statement.Listing
import StatementLog.Proofs.Statement.Mention

namespace StatementLog

open Text

structure Setting where
  gap : String := ""
  key : String
  value : String

namespace Setting

open Statement

def text (s : Setting) : String :=
  s.gap ++ s.key ++ "='" ++ s.value ++ "'"

structure WellFormed (s : Setting) : Prop where
  gap : ∀ c ∈ s.gap.toList, isBlank c = true
  key : ∃ i, Opens s.key.toList i [] ∧ i.quoted = false
  value : singleQuote ∉ s.value.toList

theorem wellFormed_iff (s : Setting) :
    s.WellFormed ↔ s.gap.toList.all isBlank = true ∧
      (identifier? s.key.toList).any (fun x => !x.1.quoted && x.2.isEmpty) = true ∧
        singleQuote ∉ s.value.toList := by
  rw [List.all_eq_true, Option.any_eq_true]
  constructor
  · rintro ⟨hgap, ⟨i, hi, hplain⟩, hvalue⟩
    exact ⟨hgap, ⟨_, hi.identifier?, by simp [hplain]⟩, hvalue⟩
  · rintro ⟨hgap, ⟨⟨i, r⟩, hi, hend⟩, hvalue⟩
    rw [Bool.and_eq_true, Bool.not_eq_true', List.isEmpty_iff] at hend
    obtain ⟨hplain, rfl⟩ := hend
    exact ⟨hgap, ⟨i, opens_of_identifier? hi, hplain⟩, hvalue⟩

instance (s : Setting) : Decidable s.WellFormed :=
  decidable_of_iff' _ s.wellFormed_iff

def lead (s : Setting) : List Char :=
  s.gap.toList ++ (s.key.toList ++ "='".toList)

theorem toList_text (s : Setting) :
    s.text.toList = s.lead ++ (s.value.toList ++ [singleQuote]) := by
  simp [text, lead, singleQuote]

theorem WellFormed.closing_not_mem_lead {s : Setting} (h : s.WellFormed) : ')' ∉ s.lead := by
  have hgap : ')' ∉ s.gap.toList := fun hm => absurd (h.gap _ hm) (by decide)
  have hkey : ')' ∉ s.key.toList := by
    obtain ⟨i, hi, hplain⟩ := h.key
    rcases hi.cases with ⟨q, inner, -, -, -, -, rfl⟩ | ⟨c, part, hc, hpart, he, -⟩
    · cases hplain
    · rw [he, List.append_nil, List.mem_cons, not_or]
      refine ⟨?_, fun hm => absurd (hpart _ hm) (by decide)⟩
      rintro rfl
      exact absurd hc (by decide)
  simp [lead, hgap, hkey]

end Setting

def settingsText (settings : List Setting) : List Char :=
  (",".intercalate (settings.map Setting.text)).toList

/-- What is left of a value after a closing parenthesis, the first one in the list. -/
def spilt? : List Setting → Option (List Char)
  | [] => none
  | s :: settings =>
    match s.value.toList.dropWhile (· != ')') with
    | [] => spilt? settings
    | _ :: r => some r

namespace Statement

variable {q : Char} {settings : List Setting}

theorem settingsText_cons (s t : Setting) (settings : List Setting) :
    settingsText (s :: t :: settings) = s.text.toList ++ ',' :: settingsText (t :: settings) := by
  simp [settingsText]

theorem dropWhile_closing (cs : List Char) :
    (cs.dropWhile (· != ')') = [] ∧ ')' ∉ cs) ∨
      ∃ front r, cs.dropWhile (· != ')') = ')' :: r ∧ cs = front ++ ')' :: r ∧ ')' ∉ front := by
  cases hd : cs.dropWhile (· != ')') with
  | nil =>
    rw [List.dropWhile_eq_nil_iff] at hd
    exact .inl ⟨rfl, fun hm => by simpa using hd _ hm⟩
  | cons c r =>
    have hc := List.head?_dropWhile_not (· != ')') cs
    rw [hd] at hc
    simp only [List.head?_cons, bne_eq_false_iff_eq] at hc
    subst hc
    refine .inr ⟨cs.takeWhile (· != ')'), r, rfl, ?_, fun hm => ?_⟩
    · rw [← hd, List.takeWhile_append_dropWhile]
    · simpa using List.all_eq_true.1 List.all_takeWhile ')' hm

theorem spilt?_cons (s : Setting) (settings : List Setting) :
    (')' ∉ s.value.toList ∧ spilt? (s :: settings) = spilt? settings) ∨
      ∃ front r, s.value.toList = front ++ ')' :: r ∧ ')' ∉ front ∧
        spilt? (s :: settings) = some r := by
  rcases dropWhile_closing s.value.toList with ⟨hd, hapart⟩ | ⟨front, r, hd, he, hapart⟩
  · exact .inl ⟨hapart, by rw [spilt?, hd]⟩
  · exact .inr ⟨front, r, he, hapart, by rw [spilt?, hd]⟩

theorem settingsText_cut (h : ∀ s ∈ settings, s.WellFormed) :
    (spilt? settings = none ∧ ')' ∉ settingsText settings) ∨
      ∃ front r more, spilt? settings = some r ∧ ')' ∉ front ∧
        settingsText settings = front ++ ')' :: (r ++ singleQuote :: more) := by
  induction settings with
  | nil => exact .inl ⟨rfl, by simp [settingsText]⟩
  | cons s settings ih =>
    have hlead := (h s (by simp)).closing_not_mem_lead
    have ih := ih fun t ht => h t (List.mem_cons_of_mem _ ht)
    -- the text of the first setting, and what the others add to it
    obtain ⟨others, htext, hothers⟩ : ∃ others,
        settingsText (s :: settings) = s.text.toList ++ others ∧
          (settings = [] ∧ others = [] ∨ others = ',' :: settingsText settings) := by
      cases settings with
      | nil => exact ⟨[], by simp [settingsText], .inl ⟨rfl, rfl⟩⟩
      | cons t settings => exact ⟨_, settingsText_cons s t settings, .inr rfl⟩
    rw [htext, Setting.toList_text]
    rcases spilt?_cons s settings with ⟨hapart, he⟩ | ⟨front, r, hvalue, hapart, he⟩
    · rw [he]
      have hfirst : ')' ∉ s.lead ++ (s.value.toList ++ [singleQuote]) := by
        simp [hlead, hapart, singleQuote]
      rcases hothers with ⟨rfl, rfl⟩ | rfl
      · exact .inl ⟨rfl, by simpa using hfirst⟩
      · rcases ih with ⟨hnone, hclear⟩ | ⟨front, r, more, hsome, hfront, hcut⟩
        · exact .inl ⟨hnone, by simpa [hclear] using hfirst⟩
        · refine .inr ⟨s.lead ++ (s.value.toList ++ [singleQuote]) ++ ',' :: front, r, more, hsome,
            by simpa [hfront] using hfirst, ?_⟩
          rw [hcut, List.append_assoc _ (',' :: front), List.cons_append]
    · refine .inr ⟨s.lead ++ front, r, others, he, by simp [hlead, hapart], ?_⟩
      rw [hvalue]
      simp

def StopsAt (q : Char) (reader : List Char → Option (List Char)) : Prop :=
  ∀ cs r, reader (cs ++ q :: r) = (reader cs).map (· ++ q :: r)

theorem StopsAt.bind {f g : List Char → Option (List Char)} (hf : StopsAt q f)
    (hg : StopsAt q g) : StopsAt q fun cs => (f cs).bind g := by
  intro cs r
  change (f (cs ++ q :: r)).bind g = ((f cs).bind g).map (· ++ q :: r)
  rw [hf]
  cases f cs with
  | none => rfl
  | some cs => exact hg cs r

theorem stopsAt_blanks? (h : isBlank q = false) : StopsAt q blanks? := by
  have hstop (r : List Char) : (q :: r).dropWhile isBlank = q :: r :=
    List.dropWhile_cons_of_neg (by simp [h])
  intro cs r
  cases cs with
  | nil =>
    simp only [List.nil_append, blanks?, h]
    rfl
  | cons c cs =>
    have hdrop : (cs ++ q :: r).dropWhile isBlank = cs.dropWhile isBlank ++ q :: r := by
      rw [List.dropWhile_append]
      split
      · next hcs => rw [List.isEmpty_iff.1 hcs, hstop, List.nil_append]
      · rfl
    rw [List.cons_append, blanks?, blanks?, hdrop]
    split <;> rfl

theorem stopsAt_keyword? {k : List Char} (h : ∀ x ∈ k, spells x q = false) :
    StopsAt q (keyword? k) := by
  intro cs r
  induction k generalizing cs with
  | nil => rfl
  | cons x k ih =>
    rw [List.forall_mem_cons] at h
    cases cs with
    | nil =>
      simp only [List.nil_append, keyword?, h.1]
      rfl
    | cons c cs =>
      rw [List.cons_append, keyword?, keyword?, ih h.2]
      split <;> rfl

theorem stopsAt_word? {k : String} (h : isBlank q = false)
    (hk : k.toList.all (fun x => !spells x q) = true) : StopsAt q (word? k) :=
  (stopsAt_keyword? (by simpa using hk)).bind (stopsAt_blanks? h)

theorem stopsAt_asSelect? : StopsAt singleQuote asSelect? :=
  ((stopsAt_blanks? (by decide)).bind (stopsAt_word? (by decide) (by decide +kernel))).bind
    (stopsAt_word? (by decide) (by decide +kernel))

end Statement

structure Selection where
  kind : SourceKind
  ifNotExists : Bool
  name : String
  settings : List Setting
  body : String

namespace Selection

open Statement

def text (s : Selection) : String :=
  "CREATE " ++ s.kind.keyword ++ " " ++ condition s.ifNotExists ++ s.name ++ " WITH (" ++
    ",".intercalate (s.settings.map Setting.text) ++ ") AS SELECT " ++ s.body

structure WellFormed (s : Selection) : Prop where
  name : IsIdentifier s.name.toList
  settings : ∀ x ∈ s.settings, x.WellFormed
  body : NamesSource s.body.toList

/-- Where a value has a closing parenthesis in it, the first of them is followed by a query. -/
def Kept (s : Selection) : Prop :=
  ∀ r ∈ spilt? s.settings, (asSelect? r).isSome = true

instance (s : Selection) : Decidable s.Kept :=
  inferInstanceAs (Decidable (∀ r ∈ spilt? s.settings, (asSelect? r).isSome = true))

def opening (s : Selection) : List Char :=
  heading s.kind s.ifNotExists s.name.toList

def selecting : List Char :=
  ") AS SELECT ".toList

def clause (s : Selection) (body : List Char) : List Char :=
  " WITH (".toList ++ (settingsText s.settings ++ (selecting ++ body))

theorem toList_text (s : Selection) : s.text.toList = s.opening ++ s.clause s.body.toList := by
  have hparts (create kind gap condition name list settings query body : String) :
      (create ++ kind ++ gap ++ condition ++ name ++ list ++ settings ++ query ++ body).toList =
        create.toList ++ (kind.toList ++ (gap.toList ++ (condition.toList ++ name.toList))) ++
          (list.toList ++ (settings.toList ++ (query.toList ++ body.toList))) := by
    simp
  exact hparts ..

variable {s : Selection} {body front r : List Char}

theorem trim_text (h : s.WellFormed) :
    trim s.text.toList = s.opening ++ s.clause (trimEnd s.body.toList) := by
  have hstart : trimStart s.text.toList = s.text.toList := by
    have hc : s.opening = 'C' :: s.opening.tail := rfl
    rw [toList_text, hc, List.cons_append, trimStart, List.dropWhile_cons_of_neg (by decide)]
  obtain ⟨front, hfront⟩ : ∃ front, ∀ body, s.opening ++ s.clause body = front ++ body := by
    have hparts (opening list settings query body : List Char) :
        opening ++ (list ++ (settings ++ (query ++ body))) =
          opening ++ (list ++ (settings ++ query)) ++ body := by
      simp
    exact ⟨_, fun body => hparts _ _ _ _ body⟩
  rw [trim, hstart, toList_text, hfront, h.body.trimEnd.2, ← hfront]

theorem withClause?_cut (h : ')' ∉ front) (r : List Char) :
    withClause? (" WITH (".toList ++ (front ++ ')' :: r)) = some r := by
  have hopen (cs : List Char) : withClause? (" WITH (".toList ++ cs) =
      (parenthesised? ('(' :: cs)).bind fun x => some x.2 := rfl
  rw [hopen, parenthesised?_append h]
  rfl

theorem withClause?_clause
    (hcut : settingsText s.settings ++ (selecting ++ body) = front ++ ')' :: r)
    (h : ')' ∉ front) : withClause? (s.clause body) = some r :=
  (congrArg (fun cs => withClause? (" WITH (".toList ++ cs)) hcut).trans (withClause?_cut h r)

theorem selecting_append (body : List Char) :
    selecting ++ body = ')' :: (selecting.tail ++ body) :=
  rfl

theorem asSelect?_selecting (body : List Char) :
    asSelect? (selecting.tail ++ body) = some (body.dropWhile isBlank) :=
  rfl

theorem getLast?_blank (cs : List Char) : ∀ c ∈ (cs ++ [' ']).getLast?, isWord c = false := by
  have hblank : isWord ' ' = false := by decide +kernel
  intro c hc
  rw [List.getLast?_concat, Option.mem_some_iff] at hc
  exact hc ▸ hblank

theorem getLast?_selecting (cs : List Char) :
    ∀ c ∈ (cs ++ selecting).getLast?, isWord c = false := by
  have hend : selecting = selecting.dropLast ++ [' '] := by decide +kernel
  rw [hend, ← List.append_assoc]
  exact getLast?_blank _

theorem clause_tail (h : s.WellFormed) (hb : NamesSource body) :
    ∃ tail, withClause? (s.clause body) = some tail ∧ ((asSelect? tail).isSome = true ↔ s.Kept) ∧
      ∀ query, asSelect? tail = some query → NamesSource query := by
  rcases settingsText_cut h.settings with ⟨hnone, hapart⟩ | ⟨front, r, more, hsome, hapart, hcut⟩
  · refine ⟨selecting.tail ++ body, withClause?_clause (by rw [selecting_append]) hapart, ?_, ?_⟩
    · rw [asSelect?_selecting, Kept, hnone]
      simp
    · intro query hq
      rw [asSelect?_selecting] at hq
      cases hq
      exact hb.dropWhile
  · have hstop := stopsAt_asSelect? r (more ++ (selecting ++ body))
    refine ⟨r ++ singleQuote :: (more ++ (selecting ++ body)),
      withClause?_clause (by rw [hcut]; simp) hapart, ?_, ?_⟩
    · rw [hstop, Option.isSome_map, Kept, hsome]
      simp
    · intro query hq
      rw [hstop, Option.map_eq_some_iff] at hq
      obtain ⟨rest, -, rfl⟩ := hq
      have hparts : rest ++ singleQuote :: (more ++ (selecting ++ body)) =
          rest ++ singleQuote :: more ++ selecting ++ body := by
        simp
      rw [hparts]
      exact hb.append (getLast?_selecting _)

theorem clause_start (s : Selection) (body : List Char) :
    ∃ r, s.clause body = ' ' :: 'W' :: r :=
  ⟨_, rfl⟩

theorem readTrimmed_text (h : s.WellFormed) (hb : NamesSource body) :
    (s.Kept ∧ ∃ sources, readTrimmed (s.opening ++ s.clause body) =
      .ok (.createAsSelect s.kind (folded s.name.toList) sources s.ifNotExists)) ∨
    (¬ s.Kept ∧ ∃ topic, readTrimmed (s.opening ++ s.clause body) =
      .ok (.createSource s.kind (folded s.name.toList) topic s.ifNotExists)) := by
  obtain ⟨i, hi⟩ := h.name
  obtain ⟨tail, hclause, hkept, hnames⟩ := clause_tail h hb
  obtain ⟨r, hr⟩ := s.clause_start body
  rw [hr] at hclause ⊢
  have hne : ¬ (s.opening ++ ' ' :: 'W' :: r).isEmpty = true := Bool.false_ne_true
  have hcreate : createSource? (s.opening ++ ' ' :: 'W' :: r) =
      some (⟨s.kind, s.ifNotExists, i.name⟩, ' ' :: 'W' :: r) := createSource?_heading hi rfl rfl r
  have hselect : createAsSelect? (s.opening ++ ' ' :: 'W' :: r) =
      (asSelect? tail).bind fun body =>
        if body.isEmpty then none else some (⟨s.kind, s.ifNotExists, i.name⟩, body) := by
    rw [opening, createAsSelect?_heading hi rfl rfl, Statement.optional, hclause]
  rw [readTrimmed, if_neg hne]
  cases htail : asSelect? tail with
  | none =>
    rw [htail] at hselect hkept
    rw [Option.bind_none] at hselect
    refine .inr ⟨fun hk => absurd (hkept.2 hk) (by simp), topic? (' ' :: 'W' :: r), ?_⟩
    simp only [hselect, hcreate, hi.name]
  | some query =>
    have hquery := hnames query htail
    rw [htail] at hselect hkept
    have hbody : ¬ query.isEmpty = true := by
      rw [List.isEmpty_iff]
      rintro rfl
      exact hquery.sources (by rw [sources, mentions]; rfl)
    rw [Option.bind_some, if_neg hbody] at hselect
    obtain ⟨source, sources, hsources⟩ := List.exists_cons_of_ne_nil hquery.sources
    refine .inl ⟨hkept.1 rfl, source :: sources, ?_⟩
    simp only [hselect, hsources, hi.name]

/-- The creation of a source from a query is read as one, with its kind, its name and its condition,
exactly if no value of its settings has a closing parenthesis in it or the first one is followed by
what a query begins with. Else it is taken for a plain creation, of the same kind, name and
condition. -/
theorem selection_kept_iff (h : s.WellFormed) :
    ((∃ sources, read s.text =
        .ok (.createAsSelect s.kind (folded s.name.toList) sources s.ifNotExists)) ↔ s.Kept) ∧
    ((∃ topic, read s.text =
        .ok (.createSource s.kind (folded s.name.toList) topic s.ifNotExists)) ↔ ¬ s.Kept) := by
  have hread := readTrimmed_text h h.body.trimEnd.1
  rw [← trim_text h] at hread
  rcases hread with ⟨hkept, sources, hs⟩ | ⟨hkept, topic, ht⟩
  · refine ⟨iff_of_true ⟨sources, hs⟩ hkept, iff_of_false ?_ (not_not_intro hkept)⟩
    rintro ⟨topic, ht⟩
    cases hs.symm.trans ht
  · refine ⟨iff_of_false ?_ hkept, iff_of_true ⟨topic, ht⟩ hkept⟩
    rintro ⟨sources, hs⟩
    cases ht.symm.trans hs

theorem namesSource_of_star {word name : List Char} (post : List Char)
    (hword : upper word = "FROM".toList) (hname : IsIdentifier name) :
    NamesSource (['*', ' '] ++ (word ++ ([' '] ++ (name ++ post)))) := by
  have hblank : ∀ c ∈ [' '], isBlank c = true := by
    rw [List.forall_mem_singleton]
    decide
  exact .intro _ post (getLast?_blank ['*']) hword (List.cons_ne_nil _ _) hblank hname

def resumed : Selection where
  kind := .table
  ifNotExists := true
  name := "`Sales by day`"
  settings := [{ key := "KAFKA_TOPIC", value := "a(b,c" },
    { gap := " ", key := "NOTE", value := "x) as select y" }]
  body := "* from sales GROUP BY day;"

def brokenOff : Selection where
  kind := .stream
  ifNotExists := false
  name := "A"
  settings := [{ key := "KAFKA_TOPIC", value := "a)b" }]
  body := "* FROM s;"

theorem resumed_wellFormed : resumed.WellFormed where
  name := by decide +kernel
  settings := by decide +kernel
  body := by
    have hbody : resumed.body.toList =
        ['*', ' '] ++ ("from".toList ++ ([' '] ++
          ("sales".toList ++ " GROUP BY day;".toList))) := by
      decide +kernel
    exact hbody ▸ namesSource_of_star _ (by decide +kernel) (by decide +kernel)

theorem selection_kept_iff_resumed :
    resumed.WellFormed ∧ ∃ sources, read resumed.text =
      .ok (.createAsSelect .table "Sales by day" sources true) := by
  refine ⟨resumed_wellFormed, ?_⟩
  have hname : folded resumed.name.toList = "Sales by day" := by decide +kernel
  have hkept : resumed.Kept := by decide +kernel
  exact hname ▸ (selection_kept_iff resumed_wellFormed).1.2 hkept

/-- The query is lost without an error, while the value is read whole as the topic. -/
theorem selection_lost_of_closingValue :
    brokenOff.WellFormed ∧
      read brokenOff.text = .ok (.createSource .stream "A" (some "a)b") false) ∧
      ∀ sources, read brokenOff.text ≠ .ok (.createAsSelect .stream "A" sources false) := by
  have hread : read brokenOff.text = .ok (.createSource .stream "A" (some "a)b") false) := by
    decide +kernel
  refine ⟨⟨by decide +kernel, by decide +kernel, ?_⟩, hread, fun sources hs => ?_⟩
  · have hbody : brokenOff.body.toList =
        ['*', ' '] ++ ("FROM".toList ++ ([' '] ++ (['s'] ++ [';']))) := by
      decide +kernel
    exact hbody ▸ namesSource_of_star _ (by decide +kernel) (by decide +kernel)
  · cases hread.symm.trans hs

end Selection

end StatementLog
