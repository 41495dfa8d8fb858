import StatementLog.Proofs.Statement.Mention

namespace StatementLog

open Text

def capitals (s : String) : String :=
  String.ofList (upper s.toList)

def Statement.raised : Statement → Statement
  | .terminateCluster topics => .terminateCluster (topics.map capitals)
  | statement => statement

def ParseFault.raised : ParseFault → ParseFault
  | .noFromClause text => .noFromClause (capitals text)
  | .notDistributed text => .notDistributed (capitals text)
  | fault => fault

namespace Statement

variable {cs ds : List Char}

theorem capitals_raised (h : List.Forall₂ Raised cs ds) :
    String.ofList ds = capitals (String.ofList cs) := by
  rw [capitals, String.toList_ofList, raised_eq h]

theorem sourceAt?_raised (h : List.Forall₂ Raised cs ds) :
    Option.Rel SameName (sourceAt? cs) (sourceAt? ds) :=
  rel_bind (rel_orElse (word?_raised "FROM" h) (word?_raised "JOIN" h))
    fun _ _ => identifier?_raised

theorem mentions_raised (afterWord : Bool) (h : List.Forall₂ Raised cs ds) :
    mentions afterWord ds = mentions afterWord cs := by
  have hsource (afterWord : Bool) {cs ds : List Char} (h : List.Forall₂ Raised cs ds) :
      Option.Rel SameName (if afterWord then none else sourceAt? cs)
        (if afterWord then none else sourceAt? ds) := by
    cases afterWord with
    | true => exact .none
    | false => exact sourceAt?_raised h
  fun_induction mentions afterWord cs generalizing ds with
  | case1 afterWord =>
    cases h
    rw [mentions]
  | case2 afterWord c r i rest hi _ ih =>
    have hboth := hsource afterWord h
    rw [dite_eq_ite] at hi
    rw [hi] at hboth
    cases h with
    | @cons _ d _ r' hc h =>
      rw [mentions_cons]
      generalize (if afterWord then none else sourceAt? (d :: r')) = o at hboth
      cases hboth with
      | some hsame => simp only [hsame.name, hsame.quoted, ih hsame.rest]
  | case3 afterWord c r hi ih =>
    have hboth := hsource afterWord h
    rw [dite_eq_ite] at hi
    rw [hi] at hboth
    cases h with
    | @cons _ d _ r' hc h =>
      rw [mentions_cons]
      generalize (if afterWord then none else sourceAt? (d :: r')) = o at hboth
      cases hboth with
      | none => simp only [hc.congr fun _ => isWord_letter, ih h]

theorem sources_raised (h : List.Forall₂ Raised cs ds) : sources ds = sources cs := by
  rw [sources, sources, mentions_raised false h]

def Beside {α : Type} (x y : α × List Char) : Prop :=
  y.1 = x.1 ∧ List.Forall₂ Raised x.2 y.2

theorem kind?_raised (h : List.Forall₂ Raised cs ds) :
    Option.Rel Beside (kind? cs) (kind? ds) := by
  have hstream := word?_raised "STREAM" h
  have htable := word?_raised "TABLE" h
  rw [kind?, kind?]
  generalize word? "STREAM" cs = o, word? "STREAM" ds = o' at hstream
  generalize word? "TABLE" cs = p, word? "TABLE" ds = p' at htable
  cases hstream with
  | some hr => exact .some ⟨rfl, hr⟩
  | none =>
    cases htable with
    | some hr => exact .some ⟨rfl, hr⟩
    | none => exact .none

def Unaffected (clause : List Char → Option (List Char)) : Prop :=
  ∀ {cs ds}, List.Forall₂ Raised cs ds →
    Option.Rel (List.Forall₂ Raised) (clause cs) (clause ds)

theorem optional_raised {clause : List Char → Option (List Char)} (hclause : Unaffected clause)
    (h : List.Forall₂ Raised cs ds) : Beside (optional clause cs) (optional clause ds) := by
  have hboth := hclause h
  rw [optional, optional]
  generalize clause cs = o, clause ds = o' at hboth
  cases hboth with
  | none => exact ⟨rfl, h⟩
  | some hr => exact ⟨rfl, hr⟩

theorem ifNotExists?_raised : Unaffected ifNotExists? := fun h =>
  rel_bind (word?_raised "IF" h) fun _ _ h =>
    rel_bind (word?_raised "NOT" h) fun _ _ h => word?_raised "EXISTS" h

theorem ifExists?_raised : Unaffected ifExists? := fun h =>
  rel_bind (word?_raised "IF" h) fun _ _ h => word?_raised "EXISTS" h

theorem withClause?_raised : Unaffected withClause? := fun h =>
  rel_bind (blanks?_raised h) fun _ _ h => rel_bind (keyword?_raised _ h) fun _ _ h =>
    rel_bind (parenthesised?_raised (skipBlanks_raised h)) fun _ _ h => .some h.2

theorem deleteTopic?_raised : Unaffected deleteTopic? := fun h =>
  rel_bind (blanks?_raised h) fun _ _ h => rel_bind (word?_raised "DELETE" h) fun _ _ h =>
    keyword?_raised _ h

theorem deleteTopics?_raised (h : List.Forall₂ Raised cs ds) :
    Option.Rel (fun x y => List.Forall₂ Raised x.1 y.1 ∧ List.Forall₂ Raised x.2 y.2)
      (deleteTopics? cs) (deleteTopics? ds) :=
  rel_bind (blanks?_raised h) fun _ _ h => rel_bind (word?_raised "DELETE" h) fun _ _ h =>
    rel_bind (keyword?_raised _ h) fun _ _ h => parenthesised?_raised (skipBlanks_raised h)

theorem isEmpty_raised (h : List.Forall₂ Raised cs ds) : ds.isEmpty = cs.isEmpty := by
  cases h <;> rfl

theorem body_raised {α : Type} (a : α) (h : List.Forall₂ Raised cs ds) :
    Option.Rel Beside (if cs.isEmpty then none else some (a, cs))
      (if ds.isEmpty then none else some (a, ds)) := by
  rw [isEmpty_raised h]
  split
  · exact .none
  · exact .some ⟨rfl, h⟩

theorem createAsSelect?_raised (h : List.Forall₂ Raised cs ds) :
    Option.Rel Beside (createAsSelect? cs) (createAsSelect? ds) := by
  refine rel_bind (word?_raised "CREATE" h) fun r d h => rel_bind (kind?_raised h) ?_
  rintro ⟨kind, r⟩ ⟨_, d⟩ ⟨rfl, h⟩
  have hcondition := optional_raised ifNotExists?_raised h
  simp only
  generalize optional ifNotExists? r = x, optional ifNotExists? d = y at hcondition
  obtain ⟨condition, r⟩ := x
  obtain ⟨_, d⟩ := y
  obtain ⟨rfl, h⟩ := hcondition
  refine rel_bind (identifier?_raised h) fun x y hsame => ?_
  have hclause := optional_raised withClause?_raised hsame.rest
  simp only
  generalize optional withClause? x.2 = r, optional withClause? y.2 = d at hclause
  refine rel_bind (blanks?_raised hclause.2) fun _ _ h => rel_bind (word?_raised "AS" h)
    fun _ _ h => rel_bind (word?_raised "SELECT" h) fun _ _ h => ?_
  rw [hsame.name]
  exact body_raised _ h

theorem createSource?_raised (h : List.Forall₂ Raised cs ds) :
    Option.Rel Beside (createSource? cs) (createSource? ds) := by
  refine rel_bind (word?_raised "CREATE" h) fun r d h => rel_bind (kind?_raised h) ?_
  rintro ⟨kind, r⟩ ⟨_, d⟩ ⟨rfl, h⟩
  have hcondition := rel_bind (ifNotExists?_raised h) fun _ _ => identifier?_raised
  simp only
  generalize (ifNotExists? r).bind identifier? = o, (ifNotExists? d).bind identifier? = o'
    at hcondition
  cases hcondition with
  | some hsame => exact .some ⟨by rw [hsame.name], hsame.rest⟩
  | none =>
    refine rel_bind (identifier?_raised h) fun x y hsame => ?_
    exact .some ⟨by rw [hsame.name], hsame.rest⟩

theorem topic?_raised (h : List.Forall₂ Raised cs ds) :
    Option.Rel (fun _ _ => False) (topic? cs) (topic? ds) := by
  induction h with
  | nil => exact .none
  | cons hc h ih =>
    refine rel_orElse ?_ ih
    refine rel_bind (keyword?_raised _ (.cons hc h)) fun _ _ h => ?_
    refine rel_bind (char?_raised (by decide) (skipBlanks_raised h)) fun _ _ h => ?_
    exact rel_bind (quote?_raised (skipBlanks_raised h)) fun _ _ hf => hf.elim

theorem insertInto?_raised (h : List.Forall₂ Raised cs ds) :
    Option.Rel Beside (insertInto? cs) (insertInto? ds) := by
  refine rel_bind (word?_raised "INSERT" h) fun _ _ h => rel_bind (word?_raised "INTO" h)
    fun _ _ h => rel_bind (identifier?_raised h) fun x y hsame => ?_
  refine rel_bind (blanks?_raised hsame.rest) fun _ _ h => rel_bind (word?_raised "SELECT" h)
    fun _ _ h => ?_
  rw [hsame.name]
  exact body_raised _ h

theorem dropSource?_raised (h : List.Forall₂ Raised cs ds) :
    Option.Rel (fun s t => t = s.raised) (dropSource? cs) (dropSource? ds) := by
  refine rel_bind (word?_raised "DROP" h) fun r d h => rel_bind (kind?_raised h) ?_
  rintro ⟨kind, r⟩ ⟨_, d⟩ ⟨rfl, h⟩
  have hcondition := optional_raised ifExists?_raised h
  simp only
  generalize optional ifExists? r = x, optional ifExists? d = y at hcondition
  refine rel_bind (identifier?_raised hcondition.2) fun i j hsame => ?_
  have hclause := optional_raised deleteTopic?_raised hsame.rest
  generalize optional deleteTopic? i.2 = u, optional deleteTopic? j.2 = v at hclause
  rw [atEnd_raised hclause.2]
  refine rel_ite (R := fun s t => t = Statement.raised s) ?_ _
  rw [hcondition.1, hsame.name, hclause.1]
  rfl

theorem cutAt_raised {x : Char} (hx : x.isAlpha = false) (h : List.Forall₂ Raised cs ds) :
    List.Forall₂ (List.Forall₂ Raised) (cutAt x cs) (cutAt x ds) := by
  induction h with
  | nil => exact .cons .nil .nil
  | @cons c d r r' hc h ih =>
    rw [cutAt, cutAt, hc.beq hx]
    split
    · exact .cons .nil ih
    · generalize cutAt x r = parts, cutAt x r' = parts' at ih
      cases ih with
      | nil => exact .cons (.cons hc .nil) .nil
      | cons hpart hparts => exact .cons (.cons hc hpart) hparts

theorem parts_raised {parts parts' : List (List Char)}
    (h : List.Forall₂ (List.Forall₂ Raised) parts parts') : parts' = parts.map upper := by
  induction h with
  | nil => rfl
  | cons hpart _ ih => rw [raised_eq hpart, ih, List.map_cons]

theorem topicList_raised (h : List.Forall₂ Raised cs ds) :
    topicList ds = (topicList cs).map capitals := by
  have hparts : List.Forall₂ (List.Forall₂ Raised) ((cutAt ',' cs).map fun t => unquote (trim t))
      ((cutAt ',' ds).map fun t => unquote (trim t)) :=
    List.rel_map (fun _ _ h => raised_unquote (raised_trim h)) (cutAt_raised (by decide) h)
  have hkept := List.rel_filter (p := fun t => !t.isEmpty) (q := fun t => !t.isEmpty)
    (fun _ _ h => by simp only [isEmpty_raised h]) hparts
  rw [topicList, topicList, parts_raised hkept, List.map_map, List.map_map]
  refine List.map_congr_left fun t _ => ?_
  rw [Function.comp_apply, Function.comp_apply, capitals, String.toList_ofList]

theorem terminateCluster?_raised (h : List.Forall₂ Raised cs ds) :
    Option.Rel (fun s t => t = s.raised) (terminateCluster? cs) (terminateCluster? ds) := by
  refine rel_bind (word?_raised "TERMINATE" h) fun _ _ h => rel_bind (keyword?_raised _ h)
    fun r d h => ?_
  have hlist := deleteTopics?_raised h
  generalize deleteTopics? r = o, deleteTopics? d = o' at hlist
  cases hlist with
  | some hboth =>
    simp only
    rw [atEnd_raised hboth.2, topicList_raised hboth.1]
    exact rel_ite (R := fun s t => t = Statement.raised s) rfl _
  | none =>
    simp only
    rw [atEnd_raised h]
    exact rel_ite (R := fun s t => t = Statement.raised s) rfl _

theorem queryName?_raised (h : List.Forall₂ Raised cs ds) :
    Option.Rel (fun s t => t = s) (queryName? cs) (queryName? ds) := by
  refine rel_bind (identifier?_raised h) fun x y hsame => ?_
  simp only
  rw [atEnd_raised hsame.rest]
  exact rel_ite (R := fun s t => t = s) hsame.name _

theorem terminateQuery?_raised (h : List.Forall₂ Raised cs ds) :
    Option.Rel (fun s t => t = s.raised) (terminateQuery? cs) (terminateQuery? ds) := by
  refine rel_bind (word?_raised "TERMINATE" h) fun _ _ h => ?_
  refine rel_bind (rel_orElse (rel_bind (word?_raised "QUERY" h) fun _ _ => queryName?_raised)
    (queryName?_raised h)) fun name _ hname => ?_
  rw [hname]
  exact .some rfl

def RaisedResult (r r' : Except ParseFault Statement) : Prop :=
  r' = (r.mapError ParseFault.raised).map Statement.raised

theorem readTrimmed_raised (h : List.Forall₂ Raised cs ds) :
    RaisedResult (readTrimmed cs) (readTrimmed ds) := by
  have hselect := createAsSelect?_raised h
  have hcreate := createSource?_raised h
  have hinsert := insertInto?_raised h
  have hdrop := dropSource?_raised h
  have hcluster := terminateCluster?_raised h
  have hquery := terminateQuery?_raised h
  rw [readTrimmed, readTrimmed, isEmpty_raised h, capitals_raised h]
  generalize createAsSelect? cs = select, createAsSelect? ds = select' at hselect
  generalize createSource? cs = create, createSource? ds = create' at hcreate
  generalize insertInto? cs = insert, insertInto? ds = insert' at hinsert
  generalize dropSource? cs = drop, dropSource? ds = drop' at hdrop
  generalize terminateCluster? cs = cluster, terminateCluster? ds = cluster' at hcluster
  generalize terminateQuery? cs = query, terminateQuery? ds = query' at hquery
  by_cases hempty : cs.isEmpty = true
  · rw [if_pos hempty, if_pos hempty]
    rfl
  rw [if_neg hempty, if_neg hempty]
  cases hselect with
  | @some x y hbeside =>
    obtain ⟨head, body⟩ := x
    obtain ⟨_, body'⟩ := y
    obtain ⟨rfl, hbody⟩ := hbeside
    simp only [sources_raised hbody]
    cases sources body <;> rfl
  | none =>
  cases hcreate with
  | @some x y hbeside =>
    obtain ⟨head, rest⟩ := x
    obtain ⟨_, rest'⟩ := y
    obtain ⟨rfl, hrest⟩ := hbeside
    have htopic := topic?_raised hrest
    simp only
    generalize topic? rest = t, topic? rest' = t' at htopic
    cases htopic with
    | none => rfl
    | some hf => exact hf.elim
  | none =>
  cases hinsert with
  | @some x y hbeside =>
    obtain ⟨target, body⟩ := x
    obtain ⟨_, body'⟩ := y
    obtain ⟨rfl, hbody⟩ := hbeside
    simp only [sources_raised hbody]
    cases sources body <;> rfl
  | none =>
  cases hdrop with
  | some hs => subst hs; rfl
  | none =>
  cases hcluster with
  | some hs => subst hs; rfl
  | none =>
  cases hquery with
  | some hs => subst hs; rfl
  | none => rfl

theorem id_raised (statement : Statement) : statement.raised.id = statement.id := by
  cases statement <;> rfl

def Unquoted (text : String) : Prop :=
  ∀ c ∈ text.toList, c ≠ singleQuote ∧ c ≠ doubleQuote ∧ c ≠ backquote

theorem unquoted_iff (text : String) : Unquoted text ↔
    text.toList.all (fun c => c != singleQuote && c != doubleQuote && c != backquote) = true := by
  simp [Unquoted, and_assoc]

instance (text : String) : Decidable (Unquoted text) :=
  decidable_of_iff' _ (unquoted_iff text)

/-- Without quotes in it, a text is read in capitals exactly if it is read as it is, and then as the
same statement, but for the topics that a termination lists, which are in capitals too. What is
wrong with it is the same, and so is the id that it is logged under. -/
theorem case_insensitive {text : String} (h : Unquoted text) :
    read (capitals text) = ((read text).mapError ParseFault.raised).map Statement.raised ∧
      readId (capitals text) = (readId text).mapError ParseFault.raised := by
  have hraised : List.Forall₂ Raised text.toList (upper text.toList) :=
    raised_upper fun c hc => ⟨(h c hc).1, fun hm => hm.elim (h c hc).2.2 (h c hc).2.1⟩
  have hread : read (capitals text) =
      ((read text).mapError ParseFault.raised).map Statement.raised := by
    rw [read, capitals, String.toList_ofList]
    exact readTrimmed_raised (raised_trim hraised)
  refine ⟨hread, ?_⟩
  rw [readId, readId, hread]
  cases read text with
  | error fault => rfl
  | ok statement => exact congrArg Except.ok (id_raised statement)

theorem case_insensitive_longS :
    Unquoted "create stream b\u017F as select * from a Join A;" ∧
    capitals "create stream b\u017F as select * from a Join A;" =
      "CREATE STREAM B\u017F AS SELECT * FROM A JOIN A;" ∧
    read "CREATE STREAM B\u017F AS SELECT * FROM A JOIN A;" =
      .ok (.createAsSelect .stream "B\u017F" ["A"] false) ∧
    Unquoted "Terminate Cluster delete topics (a, B b);" ∧
    read (capitals "Terminate Cluster delete topics (a, B b);") =
      .ok (.terminateCluster ["A", "B B"]) := by
  have hplain : Unquoted "create stream b\u017F as select * from a Join A;" := by decide +kernel
  have hcapitals : capitals "create stream b\u017F as select * from a Join A;" =
      "CREATE STREAM B\u017F AS SELECT * FROM A JOIN A;" := by
    decide +kernel
  have hread : read "create stream b\u017F as select * from a Join A;" =
      .ok (.createAsSelect .stream "B\u017F" ["A"] false) := by
    decide +kernel
  have hlist : Unquoted "Terminate Cluster delete topics (a, B b);" := by decide +kernel
  have hcluster : read "Terminate Cluster delete topics (a, B b);" =
      .ok (.terminateCluster ["a", "B b"]) := by
    decide +kernel
  refine ⟨hplain, hcapitals, ?_, hlist, ?_⟩
  · rw [← hcapitals, (case_insensitive hplain).1, hread]
    rfl
  · rw [(case_insensitive hlist).1, hcluster]
    decide +kernel

end Statement

end StatementLog
