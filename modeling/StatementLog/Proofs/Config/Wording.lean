import Mathlib.Data.List.TakeWhile
import StatementLog.Config.Basic
import StatementLog.Proofs.Statement.Creation
import StatementLog.Proofs.Statement.Listing

namespace StatementLog

namespace Config

open Statement Text

variable {c : Config}

def columns : List Char :=
  " (LOGGER VARCHAR, LEVEL VARCHAR, TIME BIGINT, MESSAGE VARCHAR) WITH (KAFKA_TOPIC='".toList

def format : List Char :=
  "', VALUE_FORMAT='JSON');".toList

theorem toList_processingLogStatement (c : Config) : c.processingLogStatement.toList =
    creation ++ (c.processingLogName.toList ++
      (columns ++ (c.processingLogTopic.toList ++ format))) := by
  have hparts (start name columns topic format : String) :
      (start ++ name ++ columns ++ topic ++ format).toList =
        start.toList ++ (name.toList ++ (columns.toList ++ (topic.toList ++ format.toList))) := by
    simp
  exact hparts _ _ _ _ _

def columnNames : List Char :=
  "(LOGGER VARCHAR, LEVEL VARCHAR, TIME BIGINT, MESSAGE VARCHAR) WITH (".toList

theorem columns_eq : columns = ' ' :: (columnNames ++ "KAFKA_TOPIC='".toList) := by
  unfold columns columnNames
  rw [String.toList_ofList, String.toList_ofList, String.toList_ofList]
  rfl

theorem columns_start : columns = ' ' :: '(' :: columns.drop 2 := by
  unfold columns
  rw [String.toList_ofList]
  rfl

theorem format_start : format = singleQuote :: format.tail := by
  unfold format
  rw [String.toList_ofList]
  rfl

theorem format_end : format = format.dropLast ++ [';'] := by
  unfold format
  rw [String.toList_ofList]
  rfl

theorem columnNames_not_spell : ∀ x ∈ ' ' :: columnNames, spells 'K' x = false := by
  have hall : (' ' :: columnNames).all (fun x => !spells 'K' x) = true := by
    unfold columnNames
    rw [String.toList_ofList]
    decide +kernel
  simpa using hall

theorem topic?_columns {t : List Char} (hne : t ≠ []) (h : singleQuote ∉ t) (r : List Char) :
    topic? (columns ++ (t ++ singleQuote :: r)) = some (String.ofList t) := by
  have hat (r : List Char) : topicAt? ("KAFKA_TOPIC='".toList ++ r) =
      (upTo? singleQuote r).bind fun x => some (String.ofList x.1) := rfl
  rw [columns_eq, ← List.cons_append, List.append_assoc, topic?_append columnNames_not_spell]
  refine topic?_of_topicAt? ?_
  rw [hat, upTo?_append h hne]
  rfl

theorem isBlank_processingLogName (h : c.validate = .ok ()) (hlog : c.processingLog = true) :
    isBlank c.processingLogName = false := by
  simp only [validate, bind, Except.bind, pure, Except.pure, throw, throwThe,
    MonadExceptOf.throw, hlog, Bool.true_and] at h
  -- the name is checked last
  iterate 7
    split at h
    · cases h
  next hname => simpa using hname

theorem trim_processingLogStatement (c : Config) :
    trim c.processingLogStatement.toList = c.processingLogStatement.toList := by
  have htrim := trim_eq (c := 'C') (d := ';') rfl rfl (creation.tail ++
    (c.processingLogName.toList ++
      (columns ++ (c.processingLogTopic.toList ++ format.dropLast))))
  have hstart : creation = 'C' :: creation.tail := rfl
  have htext : c.processingLogStatement.toList = 'C' :: (creation.tail ++
      (c.processingLogName.toList ++
        (columns ++ (c.processingLogTopic.toList ++ format.dropLast))) ++ [';']) := by
    rw [toList_processingLogStatement, hstart, format_end]
    simp
  rw [htext, htrim]

theorem read_of_topic? {t : String} (hi : IsIdentifier c.processingLogName.toList)
    (ht : topic? (columns ++ (c.processingLogTopic.toList ++ format)) = some t) :
    Statement.read c.processingLogStatement =
      .ok (.createSource .stream (folded c.processingLogName.toList) (some t) false) := by
  obtain ⟨i, hi⟩ := hi
  rw [columns_start, List.cons_append, List.cons_append] at ht
  rw [Statement.read, trim_processingLogStatement, toList_processingLogStatement, columns_start,
    List.cons_append, List.cons_append, readTrimmed_creation hi, ht, hi.name]

theorem read_of_quote {front back : String} (hi : IsIdentifier c.processingLogName.toList)
    (hs : c.serviceId.toList = front.toList ++ singleQuote :: back.toList) (hne : front ≠ "")
    (hq : singleQuote ∉ front.toList) :
    Statement.read c.processingLogStatement =
      .ok (.createSource .stream (folded c.processingLogName.toList) (some front) false) := by
  have hlist : c.processingLogTopic.toList ++ format = front.toList ++ singleQuote ::
      (back.toList ++ ("ksql_processing_log".toList ++ format)) := by
    simp [processingLogTopic, hs]
  refine read_of_topic? hi ?_
  rw [hlist, topic?_columns (by simpa using hne) hq, String.ofList_toList]

theorem read_processingLogStatement_iff (h : c.validate = .ok ()) (hlog : c.processingLog = true) :
    Statement.read c.processingLogStatement = .ok (.createSource .stream
        (folded c.processingLogName.toList) (some c.processingLogTopic) false) ↔
      IsIdentifier c.processingLogName.toList ∧ singleQuote ∉ c.serviceId.toList := by
  constructor
  · intro hread
    rw [Statement.read, trim_processingLogStatement, toList_processingLogStatement] at hread
    obtain ⟨rest, hsource, htopic⟩ := createSource?_of_readTrimmed hread
    obtain ⟨r, i, hkind, hi, hname⟩ := createSource?_plain hsource
    have hskip : c.processingLogName.toList.dropWhile Text.isBlank ≠ [] := by
      simpa [Config.isBlank, isBlankText, List.dropWhile_eq_nil_iff] using
        isBlank_processingLogName h hlog
    rw [kind?_creation, List.dropWhile_append, if_neg (by simpa using hskip), columns_start]
      at hkind
    cases hkind
    refine ⟨isIdentifier_of_opens (opens_of_identifier? hi) hname hskip, fun hq => ?_⟩
    exact topic?_apart htopic (by simp [processingLogTopic, hq])
  · rintro ⟨hi, hapart⟩
    have hne : c.processingLogTopic.toList ≠ [] := by simp [processingLogTopic]
    have hq : singleQuote ∉ c.processingLogTopic.toList := by
      have hend : singleQuote ∉ "ksql_processing_log".toList := by decide +kernel
      simpa [processingLogTopic, hapart] using hend
    refine read_of_topic? hi ?_
    rw [format_start, topic?_columns hne hq, String.ofList_toList]

variable {front sid mid suffix : String}

theorem listable_around (hfront : Listable front) (hmid : Listable mid) :
    Listable (front ++ sid ++ mid ++ suffix) ↔
      (∀ x ∈ sid.toList ++ suffix.toList, x ≠ ',' ∧ x ≠ ')') ∧
        suffix.toList.getLast? ≠ some singleQuote := by
  obtain ⟨d, ds, hd⟩ := List.exists_cons_of_ne_nil (l := front.toList)
    (by simpa using hfront.ne_empty)
  obtain ⟨ms, m, hm⟩ := (List.eq_nil_or_concat mid.toList).resolve_left
    (by simpa using hmid.ne_empty)
  have hne : front ++ sid ++ mid ++ suffix ≠ "" := by simp [hfront.ne_empty]
  have hhead : (front ++ sid ++ mid ++ suffix).toList.head? ≠ some singleQuote := by
    simpa [hd] using hfront.front
  have hlast : (front ++ sid ++ mid ++ suffix).toList.getLast? ≠ some singleQuote ↔
      suffix.toList.getLast? ≠ some singleQuote := by
    have hmark : m ≠ singleQuote := by simpa [hm] using hmid.back
    cases hs : suffix.toList.getLast? <;> simp [hs, hm, hmark, List.getLast?_cons]
  have hmem (x : Char) (hx : x ∉ front.toList) (hx' : x ∉ mid.toList) :
      x ∉ (front ++ sid ++ mid ++ suffix).toList ↔ x ∉ sid.toList ++ suffix.toList := by
    simp [hx, hx']
  rw [listable_iff, hmem ',' hfront.comma hmid.comma, hmem ')' hfront.closing hmid.closing, hlast]
  grind

theorem listable_followed (h : Listable suffix) : Listable (sid ++ suffix) ↔
    (∀ x ∈ sid.toList, x ≠ ',' ∧ x ≠ ')') ∧ sid.toList.head? ≠ some singleQuote := by
  obtain ⟨d, ds, hd⟩ := List.exists_cons_of_ne_nil (l := suffix.toList) (by simpa using h.ne_empty)
  have hne : sid ++ suffix ≠ "" := by simp [h.ne_empty]
  have hhead : (sid ++ suffix).toList.head? ≠ some singleQuote ↔
      sid.toList.head? ≠ some singleQuote := by
    have hmark : d ≠ singleQuote := by simpa [hd] using h.front
    cases hs : sid.toList.head? <;> simp [hs, hd, hmark, List.head?_append]
  have hlast : (sid ++ suffix).toList.getLast? ≠ some singleQuote := by
    have hback := h.back
    cases hs : suffix.toList.getLast? <;> simp_all [List.getLast?_append]
  have hmem (x : Char) (hx : x ∉ suffix.toList) : x ∉ (sid ++ suffix).toList ↔ x ∉ sid.toList := by
    simp [hx]
  rw [listable_iff, hmem ',' h.comma, hmem ')' h.closing, hhead]
  grind

theorem listable_commandTopic_iff (c : Config) : Listable c.commandTopic ↔
    (∀ x ∈ c.serviceId.toList ++ c.topicSuffix.toList, x ≠ ',' ∧ x ≠ ')') ∧
      c.topicSuffix.toList.getLast? ≠ some singleQuote :=
  listable_around (by decide +kernel) (by decide +kernel)

theorem listable_processingLogTopic_iff (c : Config) : Listable c.processingLogTopic ↔
    (∀ x ∈ c.serviceId.toList, x ≠ ',' ∧ x ≠ ')') ∧
      c.serviceId.toList.head? ≠ some singleQuote :=
  listable_followed (by decide +kernel)

theorem read_termination_iff (hlog : c.processingLog = true) :
    Statement.read (terminationText c.ownTopics) =
        .ok (.terminateCluster [c.commandTopic, c.processingLogTopic]) ↔
      (∀ x ∈ c.serviceId.toList ++ c.topicSuffix.toList, x ≠ ',' ∧ x ≠ ')') ∧
        c.serviceId.toList.head? ≠ some singleQuote ∧
          c.topicSuffix.toList.getLast? ≠ some singleQuote := by
  have hown : c.ownTopics = [c.commandTopic, c.processingLogTopic] := by rw [ownTopics, if_pos hlog]
  have hread : Statement.read (terminationText c.ownTopics) =
      .ok (.terminateCluster [c.commandTopic, c.processingLogTopic]) ↔
        Listable c.commandTopic ∧ Listable c.processingLogTopic := by
    rw [hown]
    refine ⟨fun h => ?_, fun h => read_terminationText (by simpa using h)⟩
    simpa using listable_of_read h
  rw [hread, listable_commandTopic_iff, listable_processingLogTopic_iff]
  constructor
  · rintro ⟨⟨hapart, hback⟩, -, hfront⟩
    exact ⟨hapart, hfront, hback⟩
  · rintro ⟨hapart, hfront, hback⟩
    exact ⟨⟨hapart, hback⟩, fun x hx => hapart x (List.mem_append_left _ hx), hfront⟩

/-- With a valid configuration, the creation of the processing log's stream is read as what it is
meant for exactly if the name of the stream is an identifier and the topic has no quote in it. The
termination is read with the node's own topics exactly if these can stand in its list. -/
theorem own_statements_read_iff (h : c.validate = .ok ()) (hlog : c.processingLog = true) :
    (Statement.read c.processingLogStatement = .ok (.createSource .stream
        (folded c.processingLogName.toList) (some c.processingLogTopic) false) ↔
      IsIdentifier c.processingLogName.toList ∧ singleQuote ∉ c.serviceId.toList) ∧
    (Statement.read (terminationText c.ownTopics) =
        .ok (.terminateCluster [c.commandTopic, c.processingLogTopic]) ↔
      (∀ x ∈ c.serviceId.toList ++ c.topicSuffix.toList, x ≠ ',' ∧ x ≠ ')') ∧
        c.serviceId.toList.head? ≠ some singleQuote ∧
          c.topicSuffix.toList.getLast? ≠ some singleQuote) :=
  ⟨read_processingLogStatement_iff h hlog, read_termination_iff hlog⟩

def quotedName : Config :=
  { serviceId := "it s ("
    topicSuffix := "o'clock"
    processingLog := true
    processingLogName := "\x60if not exists\x60" }

theorem own_statements_read_quotedName :
    quotedName.validate = .ok () ∧ quotedName.processingLog = true ∧
      folded quotedName.processingLogName.toList = "if not exists" ∧
      Statement.read quotedName.processingLogStatement = .ok (.createSource .stream
        (folded quotedName.processingLogName.toList) (some quotedName.processingLogTopic) false) ∧
      Statement.read (terminationText quotedName.ownTopics) =
        .ok (.terminateCluster [quotedName.commandTopic, quotedName.processingLogTopic]) := by
  have hvalid : quotedName.validate = .ok () := by decide +kernel
  have hapart : ∀ x ∈ quotedName.serviceId.toList ++ quotedName.topicSuffix.toList,
      x ≠ ',' ∧ x ≠ ')' := by
    have hall : (quotedName.serviceId.toList ++ quotedName.topicSuffix.toList).all
        (fun x => x != ',' && x != ')') = true := by decide +kernel
    intro x hx
    simpa using List.all_eq_true.1 hall x hx
  have hread := own_statements_read_iff hvalid rfl
  refine ⟨hvalid, rfl, by decide +kernel, hread.1.2 ?_, hread.2.2 ⟨hapart, ?_⟩⟩
  · decide +kernel
  · decide +kernel

def quotedService : Config :=
  { serviceId := "it's_", processingLog := true }

/-- The stream is created over another topic than the one that is provided for it. -/
theorem topic_cut_of_quotedService :
    quotedService.validate = .ok () ∧ quotedService.processingLog = true ∧
      quotedService.processingLogTopic = "it's_ksql_processing_log" ∧
      Statement.read quotedService.processingLogStatement =
        .ok (.createSource .stream "KSQL_PROCESSING_LOG" (some "it") false) := by
  have hname : folded quotedService.processingLogName.toList = "KSQL_PROCESSING_LOG" := by
    decide +kernel
  have hs : quotedService.serviceId.toList = "it".toList ++ singleQuote :: "s_".toList := by
    decide +kernel
  have hread := read_of_quote (c := quotedService) (by decide +kernel) hs (by decide +kernel)
    (by decide +kernel)
  refine ⟨by decide +kernel, rfl, by decide +kernel, ?_⟩
  rw [hread, hname]

end Config

end StatementLog
