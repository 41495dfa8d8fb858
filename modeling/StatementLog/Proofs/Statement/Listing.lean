import StatementLog.Proofs.Statement.Quoting
import StatementLog.Statement.Termination

namespace StatementLog.Statement

open StatementLog.Text

structure Listable (topic : String) : Prop where
  ne_empty : topic ≠ ""
  comma : ',' ∉ topic.toList
  closing : ')' ∉ topic.toList
  front : topic.toList.head? ≠ some singleQuote
  back : topic.toList.getLast? ≠ some singleQuote

theorem listable_iff (topic : String) : Listable topic ↔ topic ≠ "" ∧ ',' ∉ topic.toList ∧
    ')' ∉ topic.toList ∧ topic.toList.head? ≠ some singleQuote ∧
      topic.toList.getLast? ≠ some singleQuote :=
  ⟨fun ⟨h, hc, hp, hf, hb⟩ => ⟨h, hc, hp, hf, hb⟩, fun ⟨h, hc, hp, hf, hb⟩ => ⟨h, hc, hp, hf, hb⟩⟩

instance (topic : String) : Decidable (Listable topic) :=
  decidable_of_iff' _ (listable_iff topic)

variable {x : Char} {cs part r : List Char} {topic : String} {topics : List String}

theorem not_mem_of_mem_cutAt (h : part ∈ cutAt x cs) : x ∉ part ∧ ∀ c ∈ part, c ∈ cs := by
  induction cs generalizing part with
  | nil =>
    rw [List.mem_singleton.1 h]
    simp
  | cons c cs ih =>
    rw [cutAt] at h
    split at h
    · rcases List.mem_cons.1 h with rfl | h
      · simp
      · obtain ⟨hx, hsub⟩ := ih h
        exact ⟨hx, fun d hd => List.mem_cons_of_mem _ (hsub d hd)⟩
    · next hc =>
      have hne : x ≠ c := fun he => hc (by simp [he])
      split at h
      · rw [List.mem_singleton.1 h]
        simp [hne]
      · next first parts hcut =>
        rcases List.mem_cons.1 h with rfl | h
        · obtain ⟨hx, hsub⟩ := @ih first (by simp [hcut])
          refine ⟨by simp [hne, hx], fun d hd => ?_⟩
          rcases List.mem_cons.1 hd with rfl | hd
          · exact List.mem_cons_self ..
          · exact List.mem_cons_of_mem _ (hsub d hd)
        · obtain ⟨hx, hsub⟩ := @ih part (by simp [hcut, h])
          exact ⟨hx, fun d hd => List.mem_cons_of_mem _ (hsub d hd)⟩

theorem cutAt_eq_singleton (h : x ∉ part) : cutAt x part = [part] := by
  induction part with
  | nil => rfl
  | cons c part ih =>
    rw [List.mem_cons, not_or] at h
    rw [cutAt, if_neg (by simpa using Ne.symm h.1), ih h.2]

theorem cutAt_append (h : x ∉ part) (r : List Char) :
    cutAt x (part ++ x :: r) = part :: cutAt x r := by
  induction part with
  | nil => rw [List.nil_append, cutAt, if_pos (beq_self_eq_true x)]
  | cons c part ih =>
    rw [List.mem_cons, not_or] at h
    rw [List.cons_append, cutAt, if_neg (by simpa using Ne.symm h.1), ih h.2]

theorem mem_of_mem_stripped {p : Char → Bool} {c : Char}
    (h : c ∈ ((cs.dropWhile p).reverse.dropWhile p).reverse) : c ∈ cs := by
  have hstart : c ∈ cs.dropWhile p :=
    List.mem_reverse.1 ((List.dropWhile_sublist _).subset (List.mem_reverse.1 h))
  exact (List.dropWhile_sublist _).subset hstart

theorem head?_dropWhile_ne (q : Char) (cs : List Char) :
    (cs.dropWhile (· == q)).head? ≠ some q := by
  intro h
  have hnot := List.head?_dropWhile_not (· == q) cs
  rw [h] at hnot
  simp at hnot

theorem getLast?_unquote (cs : List Char) : (unquote cs).getLast? ≠ some singleQuote := by
  rw [unquote, List.getLast?_reverse]
  exact head?_dropWhile_ne _ _

theorem head?_unquote (cs : List Char) : (unquote cs).head? ≠ some singleQuote := by
  rw [unquote, List.head?_reverse]
  obtain ⟨gone, hg⟩ := List.dropWhile_suffix (l := (cs.dropWhile (· == singleQuote)).reverse)
    (· == singleQuote)
  intro h
  have hlast : ((cs.dropWhile (· == singleQuote)).reverse).getLast? = some singleQuote := by
    rw [← hg, List.getLast?_append, h]
    rfl
  rw [List.getLast?_reverse] at hlast
  exact head?_dropWhile_ne _ _ hlast

theorem listable_of_mem_topicList (hc : ')' ∉ cs) (h : topic ∈ topicList cs) : Listable topic := by
  obtain ⟨name, hname, rfl⟩ := List.mem_map.1 h
  obtain ⟨hname, hne⟩ := List.mem_filter.1 hname
  obtain ⟨part, hpart, rfl⟩ := List.mem_map.1 hname
  obtain ⟨hcomma, hsub⟩ := not_mem_of_mem_cutAt hpart
  have hmem {c : Char} (h : c ∈ unquote (trim part)) : c ∈ part :=
    mem_of_mem_stripped (p := isBlank) (mem_of_mem_stripped (p := (· == singleQuote)) h)
  refine ⟨?_, ?_, ?_, ?_, ?_⟩
  · simpa using hne
  · simpa using fun h => hcomma (hmem h)
  · simpa using fun h => hc (hsub _ (hmem h))
  · simpa using head?_unquote (trim part)
  · simpa using getLast?_unquote (trim part)

theorem closing_not_mem (h : parenthesised? cs = some (part, r)) : ')' ∉ part := by
  obtain ⟨r', -, h⟩ := Option.bind_eq_some_iff.1 h
  split at h
  · cases h
  · cases h
    intro hm
    simpa using List.all_eq_true.1 List.all_takeWhile ')' hm

theorem listable_of_terminateCluster? (h : terminateCluster? cs = some (.terminateCluster topics)) :
    ∀ topic ∈ topics, Listable topic := by
  obtain ⟨r₁, -, h⟩ := Option.bind_eq_some_iff.1 h
  obtain ⟨r₂, -, h⟩ := Option.bind_eq_some_iff.1 h
  split at h
  · next list rest hlist =>
    split at h <;> cases h
    obtain ⟨r₃, -, hlist⟩ := Option.bind_eq_some_iff.1 hlist
    obtain ⟨r₄, -, hlist⟩ := Option.bind_eq_some_iff.1 hlist
    obtain ⟨r₅, -, hlist⟩ := Option.bind_eq_some_iff.1 hlist
    exact fun topic => listable_of_mem_topicList (closing_not_mem hlist)
  · split at h <;> cases h
    exact nofun

theorem readTrimmed_of_terminateCluster? {statement : Statement}
    (h : terminateCluster? ('T' :: cs) = some statement) :
    readTrimmed ('T' :: cs) = .ok statement := by
  have hselect : createAsSelect? ('T' :: cs) = none := rfl
  have hcreate : createSource? ('T' :: cs) = none := rfl
  have hinsert : insertInto? ('T' :: cs) = none := rfl
  have hdrop : dropSource? ('T' :: cs) = none := rfl
  rw [readTrimmed, if_neg (by simp)]
  simp only [hselect, hcreate, hinsert, hdrop, h]

theorem toList_quoteTopic (topic : String) :
    (quoteTopic topic).toList = singleQuote :: (topic.toList ++ [singleQuote]) := by
  simp [quoteTopic, singleQuote]

theorem unquote_quoteTopic (h : Listable topic) :
    unquote (quoteTopic topic).toList = topic.toList := by
  have hne : topic.toList ≠ [] := by simpa using h.ne_empty
  obtain ⟨c, cs, hcs⟩ := List.exists_cons_of_ne_nil hne
  have hc : c ≠ singleQuote := by simpa [hcs] using h.front
  have hd : topic.toList.reverse.head? ≠ some singleQuote := by
    rw [List.head?_reverse]
    exact h.back
  obtain ⟨d, ds, hds⟩ := List.exists_cons_of_ne_nil (List.reverse_ne_nil_iff.2 hne)
  have hdrop : (topic.toList ++ [singleQuote]).dropWhile (· == singleQuote) =
      topic.toList ++ [singleQuote] := by
    rw [hcs, List.cons_append, List.dropWhile_cons_of_neg (by simpa using hc)]
  have hdrop' : topic.toList.reverse.dropWhile (· == singleQuote) = topic.toList.reverse := by
    rw [hds, List.dropWhile_cons_of_neg (by simpa [hds] using hd)]
  rw [toList_quoteTopic, unquote, List.dropWhile_cons_of_pos (by simp), hdrop,
    List.reverse_concat, List.dropWhile_cons_of_pos (by simp), hdrop', List.reverse_reverse]

theorem trim_quoteTopic (topic : String) :
    trim (quoteTopic topic).toList = (quoteTopic topic).toList ∧
      trim (' ' :: (quoteTopic topic).toList) = (quoteTopic topic).toList := by
  have htrim := trim_eq (c := singleQuote) (d := singleQuote) rfl rfl topic.toList
  rw [toList_quoteTopic]
  exact ⟨htrim, htrim⟩

def listText (topics : List String) : List Char :=
  (", ".intercalate (topics.map quoteTopic)).toList

theorem listText_cons (topic next : String) (topics : List String) :
    listText (topic :: next :: topics) =
      (quoteTopic topic).toList ++ ',' :: ' ' :: listText (next :: topics) := by
  simp [listText]

theorem not_mem_quoteTopic (hx : x ≠ singleQuote) (h : x ∉ topic.toList) :
    x ∉ (quoteTopic topic).toList := by
  simp [toList_quoteTopic, hx, h]

theorem not_mem_listText (h : ∀ topic ∈ topics, Listable topic) : ')' ∉ listText topics := by
  induction topics with
  | nil => simp [listText]
  | cons topic topics ih =>
    have hfirst := not_mem_quoteTopic (x := ')') (by decide) (h topic (by simp)).closing
    cases topics with
    | nil => simpa [listText] using hfirst
    | cons next topics =>
      rw [listText_cons, List.mem_append, not_or]
      exact ⟨hfirst, by simpa using ih fun t ht => h t (List.mem_cons_of_mem _ ht)⟩

theorem cutAt_listText (h : ∀ t ∈ topic :: topics, Listable t) :
    cutAt ',' (listText (topic :: topics)) =
      (quoteTopic topic).toList :: topics.map fun t => ' ' :: (quoteTopic t).toList := by
  induction topics generalizing topic with
  | nil =>
    have hcomma := not_mem_quoteTopic (x := ',') (by decide) (h topic (by simp)).comma
    simpa [listText] using cutAt_eq_singleton hcomma
  | cons next topics ih =>
    have hcomma := not_mem_quoteTopic (x := ',') (by decide) (h topic (by simp)).comma
    -- the blank after the comma goes with the part that follows it
    have hblank (r : List Char) (hr : cutAt ',' r ≠ []) : cutAt ',' (' ' :: r) =
        (' ' :: (cutAt ',' r).head hr) :: (cutAt ',' r).tail := by
      rw [cutAt, if_neg (by decide)]
      obtain ⟨part, parts, hp⟩ := List.exists_cons_of_ne_nil hr
      simp [hp]
    have hrest := @ih next fun t ht => h t (List.mem_cons_of_mem _ ht)
    rw [listText_cons, cutAt_append hcomma, hblank _ (by simp [hrest])]
    simp [hrest]

theorem topicList_listText (h : ∀ t ∈ topic :: topics, Listable t) :
    topicList (listText (topic :: topics)) = topic :: topics := by
  have hread (t : String) (ht : t ∈ topic :: topics) :
      unquote (trim (quoteTopic t).toList) = t.toList ∧
        unquote (trim (' ' :: (quoteTopic t).toList)) = t.toList := by
    rw [(trim_quoteTopic t).1, (trim_quoteTopic t).2]
    exact ⟨unquote_quoteTopic (h t ht), unquote_quoteTopic (h t ht)⟩
  have hrest : (topics.map fun t => ' ' :: (quoteTopic t).toList).map
      (fun t => unquote (trim t)) = topics.map String.toList := by
    rw [List.map_map]
    refine List.map_congr_left fun t ht => ?_
    rw [Function.comp_apply, (hread t (List.mem_cons_of_mem _ ht)).2]
  have hparts : (cutAt ',' (listText (topic :: topics))).map (fun t => unquote (trim t)) =
      (topic :: topics).map String.toList := by
    rw [cutAt_listText h, List.map_cons, (hread topic (by simp)).1, hrest, List.map_cons]
  have hkept : ((topic :: topics).map String.toList).filter (fun t => !t.isEmpty) =
      (topic :: topics).map String.toList := by
    rw [List.filter_eq_self]
    intro cs hcs
    obtain ⟨t, ht, rfl⟩ := List.mem_map.1 hcs
    simpa using (h t ht).ne_empty
  rw [topicList, hparts, hkept, List.map_map]
  simp [Function.comp_def]

theorem parenthesised?_append (h : ')' ∉ part) (r : List Char) :
    parenthesised? ('(' :: (part ++ ')' :: r)) = some (part, r) := by
  have hpart : ∀ c ∈ part, (c != ')') = true := by
    intro c hc
    simpa using fun he : c = ')' => h (he ▸ hc)
  simp [parenthesised?, char?, List.dropWhile_append_of_pos hpart,
    List.takeWhile_append_of_pos hpart]

theorem terminateCluster?_listText (h : ∀ t ∈ topic :: topics, Listable t) :
    terminateCluster? ("TERMINATE CLUSTER DELETE TOPICS (".toList ++
      (listText (topic :: topics) ++ [')', ';'])) = some (.terminateCluster (topic :: topics)) := by
  have hhead (r : List Char) : word? "TERMINATE"
      ("TERMINATE CLUSTER DELETE TOPICS (".toList ++ r) =
        some ("CLUSTER DELETE TOPICS (".toList ++ r) := rfl
  have hcluster (r : List Char) : keyword? "CLUSTER".toList
      ("CLUSTER DELETE TOPICS (".toList ++ r) = some (" DELETE TOPICS (".toList ++ r) := rfl
  have hopen (r : List Char) : deleteTopics? (" DELETE TOPICS (".toList ++ r) =
      parenthesised? ('(' :: r) := rfl
  have hend : atEnd [';'] = true := rfl
  rw [terminateCluster?, hhead]
  simp only [Option.bind_eq_bind, Option.bind_some, hcluster, hopen,
    parenthesised?_append (not_mem_listText h), hend, if_true, topicList_listText h]
  rfl

theorem toList_terminationText (topic : String) (topics : List String) :
    (terminationText (topic :: topics)).toList = "TERMINATE CLUSTER DELETE TOPICS (".toList ++
      (listText (topic :: topics) ++ [')', ';']) := by
  simp [terminationText, listText]

theorem trim_terminationText (topics : List String) :
    trim (terminationText topics).toList = (terminationText topics).toList := by
  cases topics with
  | nil => rfl
  | cons topic topics =>
    have htrim := trim_eq (c := 'T') (d := ';') rfl rfl
      ("ERMINATE CLUSTER DELETE TOPICS (".toList ++ (listText (topic :: topics) ++ [')']))
    rw [toList_terminationText]
    simpa using htrim

theorem read_terminationText (h : ∀ t ∈ topics, Listable t) :
    read (terminationText topics) = .ok (.terminateCluster topics) := by
  rw [read, trim_terminationText]
  cases topics with
  | nil => rfl
  | cons topic topics =>
    have hread := terminateCluster?_listText h
    have hstart : "TERMINATE CLUSTER DELETE TOPICS (".toList =
        'T' :: "ERMINATE CLUSTER DELETE TOPICS (".toList := rfl
    rw [hstart, List.cons_append] at hread
    rw [toList_terminationText, hstart, List.cons_append]
    exact readTrimmed_of_terminateCluster? hread

theorem listable_of_read {text : String} (h : read text = .ok (.terminateCluster topics)) :
    ∀ topic ∈ topics, Listable topic := by
  cases hasForm_of_readTrimmed h with
  | terminateCluster h => exact listable_of_terminateCluster? h

/-- A request to terminate the cluster is read back with the topics that it was written with, in
their order and as often as they were named, exactly if each of them can stand in the list. -/
theorem termination_read_back_iff (topics : List String) :
    read (terminationText topics) = .ok (.terminateCluster topics) ↔
      ∀ topic ∈ topics, Listable topic :=
  ⟨listable_of_read, read_terminationText⟩

example : ∀ topic ∈ [" a ", "b\n", "c;", "it's", "\u00E9\u2603"], Listable topic := by
  decide +kernel

end StatementLog.Statement
