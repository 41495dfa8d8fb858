import StatementLog.Proofs.Engine.History

/-!
A command done in place, with each check, each call of the broker and each update where it stands
in the course of the work. The work comes to what the engine comes to, and no step that can fail
stands after one that has changed anything.
-/

namespace StatementLog

open Std

/-- Work on an engine and a broker in place. Where it fails, what it has done by then stays done. -/
abbrev Work := EStateM Refusal (Engine × Broker)

namespace Work

def catalog : Work Catalog :=
  return (← get).1.catalog

def change (f : Catalog → Catalog) : Work Unit :=
  modify fun (e, b) => ({ e with catalog := f e.catalog }, b)

def publish : Work Unit :=
  modify fun (e, b) => (e.publish e.catalog, b)

def broker : Work Broker := do
  let b := (← get).2
  if b.available then return b else throw (.broker Broker.unreachable)

def topicExists (topic : String) : Work Bool :=
  return (← broker).topics.contains topic

def createTopic (topic : String) : Work Unit := do
  let b ← broker
  modify fun (e, _) => (e, b.addTopic topic)

def deleteTopic (topic : String) : Work Unit := do
  let b ← broker
  if b.undeletable.contains topic then throw (.broker (Broker.notAuthorized topic))
  else modify fun (e, _) => (e, { b with topics := b.topics.erase topic })

def requireSources : List String → Work Unit
  | [] => return
  | s :: ss => do
    if ((← catalog).source? s).isSome then requireSources ss else throw (.noSource s)

def createSource (command : Command) (kind : SourceKind) (name : String) (topic : Option String)
    (ifNotExists : Bool) : Work Unit := do
  match (← catalog).source? name with
  | some existing =>
    if ifNotExists then return else throw (.sourceExists kind name existing.kind)
  | none =>
    let topic := topic.getD name
    if ← topicExists topic then
      change fun c => c.addSource (Catalog.newSource command kind name topic)
    else throw (.noTopic topic)

def createAsSelect (command : Command) (mode : Mode) (kind : SourceKind) (name : String)
    (sources : List String) (ifNotExists : Bool) : Work Unit := do
  if ((← catalog).source? name).isSome then
    if ifNotExists then return else throw (.sinkExists kind name)
  else
    requireSources sources
    createTopic name
    change fun c => c.addSource (Catalog.newSource command kind name name)
    change fun c => c.manage name
    change fun c => c.addQuery
      (Catalog.newQuery command mode (Catalog.selectQueryId kind name command.offset) name sources)

def insertInto (command : Command) (mode : Mode) (target : String) (sources : List String) :
    Work Unit := do
  match (← catalog).source? target with
  | none => throw (.noSink target)
  | some sink =>
    if sink.kind = .table then throw (.tableSink target)
    else
      requireSources sources
      change fun c => c.addQuery
        (Catalog.newQuery command mode (Catalog.insertQueryId command.offset) target sources)

def dropSource (kind : SourceKind) (name : String) (ifExists purge : Bool) :
    Work Unit := do
  let c ← catalog
  match c.source? name with
  | none => if ifExists then return else throw (.noSource name)
  | some existing =>
    if existing.kind ≠ kind then throw (.wrongKind existing.kind kind)
    else if existing.createdAt.isNone then throw (.builtIn name)
    else if !(c.queriesTouching name).isEmpty then
      throw (.inUse name (c.queriesTouching name))
    else
      if purge then
        deleteTopic existing.topic
        change fun c => c.unmanage existing.topic
      change fun c => { c with sources := c.sources.erase name }

def terminateQuery (query : String) : Work Unit := do
  match (← catalog).queries[query]? with
  | none => throw (.unknownQuery query)
  | some _ => change fun c => { c with queries := c.queries.erase query }

def deleteIfPresent (topic : String) : Work Bool := do
  if ← topicExists topic then
    deleteTopic topic
    return true
  else return false

/-- Deletes the topics that are there, and tells which. A topic that has to stay stops nothing. -/
def release : List String → Work (List String)
  | [] => return []
  | topic :: topics => do
    let present ← tryCatch (deleteIfPresent topic) fun _ => return false
    let deleted ← release topics
    return if present then topic :: deleted else deleted

def terminateCluster (topics : List String) : Work Unit := do
  change fun c => { c with queries := ∅ }
  let deleted ← release ((← catalog).releaseTargets topics).toList
  change fun c => { c with managed := deleted.foldl ExtTreeSet.erase c.managed }
  change fun c => { c with sources := ∅, terminated := true }

def execute (command : Command) (mode : Mode) : Statement → Work Unit
  | .createSource kind name topic ifNotExists => createSource command kind name topic ifNotExists
  | .createAsSelect kind name sources ifNotExists =>
    createAsSelect command mode kind name sources ifNotExists
  | .insertInto target sources => insertInto command mode target sources
  | .dropSource kind name ifExists purge => dropSource kind name ifExists purge
  | .terminateQuery query => terminateQuery query
  | .terminateCluster topics => terminateCluster topics

def perform (command : Command) (mode : Mode) : Work Unit := do
  match Statement.read command.payload.statement with
  | .error fault => throw (.unreadable fault)
  | .ok statement =>
    if (← catalog).terminated && !statement.isTerminateCluster then throw .clusterTerminated
    else
      execute command mode statement
      change fun c => c.recordApplied command
      publish

def apply (command : Command) (mode : Mode) : Work Unit := do
  if (← catalog).alreadyApplied command.id command.offset then return
  else perform command mode

def Agrees : EStateM.Result Refusal (Engine × Broker) Unit →
    Except Failure Effect × Engine × Broker → Prop
  | .ok _ s, o => ∃ effect, o = (.ok effect, s)
  | .error r s, o => o = (.error r.failure, s)

def Yields (w : Work Unit) (e : Engine) (b : Broker) : Except Refusal Catalog.Outcome → Prop
  | .ok (_, c, b') => w (e, b) = .ok () ({ e with catalog := c }, b')
  | .error r => w (e, b) = .error r (e, b)

variable {e : Engine} {b : Broker}

theorem bind_ok {α β : Type} {w : Work α} {f : α → Work β} {s s' : Engine × Broker} {a : α}
    (h : w s = .ok a s') : (w >>= f) s = f a s' := by
  show EStateM.bind w f s = _
  rw [EStateM.bind, h]

theorem bind_error {α β : Type} {w : Work α} {f : α → Work β} {s s' : Engine × Broker}
    {r : Refusal} (h : w s = .error r s') : (w >>= f) s = .error r s' := by
  show EStateM.bind w f s = _
  rw [EStateM.bind, h]

theorem catalog_bind {α : Type} (f : Catalog → Work α) (e : Engine) (b : Broker) :
    (catalog >>= f) (e, b) = f e.catalog (e, b) :=
  rfl

theorem yields_catalog {f : Catalog → Work Unit} {o : Except Refusal Catalog.Outcome} :
    (catalog >>= f).Yields e b o ↔ (f e.catalog).Yields e b o := by
  cases o <;> exact Iff.rfl

theorem Yields.of_error {α : Type} {w : Work α} {f : α → Work Unit} {r : Refusal}
    (h : w (e, b) = .error r (e, b)) : (w >>= f).Yields e b (.error r) :=
  bind_error h

theorem Yields.of_ok {α : Type} {w : Work α} {f : α → Work Unit} {a : α}
    {o : Except Refusal Catalog.Outcome} (h : w (e, b) = .ok a (e, b)) (hf : (f a).Yields e b o) :
    (w >>= f).Yields e b o := by
  cases o with
  | ok o => exact (bind_ok h).trans hf
  | error r => exact (bind_ok h).trans hf

theorem broker_bind {α : Type} (f : Broker → Work α) (e : Engine) (b : Broker) :
    (broker >>= f) (e, b) =
      if b.available then f b (e, b) else .error (.broker Broker.unreachable) (e, b) := by
  have h : broker (e, b) = (if b.available then pure b else
      throw (.broker Broker.unreachable) : Work Broker) (e, b) := rfl
  cases hb : b.available with
  | true =>
    rw [hb] at h
    exact bind_ok h
  | false =>
    rw [hb] at h
    exact bind_error h

theorem topicExists_run (e : Engine) (b : Broker) (topic : String) :
    topicExists topic (e, b) = match b.topicExists topic with
      | .ok there => .ok there (e, b)
      | .error f => .error (.broker f) (e, b) := by
  rw [topicExists, broker_bind, Broker.topicExists]
  cases b.available <;> rfl

theorem createTopic_run (e : Engine) (b : Broker) (topic : String) :
    createTopic topic (e, b) = match b.createTopic topic with
      | .ok b' => .ok () (e, b')
      | .error f => .error (.broker f) (e, b) := by
  rw [createTopic, broker_bind, Broker.createTopic]
  cases b.available <;> rfl

theorem deleteTopic_run (e : Engine) (b : Broker) (topic : String) :
    deleteTopic topic (e, b) = match b.deleteTopic topic with
      | .ok b' => .ok () (e, b')
      | .error f => .error (.broker f) (e, b) := by
  rw [deleteTopic, broker_bind, Broker.deleteTopic]
  cases b.available with
  | true => cases b.undeletable.contains topic <;> rfl
  | false => rfl

theorem requireSources_run (e : Engine) (b : Broker) (ss : List String) :
    requireSources ss (e, b) = match e.catalog.requireSources ss with
      | .ok _ => .ok () (e, b)
      | .error r => .error r (e, b) := by
  induction ss with
  | nil => rfl
  | cons s ss ih =>
    rw [requireSources, catalog_bind, Catalog.requireSources]
    cases (e.catalog.source? s).isSome with
    | true => exact ih
    | false => rfl

theorem createSource_yields (command : Command) (kind : SourceKind) (name : String)
    (topic : Option String) (ifNotExists : Bool) :
    (createSource command kind name topic ifNotExists).Yields e b
      (e.catalog.createSource b command kind name topic ifNotExists) := by
  rw [Catalog.createSource_eq, createSource, yields_catalog]
  unfold Catalog.planCreateSource
  cases e.catalog.source? name with
  | some existing => cases ifNotExists <;> rfl
  | none =>
    have h := topicExists_run e b (topic.getD name)
    simp only [Plan.run, Catalog.requireTopic]
    cases ht : b.topicExists (topic.getD name) with
    | error f =>
      rw [ht] at h
      exact .of_error h
    | ok there =>
      rw [ht] at h
      refine .of_ok h ?_
      cases there <;> rfl

theorem createAsSelect_yields (command : Command) (mode : Mode) (kind : SourceKind)
    (name : String) (sources : List String) (ifNotExists : Bool) :
    (createAsSelect command mode kind name sources ifNotExists).Yields e b
      (e.catalog.createAsSelect b command mode kind name sources ifNotExists) := by
  rw [Catalog.createAsSelect_eq, createAsSelect, yields_catalog]
  unfold Catalog.planCreateAsSelect
  cases (e.catalog.source? name).isSome with
  | true => cases ifNotExists <;> rfl
  | false =>
    have h := requireSources_run e b sources
    cases hs : e.catalog.requireSources sources with
    | error r =>
      rw [hs] at h
      exact .of_error h
    | ok u =>
      rw [hs] at h
      refine .of_ok h ?_
      have h := createTopic_run e b name
      simp only [Bool.false_eq_true, if_false, Plan.run]
      cases ht : b.createTopic name with
      | error f =>
        rw [ht] at h
        exact .of_error h
      | ok b' =>
        rw [ht] at h
        exact bind_ok h

theorem insertInto_yields (command : Command) (mode : Mode) (target : String)
    (sources : List String) :
    (insertInto command mode target sources).Yields e b
      (e.catalog.insertInto b command mode target sources) := by
  rw [Catalog.insertInto_eq, insertInto, yields_catalog, Catalog.planInsertInto]
  cases e.catalog.source? target with
  | none => rfl
  | some sink =>
    simp only
    split
    · rfl
    · have h := requireSources_run e b sources
      cases hs : e.catalog.requireSources sources with
      | error r =>
        rw [hs] at h
        exact .of_error h
      | ok u =>
        rw [hs] at h
        exact .of_ok h rfl

theorem dropSource_yields (kind : SourceKind) (name : String) (ifExists purge : Bool) :
    (dropSource kind name ifExists purge).Yields e b
      (e.catalog.dropSource b kind name ifExists purge) := by
  rw [Catalog.dropSource_eq, dropSource, yields_catalog, Catalog.planDropSource]
  cases e.catalog.source? name with
  | none => cases ifExists <;> rfl
  | some existing =>
    simp only
    split
    · rfl
    · split
      · rfl
      · split
        · rfl
        · cases purge with
          | false => rfl
          | true =>
            have h := deleteTopic_run e b existing.topic
            simp only [Plan.run, if_true]
            cases ht : b.deleteTopic existing.topic with
            | error f =>
              rw [ht] at h
              exact .of_error h
            | ok b' =>
              rw [ht] at h
              exact (bind_ok h).trans rfl

theorem terminateQuery_yields (query : String) :
    (terminateQuery query).Yields e b (e.catalog.terminateQuery b query) := by
  rw [Catalog.terminateQuery_eq, terminateQuery, yields_catalog, Catalog.planTerminateQuery]
  cases e.catalog.queries[query]? <;> rfl

theorem deleteIfPresent_run (e : Engine) (b : Broker) (topic : String) :
    deleteIfPresent topic (e, b) = match b.deleteIfPresent topic with
      | .ok (there, b') => .ok there (e, b')
      | .error f => .error (.broker f) (e, b) := by
  have h := topicExists_run e b topic
  rw [Broker.deleteIfPresent]
  cases ht : b.topicExists topic with
  | error f =>
    rw [ht] at h
    exact bind_error h
  | ok there =>
    rw [ht] at h
    refine (bind_ok h).trans ?_
    cases there with
    | false => rfl
    | true =>
      have h := deleteTopic_run e b topic
      cases hd : b.deleteTopic topic with
      | error f =>
        rw [hd] at h
        exact bind_error h
      | ok b' =>
        rw [hd] at h
        exact bind_ok h

theorem release_run (e : Engine) (b : Broker) (topics : List String) :
    release topics (e, b) = .ok (b.release topics).1.deleted (e, (b.release topics).2) := by
  induction topics generalizing b with
  | nil => rfl
  | cons topic topics ih =>
    have h := deleteIfPresent_run e b topic
    -- a refusal is caught, and what has been done before it is not taken back
    have hc : tryCatch (deleteIfPresent topic) (fun _ => return false) (e, b) =
        match b.deleteIfPresent topic with
        | .ok (there, b') => .ok there (e, b')
        | .error _ => .ok false (e, b) := by
      show EStateM.tryCatch _ _ _ = _
      delta EStateM.tryCatch
      rw [h]
      cases b.deleteIfPresent topic <;> rfl
    rw [Broker.release]
    cases hd : b.deleteIfPresent topic with
    | error f =>
      rw [hd] at hc
      exact (bind_ok hc).trans ((bind_ok (ih b)).trans rfl)
    | ok o =>
      obtain ⟨there, b'⟩ := o
      rw [hd] at hc
      refine (bind_ok hc).trans ((bind_ok (ih b')).trans ?_)
      cases there <;> rfl

theorem terminateCluster_yields (topics : List String) :
    (terminateCluster topics).Yields e b (.ok (e.catalog.terminateCluster b topics)) := by
  have h := release_run { e with catalog := { e.catalog with queries := ∅ } } b
    (e.catalog.releaseTargets topics).toList
  exact bind_ok h

theorem execute_yields (command : Command) (mode : Mode) (statement : Statement) :
    (execute command mode statement).Yields e b
      (e.catalog.execute b command mode statement) := by
  cases statement with
  | createSource kind name topic ifNotExists => exact createSource_yields ..
  | createAsSelect kind name sources ifNotExists => exact createAsSelect_yields ..
  | insertInto target sources => exact insertInto_yields ..
  | dropSource kind name ifExists purge => exact dropSource_yields ..
  | terminateQuery query => exact terminateQuery_yields ..
  | terminateCluster topics => exact terminateCluster_yields ..

theorem perform_run (e : Engine) (b : Broker) (command : Command) (mode : Mode) :
    perform command mode (e, b) = match e.catalog.perform b command mode with
      | .ok (_, c, b') => .ok () (e.publish c, b')
      | .error r => .error r (e, b) := by
  rw [Catalog.perform, perform]
  cases Statement.read command.payload.statement with
  | error fault => rfl
  | ok statement =>
    simp only [catalog_bind]
    split
    · rfl
    · have h := execute_yields (e := e) (b := b) command mode statement
      cases hx : e.catalog.execute b command mode statement with
      | error r =>
        rw [hx] at h
        exact bind_error h
      | ok o =>
        rw [hx] at h
        exact (bind_ok h).trans rfl

theorem apply_agrees (e : Engine) (b : Broker) (command : Command) (mode : Mode) :
    Agrees (apply command mode (e, b)) (e.apply b command mode) := by
  rw [apply, catalog_bind, Engine.apply]
  cases e.catalog.alreadyApplied command.id command.offset with
  | true => exact ⟨_, rfl⟩
  | false =>
    have hperform := perform_run e b command mode
    simp only [Bool.false_eq_true, if_false]
    cases hp : e.catalog.perform b command mode with
    | error r =>
      rw [hp] at hperform
      rw [hperform]
      rfl
    | ok o =>
      rw [hp] at hperform
      rw [hperform]
      exact ⟨_, rfl⟩

end Work

namespace Engine

def Event.publications (e : Engine) : Event → Nat
  | .apply b command mode =>
    match (e.apply b command mode).1 with
    | .ok effect => if effect.replayed then 0 else 1
    | .error _ => 0
  | .finishReplay => 1

/-- A command takes effect as a whole or not at all, and the snapshot keeps up with the catalog. -/
structure Transacts (e : Engine) : Prop where
  current : e.snapshot = e.catalog
  agrees (b : Broker) (command : Command) (mode : Mode) :
    Work.Agrees (Work.apply command mode (e, b)) (e.apply b command mode)
  unmoved {b : Broker} {command : Command} {mode : Mode} {r : Refusal} {s : Engine × Broker} :
    Work.apply command mode (e, b) = .error r s → s = (e, b)
  failed {b : Broker} {command : Command} {mode : Mode} {f : Failure} :
    (e.apply b command mode).1 = .error f → (e.apply b command mode).2 = (e, b)
  replayed {b : Broker} {command : Command} {mode : Mode} {effect : Effect} :
    (e.apply b command mode).1 = .ok effect → effect.replayed = true →
      (e.apply b command mode).2 = (e, b)
  published (event : Event) :
    (e.act event).published = e.published + event.publications e

variable {e : Engine}

theorem failed_unmoved {b : Broker} {command : Command} {mode : Mode} {f : Failure}
    (h : (e.apply b command mode).1 = .error f) : (e.apply b command mode).2 = (e, b) := by
  rcases e.apply_cases b command mode with ⟨-, ha⟩ | ⟨f, ha⟩ | ⟨-, _, _, _, _, -, -, -, ha⟩
  · rw [ha]
  · rw [ha]
  · rw [ha] at h
    cases h

theorem replayed_unmoved {b : Broker} {command : Command} {mode : Mode} {effect : Effect}
    (h : (e.apply b command mode).1 = .ok effect) (hr : effect.replayed = true) :
    (e.apply b command mode).2 = (e, b) := by
  rcases e.apply_cases b command mode with ⟨-, ha⟩ | ⟨f, ha⟩ | ⟨-, _, _, _, _, -, -, hx, ha⟩
  · rw [ha]
  · rw [ha]
  · rw [ha] at h
    cases h
    rw [(Catalog.execute_booking hx).1] at hr
    cases hr

theorem published_act (e : Engine) (event : Event) :
    (e.act event).published = e.published + event.publications e := by
  cases event with
  | finishReplay => rfl
  | apply b command mode =>
    rw [act, Event.publications]
    rcases e.apply_cases b command mode with ⟨-, ha⟩ | ⟨f, ha⟩ | ⟨-, _, _, _, _, -, -, hx, ha⟩
    · rw [ha]
      rfl
    · rw [ha]
      rfl
    · rw [ha]
      simp only [(Catalog.execute_booking hx).1]
      rfl

theorem current_act (h : e.snapshot = e.catalog) (event : Event) :
    (e.act event).snapshot = (e.act event).catalog := by
  cases event with
  | finishReplay => rfl
  | apply b command mode =>
    rw [act]
    rcases e.apply_cases b command mode with ⟨-, ha⟩ | ⟨f, ha⟩ | ⟨-, _, _, _, _, -, -, -, ha⟩
    · rw [ha]
      exact h
    · rw [ha]
      exact h
    · rw [ha]
      rfl

/-- Whatever an engine has gone through, a command that fails leaves the catalog, its snapshot and
the broker as they were, although the work is done in place and may stop at any point of it. The
snapshot is the catalog at all times; a new one comes with each command that takes effect and with
the end of a replay, and with nothing else. -/
theorem apply_all_or_nothing (topic : Option String) (events : List Event) :
    ((ofTopic? topic).run events).Transacts where
  current := by
    refine run_keeps (P := fun e => e.snapshot = e.catalog) ?_ ?_
    · exact fun e event _ h => current_act h event
    · cases topic <;> rfl
  agrees := Work.apply_agrees _
  unmoved {b command mode r s} h := by
    have ha := Work.apply_agrees ((ofTopic? topic).run events) b command mode
    rw [h] at ha
    have hs := failed_unmoved (congrArg Prod.fst ha)
    rw [ha] at hs
    exact hs
  failed := failed_unmoved
  replayed := replayed_unmoved
  published := published_act _

end Engine

end StatementLog
