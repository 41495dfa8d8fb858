import StatementLog.Engine

namespace StatementLog

/-- The outcome of a statement, up to the one thing that the broker is asked. -/
inductive Plan where
  | refuse (refusal : Refusal)
  | accept (effect : Effect) (catalog : Catalog)
  | require (topic : String) (effect : Effect) (catalog : Catalog)
  | create (topic : String) (effect : Effect) (catalog : Catalog)
  | delete (topic : String) (effect : Effect) (catalog : Catalog)

namespace Plan

def map (p : Plan) (f : Catalog → Catalog) : Plan :=
  match p with
  | refuse r => refuse r
  | accept e c => accept e (f c)
  | require t e c => require t e (f c)
  | create t e c => create t e (f c)
  | delete t e c => delete t e (f c)

def run (p : Plan) (b : Broker) : Except Refusal Catalog.Outcome :=
  match p with
  | refuse r => .error r
  | accept e c => .ok (e, c, b)
  | require t e c => (Catalog.requireTopic b t).map fun _ => (e, c, b)
  | create t e c => (Catalog.onBroker (b.createTopic t)).map fun b => (e, c, b)
  | delete t e c => (Catalog.onBroker (b.deleteTopic t)).map fun b => (e, c, b)

theorem run_map (p : Plan) (f : Catalog → Catalog) (b : Broker) :
    (p.map f).run b = (p.run b).map fun o => (o.1, f o.2.1, o.2.2) := by
  cases p with
  | refuse r => rfl
  | accept e c => rfl
  | require t e c => cases h : Catalog.requireTopic b t <;> simp [map, run, h, Except.map]
  | create t e c => cases h : b.createTopic t <;> simp only [map, run, h] <;> rfl
  | delete t e c => cases h : b.deleteTopic t <;> simp only [map, run, h] <;> rfl

end Plan

namespace Catalog

variable (c : Catalog) (b : Broker) (command : Command) (mode : Mode)

def planCreateSource (kind : SourceKind) (name : String) (topic : Option String)
    (ifNotExists : Bool) : Plan :=
  match c.source? name with
  | some existing =>
    if ifNotExists then .accept (skipped kind name) c
    else .refuse (.sourceExists kind name existing.kind)
  | none =>
    .require (topic.getD name)
      { message := match kind with
          | .stream => "Stream created"
          | .table => "Table created" }
      (c.addSource (newSource command kind name (topic.getD name)))

def planCreateAsSelect (kind : SourceKind) (name : String) (sources : List String)
    (ifNotExists : Bool) : Plan :=
  if (c.source? name).isSome then
    if ifNotExists then .accept (skipped kind name) c else .refuse (.sinkExists kind name)
  else match c.requireSources sources with
    | .error r => .refuse r
    | .ok () =>
      .create name
        { message := match kind with
            | .stream => "Stream created and running"
            | .table => "Table created and running"
          query := some (selectQueryId kind name command.offset) }
        (((c.addSource (newSource command kind name name)).manage name).addQuery
          (newQuery command mode (selectQueryId kind name command.offset) name sources))

def planInsertInto (target : String) (sources : List String) : Plan :=
  match c.source? target with
  | none => .refuse (.noSink target)
  | some sink =>
    if sink.kind = .table then .refuse (.tableSink target)
    else match c.requireSources sources with
      | .error r => .refuse r
      | .ok () =>
        .accept
          { message := "Insert Into query is running.", query := some (insertQueryId command.offset) }
          (c.addQuery (newQuery command mode (insertQueryId command.offset) target sources))

def planDropSource (kind : SourceKind) (name : String) (ifExists deleteTopic : Bool) : Plan :=
  match c.source? name with
  | none =>
    if ifExists then .accept { message := s!"Source {name} does not exist, nothing to drop" } c
    else .refuse (.noSource name)
  | some existing =>
    if existing.kind ≠ kind then .refuse (.wrongKind existing.kind kind)
    else if existing.createdAt.isNone then .refuse (.builtIn name)
    else if !(c.queriesTouching name).isEmpty then .refuse (.inUse name (c.queriesTouching name))
    else
      let effect : Effect :=
        { message := "Source \x60" ++ name ++ "\x60 (topic: " ++ existing.topic ++ ") was dropped." }
      if deleteTopic then
        .delete existing.topic effect
          { c.unmanage existing.topic with sources := c.sources.erase name }
      else .accept effect { c with sources := c.sources.erase name }

def planTerminateQuery (query : String) : Plan :=
  match c.queries[query]? with
  | none => .refuse (.unknownQuery query)
  | some _ =>
    .accept { message := "Query terminated.", query := some query }
      { c with queries := c.queries.erase query }

def planStatement : Statement → Plan
  | .createSource kind name topic ifNotExists =>
    c.planCreateSource command kind name topic ifNotExists
  | .createAsSelect kind name sources ifNotExists =>
    c.planCreateAsSelect command mode kind name sources ifNotExists
  | .insertInto target sources => c.planInsertInto command mode target sources
  | .dropSource kind name ifExists deleteTopic => c.planDropSource kind name ifExists deleteTopic
  | .terminateQuery query => c.planTerminateQuery query
  | .terminateCluster _ => .refuse .clusterTerminated

theorem createSource_eq (kind : SourceKind) (name : String) (topic : Option String)
    (ifNotExists : Bool) :
    c.createSource b command kind name topic ifNotExists =
      (c.planCreateSource command kind name topic ifNotExists).run b := by
  simp only [createSource, planCreateSource]
  cases c.source? name with
  | some existing => cases ifNotExists <;> rfl
  | none =>
    simp only [Plan.run]
    cases requireTopic b (topic.getD name) <;> rfl

theorem createAsSelect_eq (kind : SourceKind) (name : String) (sources : List String)
    (ifNotExists : Bool) :
    c.createAsSelect b command mode kind name sources ifNotExists =
      (c.planCreateAsSelect command mode kind name sources ifNotExists).run b := by
  simp only [createAsSelect, planCreateAsSelect]
  cases (c.source? name).isSome with
  | true => cases ifNotExists <;> rfl
  | false =>
    cases c.requireSources sources with
    | error r => rfl
    | ok u => cases h : b.createTopic name <;> simp [Plan.run, h] <;> rfl

theorem insertInto_eq (target : String) (sources : List String) :
    c.insertInto b command mode target sources =
      (c.planInsertInto command mode target sources).run b := by
  simp only [insertInto, planInsertInto]
  cases c.source? target with
  | none => rfl
  | some sink =>
    by_cases hk : sink.kind = .table
    · simp only [hk, if_true]
      rfl
    · simp only [hk, if_false]
      cases c.requireSources sources <;> rfl

theorem dropSource_eq (kind : SourceKind) (name : String) (ifExists deleteTopic : Bool) :
    c.dropSource b kind name ifExists deleteTopic =
      (c.planDropSource kind name ifExists deleteTopic).run b := by
  simp only [dropSource, planDropSource]
  cases c.source? name with
  | none => cases ifExists <;> rfl
  | some existing =>
    simp only
    split
    · rfl
    · split
      · rfl
      · split
        · rfl
        · cases deleteTopic with
          | false => rfl
          | true => cases h : b.deleteTopic existing.topic <;> simp [Plan.run, h] <;> rfl

theorem terminateQuery_eq (query : String) :
    c.terminateQuery b query = (c.planTerminateQuery query).run b := by
  simp only [terminateQuery, planTerminateQuery]
  cases c.queries[query]? <;> rfl

theorem execute_eq {statement : Statement} (h : statement.isTerminateCluster = false) :
    c.execute b command mode statement = (c.planStatement command mode statement).run b := by
  cases statement with
  | createSource kind name topic ifNotExists => exact createSource_eq ..
  | createAsSelect kind name sources ifNotExists => exact createAsSelect_eq ..
  | insertInto target sources => exact insertInto_eq ..
  | dropSource kind name ifExists deleteTopic => exact dropSource_eq ..
  | terminateQuery query => exact terminateQuery_eq ..
  | terminateCluster topics => cases h

variable {c b command mode}

theorem execute_cases {statement : Statement} {o : Outcome}
    (h : c.execute b command mode statement = .ok o) :
    (∃ topics, statement = .terminateCluster topics ∧ o = c.terminateCluster b topics) ∨
      statement.isTerminateCluster = false ∧
        (c.planStatement command mode statement).run b = .ok o := by
  cases ht : statement.isTerminateCluster with
  | false => exact .inr ⟨rfl, execute_eq c b command mode ht ▸ h⟩
  | true =>
    cases statement with
    | terminateCluster topics =>
      cases h
      exact .inl ⟨topics, rfl, rfl⟩
    | _ => cases ht

end Catalog

end StatementLog
