import StatementLog.Proofs.Engine.Plan

namespace StatementLog

open Std

namespace Catalog

variable (c : Catalog)

@[simp]
theorem source?_startQueries (name : String) : c.startQueries.source? name = c.source? name :=
  rfl

@[simp]
theorem alreadyApplied_startQueries (id : CommandId) (offset : Nat) :
    c.startQueries.alreadyApplied id offset = c.alreadyApplied id offset :=
  rfl

@[simp]
theorem startQueries_startQueries : c.startQueries.startQueries = c.startQueries := by
  simp only [startQueries, mk.injEq, true_and, and_true]
  apply ExtTreeMap.ext_getElem?
  intro k
  simp only [ExtTreeMap.getElem?_map, Option.map_map]
  rfl

@[simp]
theorem startQueries_addQuery (q : Query) :
    (c.addQuery q).startQueries = c.startQueries.addQuery q.start := by
  simp only [startQueries, addQuery, mk.injEq, true_and, and_true]
  apply ExtTreeMap.ext_getElem?
  intro k
  simp only [ExtTreeMap.getElem?_map, ExtTreeMap.getElem?_insert]
  by_cases h : compare q.id k = .eq <;> simp [h, Query.start]

@[simp]
theorem startQueries_erase (query : String) :
    ({ c with queries := c.queries.erase query } : Catalog).startQueries =
      { c.startQueries with queries := c.startQueries.queries.erase query } := by
  simp only [startQueries, mk.injEq, true_and, and_true]
  apply ExtTreeMap.ext_getElem?
  intro k
  simp only [ExtTreeMap.getElem?_map, ExtTreeMap.getElem?_erase]
  by_cases h : compare query k = .eq <;> simp [h]

@[simp]
theorem queriesTouching_startQueries (source : String) :
    c.startQueries.queriesTouching source = c.queriesTouching source := by
  simp only [queriesTouching, startQueries, ExtTreeMap.toList_map, List.map_map, List.filter_map]
  rfl

@[simp]
theorem requireSources_startQueries (ss : List String) :
    c.startQueries.requireSources ss = c.requireSources ss := by
  induction ss with
  | nil => rfl
  | cons s ss ih => simp only [requireSources, source?_startQueries, ih]

variable (command : Command) (mode : Mode)

theorem planCreateSource_startQueries (kind : SourceKind) (name : String) (topic : Option String)
    (ifNotExists : Bool) :
    c.startQueries.planCreateSource command kind name topic ifNotExists =
      (c.planCreateSource command kind name topic ifNotExists).map startQueries := by
  simp only [planCreateSource, source?_startQueries]
  cases c.source? name with
  | some existing => cases ifNotExists <;> rfl
  | none => rfl

theorem planCreateAsSelect_startQueries (kind : SourceKind) (name : String)
    (sources : List String) (ifNotExists : Bool) :
    c.startQueries.planCreateAsSelect command .live kind name sources ifNotExists =
      (c.planCreateAsSelect command mode kind name sources ifNotExists).map startQueries := by
  simp only [planCreateAsSelect, source?_startQueries, requireSources_startQueries]
  cases (c.source? name).isSome with
  | true => cases ifNotExists <;> rfl
  | false =>
    cases c.requireSources sources with
    | error r => rfl
    | ok u =>
      simp only [Bool.false_eq_true, if_false, Plan.map, startQueries_addQuery]
      rfl

theorem planInsertInto_startQueries (target : String) (sources : List String) :
    c.startQueries.planInsertInto command .live target sources =
      (c.planInsertInto command mode target sources).map startQueries := by
  simp only [planInsertInto, source?_startQueries, requireSources_startQueries]
  cases c.source? target with
  | none => rfl
  | some sink =>
    simp only
    split
    · rfl
    · cases c.requireSources sources with
      | error r => rfl
      | ok u =>
        simp only [Plan.map, startQueries_addQuery]
        rfl

theorem planDropSource_startQueries (kind : SourceKind) (name : String)
    (ifExists deleteTopic : Bool) :
    c.startQueries.planDropSource kind name ifExists deleteTopic =
      (c.planDropSource kind name ifExists deleteTopic).map startQueries := by
  simp only [planDropSource, source?_startQueries, queriesTouching_startQueries]
  cases c.source? name with
  | none => cases ifExists <;> rfl
  | some existing =>
    simp only
    split
    · rfl
    · split
      · rfl
      · split
        · rfl
        · cases deleteTopic <;> rfl

theorem planTerminateQuery_startQueries (query : String) :
    c.startQueries.planTerminateQuery query =
      (c.planTerminateQuery query).map startQueries := by
  simp only [planTerminateQuery, startQueries, ExtTreeMap.getElem?_map]
  cases c.queries[query]? with
  | none => rfl
  | some q =>
    simp only [Option.map_some, Plan.map]
    exact congrArg _ (c.startQueries_erase query).symm

theorem planStatement_startQueries (statement : Statement) :
    c.startQueries.planStatement command .live statement =
      (c.planStatement command mode statement).map startQueries := by
  cases statement with
  | createSource kind name topic ifNotExists => exact planCreateSource_startQueries ..
  | createAsSelect kind name sources ifNotExists => exact planCreateAsSelect_startQueries ..
  | insertInto target sources => exact planInsertInto_startQueries ..
  | dropSource kind name ifExists deleteTopic => exact planDropSource_startQueries ..
  | terminateQuery query => exact planTerminateQuery_startQueries ..
  | terminateCluster topics => rfl

def plan : Plan :=
  if c.alreadyApplied command.id command.offset then .accept (Engine.replayedEffect command) c
  else match Statement.read command.payload.statement with
    | .error fault => .refuse (.unreadable fault)
    | .ok statement =>
      if c.terminated && !statement.isTerminateCluster then .refuse .clusterTerminated
      else (c.planStatement command mode statement).map fun d => d.recordApplied command

theorem plan_startQueries :
    c.startQueries.plan command .live = (c.plan command mode).map startQueries := by
  have ht : c.startQueries.terminated = c.terminated := rfl
  simp only [plan, alreadyApplied_startQueries, ht]
  cases c.alreadyApplied command.id command.offset with
  | true => rfl
  | false =>
    cases Statement.read command.payload.statement with
    | error fault => rfl
    | ok statement =>
      cases hs : (c.terminated && !statement.isTerminateCluster) with
      | true => simp [hs, Plan.map]
      | false =>
        simp only [hs, planStatement_startQueries c command mode]
        cases c.planStatement command mode statement <;> rfl

end Catalog

def Command.Ordinary (command : Command) : Prop :=
  ∀ topics, Statement.read command.payload.statement ≠ .ok (.terminateCluster topics)

def Plan.settle (p : Plan) (c : Catalog) (b : Broker) : Except Failure Effect × Catalog × Broker :=
  match p.run b with
  | .error r => (.error r.failure, c, b)
  | .ok (effect, c, b) => (.ok effect, c, b)

/-- What a command does to a catalog and to the broker when it is applied live. -/
def Catalog.settle (c : Catalog) (b : Broker) (command : Command) :
    Except Failure Effect × Catalog × Broker :=
  (c.plan command .live).settle c b

theorem Plan.settle_map (p : Plan) (f : Catalog → Catalog) (c : Catalog) (b : Broker) :
    (p.map f).settle (f c) b = ((p.settle c b).1, f (p.settle c b).2.1, (p.settle c b).2.2) := by
  simp only [settle, run_map]
  cases p.run b <;> rfl

theorem Engine.apply_plan {command : Command} (h : command.Ordinary) (e : Engine) (b : Broker)
    (mode : Mode) :
    ((e.apply b command mode).1, (e.apply b command mode).2.1.catalog,
      (e.apply b command mode).2.2) = (e.catalog.plan command mode).settle e.catalog b := by
  simp only [Engine.apply, Catalog.plan]
  split
  · rfl
  · cases hs : Statement.read command.payload.statement with
    | error fault =>
      simp only [Catalog.perform, hs]
      rfl
    | ok statement =>
      have ht : statement.isTerminateCluster = false := by
        cases statement <;> first | rfl | exact absurd hs (h _)
      simp only [Catalog.perform, hs, ht, Bool.not_false, Bool.and_true]
      cases e.catalog.terminated with
      | true => rfl
      | false =>
        simp only [Bool.false_eq_true, if_false, Plan.settle, Plan.run_map,
          Catalog.execute_eq e.catalog b command mode ht]
        cases (e.catalog.planStatement command mode statement).run b <;> rfl

theorem Engine.apply_settle {command : Command} (h : command.Ordinary) (e : Engine) (b : Broker)
    (mode : Mode) :
    e.catalog.startQueries.settle b command =
      ((e.apply b command mode).1, (e.apply b command mode).2.1.catalog.startQueries,
        (e.apply b command mode).2.2) := by
  have hp := e.apply_plan h b mode
  rw [Catalog.settle, Catalog.plan_startQueries e.catalog command mode, Plan.settle_map, ← hp]

end StatementLog
