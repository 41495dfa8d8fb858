import StatementLog.Command.Id

namespace StatementLog

inductive SourceKind where
  | stream
  | table
  deriving DecidableEq, Repr

def SourceKind.label : SourceKind → String
  | .stream => "stream"
  | .table => "table"

def SourceKind.entityKind : SourceKind → EntityKind
  | .stream => .stream
  | .table => .table

inductive Statement where
  | createSource (kind : SourceKind) (name : String) (topic : Option String)
      (ifNotExists : Bool)
  | createAsSelect (kind : SourceKind) (name : String) (sources : List String)
      (ifNotExists : Bool)
  | insertInto (target : String) (sources : List String)
  | dropSource (kind : SourceKind) (name : String) (ifExists deleteTopic : Bool)
  | terminateQuery (query : String)
  | terminateCluster (topics : List String)
  deriving DecidableEq, Repr

namespace Statement

def isTerminateCluster : Statement → Bool
  | .terminateCluster _ => true
  | _ => false

def id : Statement → CommandId
  | .createSource kind name _ _ => ⟨kind.entityKind, name, .create⟩
  | .createAsSelect kind name _ _ => ⟨kind.entityKind, name, .create⟩
  | .insertInto target _ => ⟨.stream, "InsertInto_" ++ target, .execute⟩
  | .dropSource kind name _ _ => ⟨kind.entityKind, name, .drop⟩
  | .terminateQuery query => ⟨.terminate, query, .execute⟩
  | .terminateCluster _ => ⟨.cluster, "TerminateCluster", .terminate⟩

end Statement

end StatementLog
