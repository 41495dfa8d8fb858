namespace StatementLog

/-- How a runner answers a statement that failed: try it again, give up, or wait for the broker. -/
inductive FailureKind where
  | transient
  | fatal
  | infrastructure
  deriving DecidableEq, Repr

def FailureKind.code : FailureKind → String
  | .transient => "TRANSIENT"
  | .fatal => "FATAL"
  | .infrastructure => "INFRASTRUCTURE"

def FailureKind.label : FailureKind → String
  | .transient => "Transient"
  | .fatal => "Fatal"
  | .infrastructure => "Infrastructure"

def FailureKind.all : List FailureKind :=
  [.transient, .fatal, .infrastructure]

structure Failure where
  kind : FailureKind
  message : String
  deriving DecidableEq, Repr

def Failure.text (f : Failure) : String :=
  f.kind.label ++ ": " ++ f.message

end StatementLog
