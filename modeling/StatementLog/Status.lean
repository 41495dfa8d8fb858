namespace StatementLog

inductive StatusKind where
  | queued
  | executing
  | success
  | error
  deriving DecidableEq, Repr

namespace StatusKind

def name : StatusKind → String
  | .queued => "QUEUED"
  | .executing => "EXECUTING"
  | .success => "SUCCESS"
  | .error => "ERROR"

def all : List StatusKind :=
  [.queued, .executing, .success, .error]

def named? (s : String) : Option StatusKind :=
  all.find? fun k => k.name == s

def isTerminal : StatusKind → Bool
  | .success | .error => true
  | .queued | .executing => false

def progress : StatusKind → Nat
  | .queued => 0
  | .executing => 1
  | .success | .error => 2

end StatusKind

structure Status where
  kind : StatusKind
  message : String
  deriving DecidableEq, Repr

namespace Status

def queued : Status :=
  ⟨.queued, "Statement written to command log"⟩

def executing : Status :=
  ⟨.executing, "Executing statement"⟩

def success (message : String) : Status :=
  ⟨.success, message⟩

def error (message : String) : Status :=
  ⟨.error, message⟩

def ofKind (kind : StatusKind) (message : String) : Status :=
  match kind with
  | .queued => queued
  | .executing => executing
  | .success => success message
  | .error => error message

def isTerminal (s : Status) : Bool :=
  s.kind.isTerminal

end Status

end StatementLog
