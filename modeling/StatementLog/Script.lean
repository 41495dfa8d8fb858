import StatementLog.Executor

namespace StatementLog

structure Script where
  failures : List (String × List Failure) := []
  finish : List Failure := []
  shutdown : List String := []
  deriving DecidableEq, Repr

namespace Script

def failures? (s : Script) (statement : String) : List Failure :=
  (s.failures.lookup statement).getD []

def withFailures (s : Script) (statement : String) (fs : List Failure) : Script :=
  { s with failures := s.failures.map fun e => if e.1 == statement then (statement, fs) else e }

def effect (s : Script) (c : Command) : Effect where
  message := s!"done {c.offset}"
  shutdown := s.shutdown.contains c.payload.statement || c.id.isClusterTerminate

instance : Executor Script where
  apply s broker c _ :=
    match s.failures? c.payload.statement with
    | f :: fs => (.error f, s.withFailures c.payload.statement fs, broker)
    | [] => (.ok (s.effect c), s, broker)
  finishReplay s :=
    match s.finish with
    | f :: fs => (.error f, { s with finish := fs })
    | [] => (.ok (), s)

end Script

end StatementLog
