import StatementLog.Failure
import StatementLog.Word

namespace StatementLog

structure Backoff where
  initial : Nat
  max : Nat
  deriving DecidableEq, Repr

/-- The pause after the given failure in a row; the first one is numbered 1. -/
def Backoff.delay (b : Backoff) (attempt : Nat) : Nat :=
  let base := Nat.max b.initial 1
  min (Word.mul base (Word.twoPow (attempt - 1))) (Nat.max b.max base)

inductive RetryDecision where
  | retryAfter (delay : Nat)
  | pauseAfter (delay : Nat)
  | terminal
  deriving DecidableEq, Repr

structure RetryPolicy where
  maxRetries : Nat := 10
  transient : Backoff := ⟨100, 5000⟩
  infrastructure : Backoff := ⟨500, 30000⟩
  deriving DecidableEq, Repr

namespace RetryPolicy

def decide (p : RetryPolicy) (kind : FailureKind) (attempt : Nat) : RetryDecision :=
  match kind with
  | .fatal => .terminal
  | .transient =>
    if attempt > p.maxRetries then .terminal else .retryAfter (p.transient.delay attempt)
  | .infrastructure => .pauseAfter (p.infrastructure.delay attempt)

def totalBackoff (p : RetryPolicy) : Nat :=
  (List.range p.maxRetries).foldl (fun sum i => Word.add sum (p.transient.delay (i + 1))) 0

end RetryPolicy

end StatementLog
