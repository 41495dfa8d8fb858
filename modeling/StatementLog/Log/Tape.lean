import StatementLog.Log.Basic

namespace StatementLog

structure Tape where
  lines : List (List Char) := []
  available : Bool := true
  epoch : Nat := 0
  deriving DecidableEq, Repr

structure TapeClient where
  cursor : Nat := 0
  closed : Bool := false
  deriving DecidableEq, Repr

namespace Tape

def check (t : Tape) (c : TapeClient) : Except Error Unit :=
  if c.closed then .error (.logUnavailable .clientClosed)
  else if !t.available then .error (.logUnavailable .unreachable)
  else .ok ()

def append (t : Tape) (c : TapeClient) (r : Record) : Except Error Nat × Tape :=
  match t.check c with
  | .error e => (.error e, t)
  | .ok () => (.ok t.lines.length, { t with lines := t.lines ++ [r.line] })

def announce (t : Tape) : Tape :=
  { t with epoch := t.epoch + 1 }

def decodeFrom (offset : Nat) : List (List Char) → Except Error (List Command)
  | [] => .ok []
  | l :: ls => do return (← Record.decode l offset) :: (← decodeFrom (offset + 1) ls)

def read (t : Tape) (c : TapeClient) : Except Error (List Command) × TapeClient :=
  match decodeFrom c.cursor (t.lines.drop c.cursor) with
  | .error e => (.error e, c)
  | .ok batch => (.ok batch, { c with cursor := c.cursor + batch.length })

def endPosition (t : Tape) (c : TapeClient) : Except Error Nat :=
  match t.check c with
  | .error e => .error e
  | .ok () => .ok t.lines.length

/-- Those who wait notice that the tape comes back, not that it goes away. -/
def setAvailable (t : Tape) (available : Bool) : Tape :=
  if available then { t with available }.announce else { t with available }

instance : CommandLog Tape TapeClient where
  check := check
  append := append
  announce t _ := t.announce
  read := read
  endPosition t c := (t.endPosition c, t)
  rewind c := { c with cursor := 0 }
  position c := c.cursor
  close c := { c with closed := true }
  epoch t _ := t.epoch
  patience _ _ := none

end Tape

end StatementLog
