import StatementLog.Command.Record

/-!
A command log: records in one order, read by clients that each have a cursor of their own. The
medium is shared, a client belongs to one reader. Whoever waits for records remembers the epoch of
the medium and looks again when it has moved on.
-/

namespace StatementLog

class CommandLog (μ : Type) (κ : outParam Type) where
  check : μ → κ → Except Error Unit
  append : μ → κ → Record → Except Error Nat × μ
  /-- Wakes those who wait for records. -/
  announce : μ → κ → μ
  read : μ → κ → Except Error (List Command) × κ
  /-- One past the offset of the last record. -/
  endPosition : μ → κ → Except Error Nat × μ
  rewind : κ → κ
  position : κ → Nat
  close : κ → κ
  epoch : μ → κ → Nat
  /-- How long a waiting reader goes without a look of its own, if it takes one at all. -/
  patience : μ → κ → Option Nat

end StatementLog
