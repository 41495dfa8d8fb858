import StatementLog.Log.Basic
import StatementLog.Text.Blank
import StatementLog.Text.Utf8

namespace StatementLog

namespace Lines

def lineFeed : UInt8 := 10

def split : List UInt8 → List (List UInt8) × List UInt8
  | [] => ([], [])
  | b :: r =>
    let (ls, tail) := split r
    if b = lineFeed then ([] :: ls, tail)
    else match ls with
      | [] => ([], b :: tail)
      | l :: ls => ((b :: l) :: ls, tail)

def complete (octets : List UInt8) : List (List UInt8) :=
  (split octets).1

def tail (octets : List UInt8) : List UInt8 :=
  (split octets).2

def completeLength (octets : List UInt8) : Nat :=
  octets.length - (tail octets).length

/-- A line counts as a record when it holds anything but ASCII blanks. -/
def isRecord (line : List UInt8) : Bool :=
  line.any fun b => !Text.isBlankOctet b

def countRecords (lines : List (List UInt8)) : Nat :=
  lines.countP isRecord

/-- Reads lines in order from the given offset, and tells the offset it came to. Lines of blanks
are passed over; the first line that is no record ends the reading. -/
def readFrom (offset : Nat) : List (List UInt8) → Except Error (List Command) × Nat
  | [] => (.ok [], offset)
  | line :: lines =>
    match Text.Utf8.decode line with
    | .error fault => (.error (.serialization (.notUtf8 offset fault)), offset)
    | .ok cs =>
      if Text.isBlankText cs then readFrom offset lines
      else match Record.decode cs offset with
        | .error e => (.error e, offset)
        | .ok command =>
          let (rest, reached) := readFrom (offset + 1) lines
          (rest.map (command :: ·), reached)

def takeLines : Nat → List UInt8 → List UInt8
  | 0, _ => []
  | _ + 1, [] => []
  | n + 1, b :: r => b :: takeLines (if b = lineFeed then n else n + 1) r

def cut (lines extra : Nat) (octets : List UInt8) : List UInt8 :=
  octets.take ((takeLines lines octets).length + extra)

end Lines

structure Extent where
  octets : Nat := 0
  records : Nat := 0
  deriving DecidableEq, Repr

namespace Extent

/-- Where a scan may start: a file shorter than the known extent holds something else by now. -/
def start (known : Extent) (content : List UInt8) : Extent :=
  if content.length < known.octets then {} else known

/-- The extent of a file, from one known before, and the number of torn octets behind it. -/
def scan (known : Extent) (content : List UInt8) : Extent × Nat :=
  let s := known.start content
  let rest := content.drop s.octets
  ({ octets := s.octets + Lines.completeLength rest
     records := s.records + Lines.countRecords (Lines.complete rest) },
    (Lines.tail rest).length)

end Extent

end StatementLog
