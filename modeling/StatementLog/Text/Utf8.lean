namespace StatementLog.Text.Utf8

def encodeChar (c : Char) : List UInt8 :=
  let n := c.toNat
  if n < 0x80 then [n.toUInt8]
  else if n < 0x800 then [(0xC0 + n / 64).toUInt8, (0x80 + n % 64).toUInt8]
  else if n < 0x10000 then
    [(0xE0 + n / 4096).toUInt8, (0x80 + n / 64 % 64).toUInt8, (0x80 + n % 64).toUInt8]
  else
    [(0xF0 + n / 262144).toUInt8, (0x80 + n / 4096 % 64).toUInt8, (0x80 + n / 64 % 64).toUInt8,
      (0x80 + n % 64).toUInt8]

def encode (cs : List Char) : List UInt8 :=
  cs.flatMap encodeChar

inductive Fault where
  | invalid (length index : Nat)
  | incomplete (index : Nat)
  deriving DecidableEq, Repr

def Fault.message : Fault → String
  | .invalid length index => s!"invalid utf-8 sequence of {length} bytes from index {index}"
  | .incomplete index => s!"incomplete utf-8 byte sequence from index {index}"

def width? (a : UInt8) : Option Nat :=
  if a ≤ 0x7F then some 1
  else if 0xC2 ≤ a && a ≤ 0xDF then some 2
  else if 0xE0 ≤ a && a ≤ 0xEF then some 3
  else if 0xF0 ≤ a && a ≤ 0xF4 then some 4
  else none

def isTail (b : UInt8) : Bool :=
  0x80 ≤ b && b ≤ 0xBF

def maySecond (a b : UInt8) : Bool :=
  if a == 0xE0 then 0xA0 ≤ b && b ≤ 0xBF
  else if a == 0xED then 0x80 ≤ b && b ≤ 0x9F
  else if a == 0xF0 then 0x90 ≤ b && b ≤ 0xBF
  else if a == 0xF4 then 0x80 ≤ b && b ≤ 0x8F
  else isTail b

def low (b : UInt8) : Nat :=
  b.toNat % 64

def char2 (a b : UInt8) : Char :=
  Char.ofNat (a.toNat % 32 * 64 + low b)

def char3 (a b c : UInt8) : Char :=
  Char.ofNat (a.toNat % 16 * 4096 + low b * 64 + low c)

def char4 (a b c d : UInt8) : Char :=
  Char.ofNat (a.toNat % 8 * 262144 + low b * 4096 + low c * 64 + low d)

def decodeFrom (i : Nat) : List UInt8 → Except Fault (List Char)
  | [] => .ok []
  | a :: r =>
    match width? a, r with
    | some 1, r => (decodeFrom (i + 1) r).map (Char.ofNat a.toNat :: ·)
    | none, _ => .error (.invalid 1 i)
    | _, [] => .error (.incomplete i)
    | some w, b :: r =>
      if !maySecond a b then .error (.invalid 1 i)
      else if w == 2 then (decodeFrom (i + 2) r).map (char2 a b :: ·)
      else match r with
        | [] => .error (.incomplete i)
        | c :: r =>
          if !isTail c then .error (.invalid 2 i)
          else if w == 3 then (decodeFrom (i + 3) r).map (char3 a b c :: ·)
          else match r with
            | [] => .error (.incomplete i)
            | d :: r =>
              if !isTail d then .error (.invalid 3 i)
              else (decodeFrom (i + 4) r).map (char4 a b c d :: ·)

def decode (octets : List UInt8) : Except Fault (List Char) :=
  decodeFrom 0 octets

end StatementLog.Text.Utf8
