import StatementLog.Json.Basic

namespace StatementLog.Json

def isBlank (c : Char) : Bool :=
  c == ' ' || c == '\t' || c == '\n' || c == '\r'

def skipBlanks (cs : List Char) : List Char :=
  cs.dropWhile isBlank

def hexDigit? (c : Char) : Option Nat :=
  if '0' ≤ c && c ≤ '9' then some (c.toNat - 48)
  else if 'a' ≤ c && c ≤ 'f' then some (c.toNat - 87)
  else if 'A' ≤ c && c ≤ 'F' then some (c.toNat - 55)
  else none

def hex4? (a b c d : Char) : Option Nat := do
  return (← hexDigit? a) * 4096 + (← hexDigit? b) * 256 + (← hexDigit? c) * 16 + (← hexDigit? d)

def shortEscape? : Char → Option Nat
  | '"' => some 34
  | '\\' => some 92
  | '/' => some 47
  | 'b' => some 8
  | 'f' => some 12
  | 'n' => some 10
  | 'r' => some 13
  | 't' => some 9
  | _ => none

def quote : Char := '"'

def escape : Char := '\\'

/-- The code points of a string up to its closing quote; halves of surrogate pairs stay apart. -/
def codes? : List Char → Option (List Nat × List Char)
  | [] => none
  | c :: r =>
    if c == quote then some ([], r)
    else if c == escape then
      match r with
      | 'u' :: a :: b :: c :: d :: r => do
        let n ← hex4? a b c d
        let (ns, rest) ← codes? r
        return (n :: ns, rest)
      | e :: r => do
        let n ← shortEscape? e
        let (ns, rest) ← codes? r
        return (n :: ns, rest)
      | [] => none
    else if c.toNat < 32 then none
    else do
      let (ns, rest) ← codes? r
      return (c.toNat :: ns, rest)

def isHigh (n : Nat) : Bool :=
  0xD800 ≤ n && n < 0xDC00

def isLow (n : Nat) : Bool :=
  0xDC00 ≤ n && n < 0xE000

def join? : List Nat → Option (List Char)
  | [] => some []
  | [n] => if isHigh n || isLow n then none else some [Char.ofNat n]
  | n :: m :: ns =>
    if isHigh n then
      if isLow m then
        (join? ns).map (Char.ofNat (0x10000 + (n - 0xD800) * 1024 + (m - 0xDC00)) :: ·)
      else none
    else if isLow n then none
    else (join? (m :: ns)).map (Char.ofNat n :: ·)

def string? (cs : List Char) : Option (Option String × List Char) :=
  (codes? cs).map fun (ns, rest) => ((join? ns).map String.ofList, rest)

def isDigit (c : Char) : Bool :=
  '0' ≤ c && c ≤ '9'

def digitsValue (ds : List Char) : Nat :=
  ds.foldl (fun n d => n * 10 + (d.toNat - 48)) 0

def digits? (cs : List Char) : Option (List Char × List Char) :=
  match cs.takeWhile isDigit with
  | [] => none
  | ds => some (ds, cs.dropWhile isDigit)

def whole? (cs : List Char) : Option (Nat × List Char) := do
  let (ds, rest) ← digits? cs
  if ds.head? == some '0' && ds.length != 1 then none
  return (digitsValue ds, rest)

def fraction? : List Char → Option (Bool × List Char)
  | '.' :: r => (digits? r).map fun (_, rest) => (true, rest)
  | cs => some (false, cs)

def dropSign : List Char → List Char
  | '+' :: r => r
  | '-' :: r => r
  | cs => cs

def exponent? : List Char → Option (Bool × List Char)
  | c :: r =>
    if c == 'e' || c == 'E' then (digits? (dropSign r)).map fun (_, rest) => (true, rest)
    else some (false, c :: r)
  | [] => some (false, [])

def numeral? (cs : List Char) : Option (Numeral × List Char) := do
  let (negative, r) := match cs with
    | '-' :: r => (true, r)
    | cs => (false, cs)
  let (whole, r) ← whole? r
  let (hasFraction, r) ← fraction? r
  let (hasExponent, r) ← exponent? r
  return (⟨negative, whole, !hasFraction && !hasExponent⟩, r)

mutual

def value? : Nat → List Char → Option (Json × List Char)
  | 0, _ => none
  | fuel + 1, cs =>
    match skipBlanks cs with
    | '{' :: r =>
      match skipBlanks r with
      | '}' :: r => some (.object [], r)
      | r => (members? fuel r).map fun (ms, rest) => (.object ms, rest)
    | '[' :: r =>
      match skipBlanks r with
      | ']' :: r => some (.array [], r)
      | r => (items? fuel r).map fun (js, rest) => (.array js, rest)
    | '"' :: r => (string? r).map fun (s, rest) => (.text s, rest)
    | 't' :: 'r' :: 'u' :: 'e' :: r => some (.bool true, r)
    | 'f' :: 'a' :: 'l' :: 's' :: 'e' :: r => some (.bool false, r)
    | 'n' :: 'u' :: 'l' :: 'l' :: r => some (.null, r)
    | r => (numeral? r).map fun (n, rest) => (.number n, rest)

def items? : Nat → List Char → Option (List Json × List Char)
  | 0, _ => none
  | fuel + 1, cs => do
    let (j, r) ← value? fuel cs
    match skipBlanks r with
    | ',' :: r =>
      let (js, rest) ← items? fuel r
      return (j :: js, rest)
    | ']' :: r => return ([j], r)
    | _ => none

def members? : Nat → List Char → Option (List (Option String × Json) × List Char)
  | 0, _ => none
  | fuel + 1, cs =>
    match skipBlanks cs with
    | '"' :: r => do
      let (key, r) ← string? r
      match skipBlanks r with
      | ':' :: r =>
        let (j, r) ← value? fuel r
        match skipBlanks r with
        | ',' :: r =>
          let (ms, rest) ← members? fuel r
          return ((key, j) :: ms, rest)
        | '}' :: r => return ([(key, j)], r)
        | _ => none
      | _ => none
    | _ => none

end

def readChars (cs : List Char) : Option Json := do
  let (j, rest) ← value? (cs.length + 1) cs
  if (skipBlanks rest).isEmpty then some j else none

def read (s : String) : Option Json :=
  readChars s.toList

end StatementLog.Json
