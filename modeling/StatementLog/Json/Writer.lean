import StatementLog.Json.Reader

namespace StatementLog.Json

def hexChar (n : Nat) : Char :=
  if n < 10 then Char.ofNat (48 + n) else Char.ofNat (87 + n)

def escapeChar (c : Char) : List Char :=
  if c == quote then [escape, quote]
  else if c == escape then [escape, escape]
  else if c.toNat == 8 then [escape, 'b']
  else if c.toNat == 9 then [escape, 't']
  else if c.toNat == 10 then [escape, 'n']
  else if c.toNat == 12 then [escape, 'f']
  else if c.toNat == 13 then [escape, 'r']
  else if c.toNat < 32 then
    [escape, 'u', '0', '0', hexChar (c.toNat / 16), hexChar (c.toNat % 16)]
  else [c]

def writeText (cs : List Char) : List Char :=
  quote :: cs.flatMap escapeChar ++ [quote]

def writeNumeral (n : Numeral) : List Char :=
  (if n.negative then ['-'] else []) ++ Nat.toDigits 10 n.whole

mutual

def write : Json → List Char
  | .null => ['n', 'u', 'l', 'l']
  | .bool true => ['t', 'r', 'u', 'e']
  | .bool false => ['f', 'a', 'l', 's', 'e']
  | .number n => writeNumeral n
  | .text s => writeText (s.getD "").toList
  | .array items => '[' :: writeItems items ++ [']']
  | .object members => '{' :: writeMembers members ++ ['}']

def writeItems : List Json → List Char
  | [] => []
  | [j] => write j
  | j :: js => write j ++ ',' :: writeItems js

def writeMembers : List (Option String × Json) → List Char
  | [] => []
  | [(key, j)] => writeText (key.getD "").toList ++ ':' :: write j
  | (key, j) :: ms => writeText (key.getD "").toList ++ ':' :: write j ++ ',' :: writeMembers ms

end

def render (j : Json) : String :=
  String.ofList (write j)

end StatementLog.Json
