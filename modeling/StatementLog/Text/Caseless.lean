/-!
Keywords read without regard to case. Two letters have a third spelling under simple case folding:
the long s and the Kelvin sign.
-/

namespace StatementLog.Text

def longS : Char := '\u017F'

def kelvin : Char := '\u212A'

def spells (k c : Char) : Bool :=
  c.toUpper == k || (k == 'S' && c == longS) || (k == 'K' && c == kelvin)

def keyword? : List Char → List Char → Option (List Char)
  | [], cs => some cs
  | _ :: _, [] => none
  | k :: ks, c :: cs => if spells k c then keyword? ks cs else none

def upper (cs : List Char) : List Char :=
  cs.map Char.toUpper

def lower (cs : List Char) : List Char :=
  cs.map Char.toLower

end StatementLog.Text
