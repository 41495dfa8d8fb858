namespace StatementLog.Word

def max : Nat := 0xFFFFFFFFFFFFFFFF

def add (a b : Nat) : Nat :=
  min (a + b) max

def mul (a b : Nat) : Nat :=
  min (a * b) max

def twoPow (n : Nat) : Nat :=
  if n < 64 then Nat.pow 2 n else max

end StatementLog.Word
