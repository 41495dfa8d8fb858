import StatementLog.Word

namespace StatementLog.CommandLine

structure Options where
  logFile : String
  config : Option String := none
  timeout : Option Nat := none
  topics : List String := []
  deriving DecidableEq, Repr

inductive Detour where
  | help
  | summary
  | version
  | usage
  deriving DecidableEq, Repr

inductive OptionName where
  | logFile
  | config
  | timeout
  | topics
  deriving DecidableEq, Repr

def OptionName.text : OptionName → String
  | .logFile => "log-file"
  | .config => "config"
  | .timeout => "timeout-ms"
  | .topics => "topics"

def OptionName.all : List OptionName :=
  [.logFile, .config, .timeout, .topics]

def OptionName.named? (s : String) : Option OptionName :=
  all.find? fun n => n.text == s

inductive Argument where
  | long (name : List Char) (value : Option (List Char))
  | short (flags : List Char)
  | escape
  | plain (text : List Char)
  deriving DecidableEq, Repr

def Argument.read : List Char → Argument
  | '-' :: '-' :: [] => escape
  | '-' :: '-' :: cs =>
    match cs.dropWhile (· ≠ '=') with
    | [] => long cs none
    | _ :: value => long (cs.takeWhile (· ≠ '=')) (some value)
  | '-' :: c :: cs => short (c :: cs)
  | cs => plain cs

def readMillis (cs : List Char) : Option Nat :=
  let digits := match cs with
    | '+' :: r => r
    | r => r
  if digits.isEmpty || !digits.all Char.isDigit then none
  else
    let n := digits.foldl (fun n c => 10 * n + (c.toNat - '0'.toNat)) 0
    if n ≤ Word.max then some n else none

def splitCommas (cs : List Char) : List String :=
  (cs.splitOn ',').map String.ofList

structure Draft where
  logFile : Option String := none
  config : Option String := none
  timeout : Option Nat := none
  topics : List String := []
  deriving DecidableEq, Repr

namespace Draft

def path (known : Option String) (value : List Char) : Except Detour (Option String) :=
  if known.isSome || value.isEmpty then .error .usage else .ok (some (String.ofList value))

def accept (d : Draft) (name : OptionName) (value : List Char) : Except Detour Draft := do
  match name with
  | .logFile => return { d with logFile := ← path d.logFile value }
  | .config => return { d with config := ← path d.config value }
  | .timeout =>
    match d.timeout, readMillis value with
    | none, some n => return { d with timeout := some n }
    | _, _ => throw .usage
  | .topics => return { d with topics := d.topics ++ splitCommas value }

def detour? (name : String) (value : Option (List Char)) : Option Detour :=
  match name, value with
  | "help", none => some .help
  | "version", none => some .version
  | _, _ => none

def read (d : Draft) : List String → Except Detour Draft
  | [] => .ok d
  | a :: rest =>
    match Argument.read a.toList with
    | .long name value =>
      let name := String.ofList name
      match detour? name value, OptionName.named? name, value, rest with
      | some detour, _, _, _ => .error detour
      | none, some option, some value, rest => do (← d.accept option value).read rest
      | none, some option, none, v :: rest =>
        match Argument.read v.toList with
        | .plain value => do (← d.accept option value).read rest
        | _ => .error .usage
      | _, _, _, _ => .error .usage
    | .short ('h' :: _) => .error .summary
    | .short ('V' :: _) => .error .version
    | .escape => if rest.isEmpty then .ok d else .error .usage
    | _ => .error .usage

end Draft

def Options.read (args : List String) : Except Detour Options := do
  let d ← Draft.read {} args
  match d.logFile with
  | none => throw .usage
  | some logFile => return ⟨logFile, d.config, d.timeout, d.topics⟩

end StatementLog.CommandLine
