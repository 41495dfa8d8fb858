import Std.Data.ExtTreeMap

namespace StatementLog

/-- The names on the way from a file or a directory up to the root. -/
abbrev Place := List String

inductive PathFault where
  | missing
  | blocked
  | nul
  deriving DecidableEq, Repr

namespace Path

def pieces (path : String) : List String :=
  (path.toList.splitOn '/').map String.ofList

def isStep (name : String) : Bool :=
  name != "" && name != "."

def above (path : String) : List String :=
  ((pieces path).filter isStep).dropLast

def hasNul (path : String) : Bool :=
  path.toList.contains '\x00'

def maxName : Nat := 255

def maxPath : Nat := 4095

def isTooLong (name : String) : Bool :=
  name.utf8ByteSize > maxName

def parent? (path : String) : Option String :=
  match above path with
  | [] => none
  | names => some ((if path.startsWith "/" then "/" else "") ++ String.intercalate "/" names)

def origin (path : String) : Place :=
  if path.startsWith "/" then [] else ["."]

end Path

inductive Entry where
  | file (content : List UInt8)
  | directory
  deriving DecidableEq, Repr

abbrev Entries := Std.ExtTreeMap Place Entry compare

namespace Entries

def bare : Entries :=
  (∅ : Entries).insertMany [([], .directory), (["."], .directory)]

def enter (e : Entries) (place : Place) (name : String) : Except PathFault Place :=
  if !Path.isStep name then .ok place
  else if name = ".." then .ok place.tail
  else if Path.isTooLong name then .error .blocked
  else match e[name :: place]? with
    | none => .error .missing
    | some (.file _) => .error .blocked
    | some .directory => .ok (name :: place)

def follow (e : Entries) : Place → List String → Except PathFault Place
  | place, [] => .ok place
  | place, [name] =>
    if !Path.isStep name || name = ".." then e.enter place name
    else if Path.isTooLong name then .error .blocked
    else .ok (name :: place)
  | place, name :: names => do e.follow (← e.enter place name) names

def resolve (e : Entries) (path : String) : Except PathFault Place :=
  if Path.hasNul path then .error .nul
  else if path.utf8ByteSize > Path.maxPath then .error .blocked
  else e.follow (Path.origin path) (Path.pieces path)

def content? (e : Entries) (place : Place) : Except PathFault (Option (List UInt8)) :=
  match e[place]? with
  | some (.file content) => .ok (some content)
  | some .directory => .error .blocked
  | none => .ok none

def openFile (e : Entries) (place : Place) : Except PathFault (List UInt8 × Entries) := do
  match ← e.content? place with
  | some content => return (content, e)
  | none => return ([], e.insert place (.file []))

def openPath (e : Entries) (path : String) :
    Except PathFault (Place × List UInt8 × Entries) := do
  let place ← e.resolve path
  return (place, ← e.openFile place)

def makeDirectories (e : Entries) : Place → List String → Except PathFault Unit × Entries
  | _, [] => (.ok (), e)
  | place, ".." :: names => e.makeDirectories place.tail names
  | place, name :: names =>
    match e.enter place name with
    | .ok place => e.makeDirectories place names
    | .error .missing =>
      makeDirectories (e.insert (name :: place) .directory) (name :: place) names
    | .error fault => (.error fault, e)

def makeParents (e : Entries) (path : String) : Except PathFault Unit × Entries :=
  if (Path.above path).any Path.hasNul then (.error .nul, e)
  else e.makeDirectories (Path.origin path) (Path.above path)

end Entries

end StatementLog
