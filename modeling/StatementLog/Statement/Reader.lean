import StatementLog.Statement.Basic
import StatementLog.Statement.Sources

/-!
Statements read from their text, as far as routing needs it. The forms are tried in a fixed order;
the termination of the cluster comes before that of a query, which could be named `CLUSTER`.
-/

namespace StatementLog.Statement

open StatementLog.Text

def kind? (cs : List Char) : Option (SourceKind × List Char) :=
  match word? "STREAM" cs with
  | some r => some (.stream, r)
  | none => (word? "TABLE" cs).map fun r => (.table, r)

def ifNotExists? (cs : List Char) : Option (List Char) := do
  word? "EXISTS" (← word? "NOT" (← word? "IF" cs))

def ifExists? (cs : List Char) : Option (List Char) := do
  word? "EXISTS" (← word? "IF" cs)

def optional (clause : List Char → Option (List Char)) (cs : List Char) : Bool × List Char :=
  match clause cs with
  | some r => (true, r)
  | none => (false, cs)

def withClause? (cs : List Char) : Option (List Char) := do
  let r ← keyword? "WITH".toList (← blanks? cs)
  let (_, rest) ← parenthesised? (skipBlanks r)
  return rest

structure Head where
  kind : SourceKind
  ifNotExists : Bool
  name : String
  deriving DecidableEq, Repr

def createAsSelect? (cs : List Char) : Option (Head × List Char) := do
  let (kind, r) ← kind? (← word? "CREATE" cs)
  let (ifNotExists, r) := optional ifNotExists? r
  let (name, r) ← identifier? r
  let (_, r) := optional withClause? r
  let body ← word? "SELECT" (← word? "AS" (← blanks? r))
  if body.isEmpty then none
  return (⟨kind, ifNotExists, name.name⟩, body)

/-- `IF NOT EXISTS` without a name after it leaves `IF` as the name. -/
def createSource? (cs : List Char) : Option (Head × List Char) := do
  let (kind, r) ← kind? (← word? "CREATE" cs)
  match (ifNotExists? r).bind identifier? with
  | some (name, rest) => return (⟨kind, true, name.name⟩, rest)
  | none =>
    let (name, rest) ← identifier? r
    return (⟨kind, false, name.name⟩, rest)

def topicAt? (cs : List Char) : Option String := do
  let r ← keyword? "KAFKA_TOPIC".toList cs
  let r ← char? '=' (skipBlanks r)
  let r ← char? singleQuote (skipBlanks r)
  let (topic, _) ← upTo? singleQuote r
  return String.ofList topic

/-- The first `KAFKA_TOPIC = '…'` of a text. -/
def topic? : List Char → Option String
  | [] => none
  | c :: r => topicAt? (c :: r) <|> topic? r

def insertInto? (cs : List Char) : Option (String × List Char) := do
  let (target, r) ← identifier? (← word? "INTO" (← word? "INSERT" cs))
  let body ← word? "SELECT" (← blanks? r)
  if body.isEmpty then none
  return (target.name, body)

def deleteTopic? (cs : List Char) : Option (List Char) := do
  keyword? "TOPIC".toList (← word? "DELETE" (← blanks? cs))

def dropSource? (cs : List Char) : Option Statement := do
  let (kind, r) ← kind? (← word? "DROP" cs)
  let (ifExists, r) := optional ifExists? r
  let (name, r) ← identifier? r
  let (deleteTopic, r) := optional deleteTopic? r
  if atEnd r then return .dropSource kind name.name ifExists deleteTopic else none

def deleteTopics? (cs : List Char) : Option (List Char × List Char) := do
  let r ← keyword? "TOPICS".toList (← word? "DELETE" (← blanks? cs))
  parenthesised? (skipBlanks r)

def cutAt (x : Char) : List Char → List (List Char)
  | [] => [[]]
  | c :: r =>
    if c == x then [] :: cutAt x r
    else match cutAt x r with
      | [] => [[c]]
      | part :: parts => (c :: part) :: parts

def unquote (cs : List Char) : List Char :=
  let rest := cs.dropWhile (· == singleQuote)
  (rest.reverse.dropWhile (· == singleQuote)).reverse

def topicList (cs : List Char) : List String :=
  (((cutAt ',' cs).map fun t => unquote (trim t)).filter fun t => !t.isEmpty).map String.ofList

def terminateCluster? (cs : List Char) : Option Statement := do
  let r ← keyword? "CLUSTER".toList (← word? "TERMINATE" cs)
  match deleteTopics? r with
  | some (list, rest) => if atEnd rest then return .terminateCluster (topicList list) else none
  | none => if atEnd r then return .terminateCluster [] else none

def queryName? (cs : List Char) : Option String := do
  let (query, r) ← identifier? cs
  if atEnd r then return query.name else none

def terminateQuery? (cs : List Char) : Option Statement := do
  let r ← word? "TERMINATE" cs
  let name ← (word? "QUERY" r).bind queryName? <|> queryName? r
  return .terminateQuery name

def readTrimmed (cs : List Char) : Except ParseFault Statement :=
  if cs.isEmpty then .error .emptyStatement
  else if let some (head, body) := createAsSelect? cs then
    match sources body with
    | [] => .error (.noFromClause (String.ofList cs))
    | s :: ss => .ok (.createAsSelect head.kind head.name (s :: ss) head.ifNotExists)
  else if let some (head, rest) := createSource? cs then
    .ok (.createSource head.kind head.name (topic? rest) head.ifNotExists)
  else if let some (target, body) := insertInto? cs then
    match sources body with
    | [] => .error (.noFromClause (String.ofList cs))
    | s :: ss => .ok (.insertInto target (s :: ss))
  else if let some statement := dropSource? cs then .ok statement
  else if let some statement := terminateCluster? cs then .ok statement
  else if let some statement := terminateQuery? cs then .ok statement
  else .error (.notDistributed (String.ofList cs))

def read (text : String) : Except ParseFault Statement :=
  readTrimmed (trim text.toList)

def readId (text : String) : Except ParseFault CommandId :=
  (read text).map Statement.id

end StatementLog.Statement
