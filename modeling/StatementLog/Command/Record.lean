import StatementLog.Error
import StatementLog.Json.Writer

namespace StatementLog

namespace Payload

def toJson (p : Payload) : Json :=
  .object [
    (some "statementText", .text (some p.statement)),
    (some "configOverrides", Json.ofProperties p.overrides),
    (some "originalProperties", Json.ofProperties p.properties)]

def ofJson? (j : Json) : Option Payload := do
  match ← Json.fields? ["statementText", "configOverrides", "originalProperties"] j with
  | [statement, overrides, properties] =>
    return {
      statement := ← Json.required Json.asText? statement
      overrides := ← Json.orDefault ∅ Json.asProperties? overrides
      properties := ← Json.orDefault ∅ Json.asProperties? properties }
  | _ => none

def read (s : String) : Option Payload :=
  (Json.read s).bind ofJson?

end Payload

structure Record where
  id : CommandId
  payload : Payload
  stamp : Int
  deriving DecidableEq

namespace Record

def toJson (r : Record) : Json :=
  .object [
    (some "key", .text (some r.id.text)),
    (some "value", r.payload.toJson),
    (some "ts_unix_ms", .number (.ofInt r.stamp))]

def idOfJson? (j : Json) : Option CommandId := do
  (CommandId.read (← j.asText?)).toOption

def ofJson? (j : Json) : Option Record := do
  match ← Json.fields? ["key", "value", "ts_unix_ms"] j with
  | [id, payload, stamp] =>
    return {
      id := ← Json.required idOfJson? id
      payload := ← Json.required Payload.ofJson? payload
      stamp := ← Json.required Json.asInt64? stamp }
  | _ => none

def line (r : Record) : List Char :=
  r.toJson.write

def ofLine? (cs : List Char) : Option Record :=
  (Json.readChars cs).bind ofJson?

def command (r : Record) (offset : Nat) : Command :=
  ⟨r.id, r.payload, offset⟩

def decode (cs : List Char) (offset : Nat) : Except Error Command :=
  match ofLine? cs with
  | some r => .ok (r.command offset)
  | none => .error (.serialization (.malformed offset))

end Record

end StatementLog
