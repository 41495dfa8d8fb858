import StatementLog.Config.Basic
import StatementLog.Json.Reader

namespace StatementLog

def Backoff.ofJson? (j : Json) : Option Backoff := do
  match ← Json.fields? ["initial_ms", "max_ms"] j with
  | [initial, max] =>
    return ⟨← Json.required (Json.asNat? Word.max) initial,
      ← Json.required (Json.asNat? Word.max) max⟩
  | _ => none

namespace Config

def fieldNames : List String :=
  ["service_id", "command_topic_suffix", "max_statement_retries", "retry",
   "infrastructure_backoff", "poll_timeout_ms", "distributed_command_response_timeout_ms",
   "status_cache_capacity", "processing_log_auto_create", "processing_log_stream_name",
   "properties"]

def ofJson? (j : Json) : Option Config := do
  let d : Config := {}
  let word := Json.asNat? Word.max
  match ← Json.fields? fieldNames j with
  | [serviceId, topicSuffix, maxRetries, retry, infrastructure, pollTimeout, responseTimeout,
      statusCapacity, processingLog, processingLogName, properties] =>
    return {
      serviceId := ← Json.orDefault d.serviceId Json.asText? serviceId
      topicSuffix := ← Json.orDefault d.topicSuffix Json.asText? topicSuffix
      maxRetries := ← Json.orDefault d.maxRetries (Json.asNat? Json.maxHalfWord) maxRetries
      retry := ← Json.orDefault d.retry Backoff.ofJson? retry
      infrastructure := ← Json.orDefault d.infrastructure Backoff.ofJson? infrastructure
      pollTimeout := ← Json.orDefault d.pollTimeout word pollTimeout
      responseTimeout := ← Json.orDefault d.responseTimeout word responseTimeout
      statusCapacity := ← Json.orDefault d.statusCapacity word statusCapacity
      processingLog := ← Json.orDefault d.processingLog Json.asBool? processingLog
      processingLogName := ← Json.orDefault d.processingLogName Json.asText? processingLogName
      properties := ← Json.orDefault d.properties Json.asProperties? properties }
  | _ => none

def read? (s : List Char) : Option Config :=
  (Json.readChars s).bind ofJson?

def ofFile (path : String) (content : Option (List UInt8)) : Except ConfigFault Config := do
  match content.map Text.Utf8.decode with
  | none => throw (.unreadable path)
  | some (.error _) => throw (.unreadable path)
  | some (.ok text) =>
    match read? text with
    | none => throw (.malformed path)
    | some config =>
      config.validate
      return config

end Config

end StatementLog
