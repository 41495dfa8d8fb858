import StatementLog.Command.Id
import StatementLog.Failure
import StatementLog.Text.Utf8

namespace StatementLog

inductive LogFault where
  | clientClosed
  | handleClosed (path : String)
  | unreachable
  | storage
  | nulInPath
  deriving DecidableEq, Repr

def LogFault.message : LogFault → String
  | .clientClosed => "command log client is closed"
  | .handleClosed path => s!"command log client for {path} is closed"
  | .unreachable => "command log partition is not reachable"
  | .storage => "storage failure"
  | .nulInPath => "file name contained an unexpected NUL byte"

inductive RecordFault where
  | malformed (offset : Nat)
  | notUtf8 (offset : Nat) (fault : Text.Utf8.Fault)
  deriving DecidableEq, Repr

def RecordFault.message : RecordFault → String
  | .malformed offset => s!"parse command record at offset {offset}"
  | .notUtf8 offset fault => s!"command record at offset {offset} is not UTF-8: " ++ fault.message

inductive ConfigFault where
  | unreadable (path : String)
  | malformed (path : String)
  | emptyServiceId
  | emptyTopicSuffix
  | backoffBounds (field : String) (initial max : Nat)
  | zeroPollTimeout
  | zeroResponseTimeout
  | emptyProcessingLogName
  | noLog
  | noExecutor
  deriving DecidableEq, Repr

def ConfigFault.message : ConfigFault → String
  | .unreadable path => s!"read {path}"
  | .malformed path => s!"parse {path}"
  | .emptyServiceId => "service_id must not be empty"
  | .emptyTopicSuffix => "command_topic_suffix must not be empty"
  | .backoffBounds field initial max =>
    s!"{field} backoff needs 0 < initial_ms <= max_ms (got {initial} / {max})"
  | .zeroPollTimeout => "poll_timeout_ms must be positive"
  | .zeroResponseTimeout => "distributed_command_response_timeout_ms must be positive"
  | .emptyProcessingLogName => "processing_log_stream_name must be set when auto-create is on"
  | .noLog => "no command log"
  | .noExecutor => "no statement executor"

inductive StopFault where
  | notAccepting
  | beforeStatus (id : CommandId) (offset : Nat)
  deriving DecidableEq, Repr

def StopFault.message : StopFault → String
  | .notAccepting => "command runner has stopped; not accepting commands"
  | .beforeStatus id offset =>
    "stopped before reporting a status for '" ++ id.text ++ s!"' at offset {offset}"

inductive Error where
  | parse (fault : ParseFault)
  | logUnavailable (fault : LogFault)
  | applyFailed (failure : Failure)
  | statusTimeout (id : CommandId) (offset : Nat)
  | notReady
  | runnerStopped (fault : StopFault)
  | serialization (fault : RecordFault)
  | config (fault : ConfigFault)
  deriving DecidableEq, Repr

namespace Error

def message : Error → String
  | .parse fault => "Parse error: " ++ fault.message
  | .logUnavailable fault => "Command log unavailable: " ++ fault.message
  | .applyFailed ⟨.transient, m⟩ => "Transient apply failure: " ++ m
  | .applyFailed ⟨.fatal, m⟩ => "Fatal apply failure: " ++ m
  | .applyFailed ⟨.infrastructure, m⟩ => "Infrastructure failure: " ++ m
  | .statusTimeout id offset =>
    "Timed out waiting for command '" ++ id.text ++
      s!"' at offset {offset}; it may still be applied"
  | .notReady => "Not ready: command runner has not finished replaying the command log"
  | .runnerStopped fault => "Command runner stopped: " ++ fault.message
  | .serialization fault => "Serialization error: " ++ fault.message
  | .config fault => "Configuration error: " ++ fault.message

end Error

end StatementLog
