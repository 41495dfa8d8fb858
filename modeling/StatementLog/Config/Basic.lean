import StatementLog.Error
import StatementLog.Command.Basic
import StatementLog.RetryPolicy
import StatementLog.Text.Blank

namespace StatementLog

structure Config where
  serviceId : String := "default_"
  topicSuffix : String := "command_topic"
  maxRetries : Nat := 10
  retry : Backoff := ⟨100, 5000⟩
  infrastructure : Backoff := ⟨500, 30000⟩
  pollTimeout : Nat := 100
  responseTimeout : Nat := 5000
  statusCapacity : Nat := 1024
  processingLog : Bool := false
  processingLogName : String := "KSQL_PROCESSING_LOG"
  properties : Properties := ∅
  deriving DecidableEq

namespace Config

def isBlank (s : String) : Bool :=
  Text.isBlankText s.toList

def checkBackoff (field : String) (b : Backoff) : Except ConfigFault Unit :=
  if b.initial = 0 || b.max < b.initial then .error (.backoffBounds field b.initial b.max)
  else .ok ()

def validate (c : Config) : Except ConfigFault Unit := do
  if isBlank c.serviceId then throw .emptyServiceId
  if isBlank c.topicSuffix then throw .emptyTopicSuffix
  checkBackoff "retry" c.retry
  checkBackoff "infrastructure_backoff" c.infrastructure
  if c.pollTimeout = 0 then throw .zeroPollTimeout
  if c.responseTimeout = 0 then throw .zeroResponseTimeout
  if c.processingLog && isBlank c.processingLogName then throw .emptyProcessingLogName

def commandTopic (c : Config) : String :=
  "_confluent-ksql-" ++ c.serviceId ++ "_" ++ c.topicSuffix

def processingLogTopic (c : Config) : String :=
  c.serviceId ++ "ksql_processing_log"

def processingLogStatement (c : Config) : String :=
  "CREATE STREAM " ++ c.processingLogName ++
    " (LOGGER VARCHAR, LEVEL VARCHAR, TIME BIGINT, MESSAGE VARCHAR) WITH (KAFKA_TOPIC='" ++
    c.processingLogTopic ++ "', VALUE_FORMAT='JSON');"

def retryPolicy (c : Config) : RetryPolicy :=
  ⟨c.maxRetries, c.retry, c.infrastructure⟩

def ownTopics (c : Config) : List String :=
  c.commandTopic :: if c.processingLog then [c.processingLogTopic] else []

def ofMicros (n : Nat) : Nat :=
  n / 1000

def withRetry (c : Config) (initial max : Nat) : Config :=
  { c with retry := ⟨ofMicros initial, ofMicros max⟩ }

def withInfrastructure (c : Config) (initial max : Nat) : Config :=
  { c with infrastructure := ⟨ofMicros initial, ofMicros max⟩ }

def withPollTimeout (c : Config) (timeout : Nat) : Config :=
  { c with pollTimeout := ofMicros timeout }

def withResponseTimeout (c : Config) (timeout : Nat) : Config :=
  { c with responseTimeout := ofMicros timeout }

def withProperty (c : Config) (key value : String) : Config :=
  { c with properties := c.properties.insert key value }

end Config

end StatementLog
