import Std.Data.ExtTreeSet
import StatementLog.Failure

namespace StatementLog

abbrev Topics := Std.ExtTreeSet String compare

structure Broker where
  topics : Topics := ∅
  undeletable : Topics := ∅
  available : Bool := true
  deriving DecidableEq

structure CleanupReport where
  deleted : List String
  failed : List (String × String)
  deriving DecidableEq, Repr

def CleanupReport.isClean (r : CleanupReport) : Bool :=
  r.failed.isEmpty

namespace Broker

def ofTopics (topics : List String) : Broker :=
  { topics := Std.ExtTreeSet.ofList topics compare }

def addTopic (b : Broker) (topic : String) : Broker :=
  { b with topics := b.topics.insert topic }

def denyDelete (b : Broker) (topic : String) : Broker :=
  { b with undeletable := b.undeletable.insert topic }

def unreachable : Failure :=
  ⟨.infrastructure, "Kafka cluster is not reachable"⟩

def notAuthorized (topic : String) : Failure :=
  ⟨.fatal, s!"Not authorized to delete topic '{topic}'"⟩

def topicExists (b : Broker) (topic : String) : Except Failure Bool :=
  if b.available then .ok (b.topics.contains topic) else .error unreachable

def createTopic (b : Broker) (topic : String) : Except Failure Broker :=
  if b.available then .ok (b.addTopic topic) else .error unreachable

def deleteTopic (b : Broker) (topic : String) : Except Failure Broker :=
  if !b.available then .error unreachable
  else if b.undeletable.contains topic then .error (notAuthorized topic)
  else .ok { b with topics := b.topics.erase topic }

def deleteIfPresent (b : Broker) (topic : String) : Except Failure (Bool × Broker) := do
  if ← b.topicExists topic then return (true, ← b.deleteTopic topic) else return (false, b)

def release (b : Broker) : List String → CleanupReport × Broker
  | [] => (⟨[], []⟩, b)
  | topic :: topics =>
    match b.deleteIfPresent topic with
    | .ok (present, b) =>
      let (report, b) := b.release topics
      (if present then { report with deleted := topic :: report.deleted } else report, b)
    | .error failure =>
      let (report, b) := b.release topics
      ({ report with failed := (topic, failure.message) :: report.failed }, b)

end Broker

end StatementLog
