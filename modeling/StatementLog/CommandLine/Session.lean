import StatementLog.Cluster.Schedule
import StatementLog.CommandLine.Manual
import StatementLog.Config.Reader
import StatementLog.Engine
import StatementLog.Log.Disk

namespace StatementLog.CommandLine

inductive SessionFault where
  | config (path : String) (cause : ConfigFault)
  | log (path : String) (cause : Error)
  | starting (cause : Error)
  | terminated (path : String) (cleanup : Option String)
  | call (cause : Error)
  | unanswered
  deriving DecidableEq, Repr

namespace SessionFault

def message : SessionFault → String
  | config path _ => "loading config from " ++ path
  | log path _ => "opening command log " ++ path
  | starting _ => "starting node"
  | terminated path none => "the cluster recorded in " ++ path ++ " was terminated"
  | terminated path (some e) =>
    "the cluster recorded in " ++ path ++ " was terminated; cleanup failed: " ++ e
  | call cause => cause.message
  | unanswered => "the node does not answer"

def cause : SessionFault → Option String
  | config _ cause => some (Error.config cause).message
  | log _ cause | starting cause => some cause.message
  | terminated _ _ | call _ | unanswered => none

end SessionFault

structure Session where
  schedule : Schedule Disk FileClient Engine
  timeout : Nat

inductive Progress where
  | on (report : Option String) (s : Session)
  | ended (report : Option String) (s : Session)
  | failed (fault : SessionFault) (s : Session)

def Progress.session : Progress → Session
  | on _ s | ended _ s | failed _ s => s

namespace Session

def disk (s : Session) : Disk :=
  s.schedule.cluster.log

def setDisk (s : Session) (disk : Disk) : Session :=
  { s with schedule := s.schedule.act fun c => { c with log := disk } }

def patience : Nat :=
  Word.max + 1

def call (s : Session) (activity : Activity) : Option Reply × Session :=
  let (reply, schedule) := s.schedule.call 0 activity patience
  (reply, { s with schedule })

def config (o : Options) (disk : Disk) : Except SessionFault Config :=
  match o.config with
  | none => .ok {}
  | some path => (Config.ofFile path (disk.octets? path)).mapError (.config path)

def broker (o : Options) (config : Config) : Broker :=
  (Broker.ofTopics o.topics).addTopic config.commandTopic

def prepare (o : Options) (config : Config) (client : FileClient) (disk : Disk) (origin : Int) :
    Session where
  schedule :=
    { cluster :=
        ((({ origin, log := disk, broker := broker o config } : Cluster Disk FileClient Engine).addNode
          config client (.ofCommandTopic config.commandTopic)).2) }
  timeout := o.timeout.getD config.responseTimeout

def start (o : Options) (config : Config) (disk : Disk) (origin : Int) : Progress :=
  let (opened, disk) := disk.open? o.logFile
  match opened with
  | .error e => .failed (.log o.logFile e) (prepare o config { handle := 0 } disk origin)
  | .ok client =>
    let (reply, s) := (prepare o config client disk origin).call (.starting (.checking {}))
    match reply with
    | some (.ok (.replayed (.terminated e))) => .failed (.terminated o.logFile e) s
    | some (.ok _) => .on none s
    | some (.error e) => .failed (.starting e) s
    | none => .failed .unanswered s

def isTermination (statement : String) : Bool :=
  match Statement.readId statement with
  | .ok id => id.isClusterTerminate
  | .error _ => false

def statusText (status : Status) : String :=
  status.kind.name ++ ": " ++ status.message

def terminate (s : Session) (statement : String) : Progress :=
  match s.call (.terminating (.checking statement)) with
  | (some (.ok (.ended (some status))), s) => .ended (some ("cluster " ++ statusText status)) s
  | (some (.ok _), s) => .ended (some "cluster already stopped") s
  | (some (.error e), s) => .failed (.call e) s
  | (none, s) => .failed .unanswered s

def report (slot : Slot) (outcome : String) : String :=
  slot.id.text ++ s!" @{slot.offset} " ++ outcome

def follow (s : Session) (slot : Slot) : Progress :=
  match s.call (.following (.registering slot s.timeout)) with
  | (some (.ok (.status status)), s) => .on (some (report slot (statusText status))) s
  | (some (.error e), s) => .on (some (report slot e.message)) s
  | (_, s) => .failed .unanswered s

def submit (s : Session) (statement : String) : Progress :=
  match s.call (.submitting (.gate { text := statement })) with
  | (some (.ok (.submitted slot)), s) => s.follow slot
  | (some (.error e), s) => .on (some ("rejected: " ++ e.message)) s
  | (_, s) => .failed .unanswered s

def feed (s : Session) (line : List Char) : Progress :=
  match Text.trim line with
  | [] => .on none s
  | '-' :: '-' :: _ => .on none s
  | statement =>
    let statement := String.ofList statement
    if isTermination statement then s.terminate statement else s.submit statement

def finish (s : Session) : Progress :=
  match s.call (.closing .closingQueue) with
  | (some (.ok _), s) => .ended none s
  | (some (.error e), s) => .failed (.call e) s
  | (none, s) => .failed .unanswered s

def lines (input : List Char) : List (List Char) :=
  input.splitOn '\n'

def feedAll (s : Session) : List (List Char) → List String × Option SessionFault × Disk
  | [] =>
    match s.finish with
    | .on report s | .ended report s => (report.toList, none, s.disk)
    | .failed fault s => ([], some fault, s.disk)
  | line :: rest =>
    match s.feed line with
    | .on report s =>
      let (reports, end') := s.feedAll rest
      (report.toList ++ reports, end')
    | .ended report s => (report.toList, none, s.disk)
    | .failed fault s => ([], some fault, s.disk)

end Session

structure Outcome where
  exitCode : Nat
  output : List String := []
  fault : Option SessionFault := none
  deriving DecidableEq, Repr

def Outcome.ofFault (fault : SessionFault) : Outcome where
  exitCode := 1
  fault := some fault

def run (disk : Disk) (origin : Int) (args : List String) (input : List Char) : Outcome × Disk :=
  match Options.read args with
  | .error detour => ({ exitCode := detour.exitCode, output := detour.lines }, disk)
  | .ok o =>
    match Session.config o disk with
    | .error fault => (.ofFault fault, disk)
    | .ok config =>
      match Session.start o config disk origin with
      | .failed fault s => (.ofFault fault, s.disk)
      | .on _ s | .ended _ s =>
        match s.feedAll (Session.lines input) with
        | (output, none, disk) => ({ exitCode := 0, output }, disk)
        | (output, some fault, disk) => ({ exitCode := 1, output, fault := some fault }, disk)

end StatementLog.CommandLine
