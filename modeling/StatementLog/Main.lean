import Std.Time.DateTime.Timestamp
import StatementLog.CommandLine.Session

namespace StatementLog.CommandLine

/-- Brings a file of the machine onto the disk. Whatever is there and cannot be read as a file
stands as a directory. -/
def load (d : Disk) (path : String) : IO Disk := do
  match ← (IO.FS.readBinFile path).toBaseIO with
  | .ok octets => return d.put path (.file octets.toList)
  | .error (.noFileOrDirectory ..) => return d.remove path
  | .error _ => return d.put path .directory

def store (d : Disk) (path : String) : IO Unit :=
  (d.octets? path).forM fun octets => IO.FS.writeBinFile path ⟨octets.toArray⟩

def locked {α : Type} (path : String) (act : IO α) : IO α := do
  let lock ← IO.FS.Handle.mk (Disk.lockPath path) .append
  lock.lock
  try act finally lock.unlock

def onFile (path : String) (s : Session) (step : Session → Progress) : IO Progress :=
  locked path do
    let p := step (s.setDisk (← load s.disk path))
    store p.session.disk path
    return p

partial def serve (path : String) (input : IO.FS.Stream) :
    Progress → IO (Option SessionFault)
  | .failed fault _ => return some fault
  | .ended report _ => do
    report.forM IO.println
    return none
  | .on report s => do
    report.forM IO.println
    let line ← input.getLine
    serve path input (← onFile path s fun s =>
      if line.isEmpty then s.finish else s.feed line.toList)

def fail (fault : SessionFault) : IO UInt32 := do
  IO.eprintln ("Error: " ++ fault.message)
  fault.cause.forM fun cause => IO.eprintln ("\nCaused by:\n    " ++ cause)
  return 1

def openAndServe (o : Options) (config : Config) (disk : Disk) : IO (Option SessionFault) := do
  let origin := (← Std.Time.Timestamp.now).toMillisecondsSinceUnixEpoch.toInt
  let opened ← (do
    (Path.parent? o.logFile).forM fun parent => IO.FS.createDirAll parent
    locked o.logFile do
      let p := Session.start o config (← load disk o.logFile) origin
      store p.session.disk o.logFile
      return p : IO Progress).toBaseIO
  match opened with
  | .ok p => serve o.logFile (← IO.getStdin) p
  | .error _ => return some (.log o.logFile (Disk.fault .blocked))

end StatementLog.CommandLine

open StatementLog StatementLog.CommandLine

def main (args : List String) : IO UInt32 := do
  match Options.read args with
  | .error detour =>
    detour.lines.forM fun line => IO.println line
    if detour = .usage then IO.eprintln Manual.usage
    return detour.exitCode.toUInt32
  | .ok o =>
    let disk ← o.config.toList.foldlM load {}
    match Session.config o disk with
    | .error fault => fail fault
    | .ok config =>
      match ← openAndServe o config disk with
      | some fault => fail fault
      | none => return 0
