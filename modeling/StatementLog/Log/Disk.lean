import StatementLog.Log.Lines
import StatementLog.Log.Path

namespace StatementLog

structure FileHandle where
  path : String
  place : Place
  /-- The file that every writer locks. -/
  lock : Place
  extent : Extent
  epoch : Nat := 0
  deriving DecidableEq, Repr

structure Disk where
  entries : Entries := .bare
  handles : List FileHandle := []
  deriving DecidableEq

structure FileClient where
  handle : Nat
  octets : Nat := 0
  offset : Nat := 0
  position : Nat := 0
  closed : Bool := false
  deriving DecidableEq, Repr

namespace Disk

def fault : PathFault → Error
  | .nul => .logUnavailable .nulInPath
  | .missing | .blocked => .logUnavailable .storage

def octets? (d : Disk) (path : String) : Option (List UInt8) := do
  let place ← (d.entries.resolve path).toOption
  (d.entries.content? place).toOption.join

def put (d : Disk) (path : String) (entry : Entry) : Disk :=
  match d.entries.makeParents path with
  | (.error _, entries) => { d with entries }
  | (.ok (), entries) =>
    match entries.resolve path with
    | .error _ => { d with entries }
    | .ok place => { d with entries := entries.insert place entry }

def write (d : Disk) (path : String) (content : List UInt8) : Disk :=
  match d.entries.resolve path with
  | .ok place =>
    if d.entries[place]? = some .directory then d else d.put path (.file content)
  | .error _ => d.put path (.file content)

def extend (d : Disk) (path : String) (content : List UInt8) : Disk :=
  match d.entries.openPath path with
  | .error _ => d
  | .ok (place, known, entries) =>
    { d with entries := entries.insert place (.file (known ++ content)) }

def remove (d : Disk) (path : String) : Disk :=
  match d.entries.resolve path with
  | .ok place => { d with entries := d.entries.erase place }
  | .error _ => d

def lockPath (path : String) : String :=
  path ++ ".lock"

/-- Opens a log and cuts off a torn tail, which was never acknowledged. -/
def open? (d : Disk) (path : String) : Except Error FileClient × Disk :=
  match d.entries.makeParents path with
  | (.error f, entries) => (.error (fault f), { d with entries })
  | (.ok (), entries) =>
    match entries.openPath (lockPath path) with
    | .error f => (.error (fault f), { d with entries })
    | .ok (lock, _, entries) =>
      match entries.openPath path with
      | .error f => (.error (fault f), { d with entries })
      | .ok (place, content, entries) =>
        let (extent, torn) := Extent.scan {} content
        let whole := Entry.file (content.take extent.octets)
        (.ok { handle := d.handles.length },
          { entries := if torn > 0 then entries.insert place whole else entries
            handles := d.handles ++ [{ path, place, lock, extent }] })

def sibling (c : FileClient) : FileClient where
  handle := c.handle

def handleOf (d : Disk) (c : FileClient) : FileHandle :=
  (d.handles[c.handle]?).getD { path := "", place := [], lock := [], extent := {} }

def setHandle (d : Disk) (c : FileClient) (h : FileHandle) : Disk :=
  { d with handles := d.handles.set c.handle h }

def check (d : Disk) (c : FileClient) : Except Error Unit :=
  if c.closed then .error (.logUnavailable (.handleClosed (d.handleOf c).path)) else .ok ()

def append (d : Disk) (c : FileClient) (r : Record) : Except Error Nat × Disk :=
  let h := d.handleOf c
  let line := Text.Utf8.encode r.line ++ [Lines.lineFeed]
  match d.check c with
  | .error e => (.error e, d)
  | .ok () =>
    match d.entries.openFile h.lock with
    | .error f => (.error (fault f), d)
    | .ok (_, entries) =>
      match entries.openFile h.place with
      | .error f => (.error (fault f), { d with entries })
      | .ok (content, entries) =>
        let (extent, _) := h.extent.scan content
        let known : Extent := ⟨extent.octets + line.length, extent.records + 1⟩
        let entries := entries.insert h.place (.file (content.take extent.octets ++ line))
        (.ok extent.records, { d with entries }.setHandle c { h with extent := known })

def announce (d : Disk) (c : FileClient) : Disk :=
  let h := d.handleOf c
  d.setHandle c { h with epoch := h.epoch + 1 }

/-- A batch that cannot be read leaves the place in the file, but not the count of records. -/
def read (d : Disk) (c : FileClient) : Except Error (List Command) × FileClient :=
  match d.entries.content? (d.handleOf c).place with
  | .error f => (.error (fault f), c)
  | .ok content =>
    let rest := (content.getD []).drop c.octets
    match Lines.readFrom c.offset (Lines.complete rest) with
    | (.error e, offset) => (.error e, { c with offset })
    | (.ok batch, offset) =>
      (.ok batch,
        { c with octets := c.octets + Lines.completeLength rest, offset, position := offset })

def endPosition (d : Disk) (c : FileClient) : Except Error Nat × Disk :=
  let h := d.handleOf c
  match d.check c with
  | .error e => (.error e, d)
  | .ok () =>
    match d.entries.content? h.place with
    | .error f => (.error (fault f), d)
    | .ok content =>
      let extent := match content with
        | none => {}
        | some content => (h.extent.scan content).1
      (.ok extent.records, d.setHandle c { h with extent })

def rewind (c : FileClient) : FileClient :=
  { c with octets := 0, offset := 0, position := 0 }

def lookInterval : Nat := 50

instance : CommandLog Disk FileClient where
  check := check
  append := append
  announce := announce
  read := read
  endPosition := endPosition
  rewind := rewind
  position c := c.position
  close c := { c with closed := true }
  epoch d c := (d.handleOf c).epoch
  patience _ _ := some lookInterval

end Disk

end StatementLog
