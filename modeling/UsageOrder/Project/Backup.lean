import UsageOrder.Project.Timestamp
import UsageOrder.Json.Order
import UsageOrder.Project.World

/-!
# Backups

Before a file is changed it is copied into the directory of the session in progress, to the place
that its path from the root has below that directory.  A file is copied once in a session, so the
copy holds what the file was before the session.

| step | effect |
|---|---|
| `startSession` | a new directory, named for the time |
| `backupFile` | copies a file, unless the session has a copy |
| `finalize` | writes the metadata, packs the directory if asked for, removes sessions that are too many |
| `restore` | copies every file of a session back to where it came from |

The latest sessions are kept, by the time at which their directory or archive was last changed.
-/

namespace UsageOrder

/-- Where sessions are stored, and how; the last two settings may be values of any kind. -/
structure BackupStore where
  directory : Path
  compression : Json
  keepSessions : Json

namespace BackupStore

/-- What the names of sessions start with. -/
def sessionMark : String := "fix_"

/-- What the names of archives end with. -/
def archiveEnd : String := ".tar.gz"

/-- The file with the metadata of a session. -/
def metadataFile : Path := ⟨0, ["session.json"]⟩

/-- The path below a session's directory that a path from the root has there. -/
def key (resolved : Path) : Path := ⟨0, resolved.parts⟩

/-- The store in a directory, which is made if it is missing. -/
def make (directory compression keepSessions : Json) : Run BackupStore := do
  match directory with
  | .str s =>
    Run.makeDirectories (Path.ofText s)
    return ⟨Path.ofText s, compression, keepSessions⟩
  | _ => throw .unsuitable

/-- Opens a session. -/
def startSession (store : BackupStore) (description : Json) : Run Path := do
  let timestamp := Timestamp.ofSeconds (← get).now
  let id := sessionMark ++ timestamp ++
    (if description.truthy then "_" ++ description.plain else "")
  let directory := store.directory.join (Path.ofText id)
  Run.makeDirectories directory
  modify fun world => { world with session := some { id, timestamp, directory } }
  return directory

/-- The session in progress, which is opened if there is none. -/
def currentSession (store : BackupStore) : Run Session := do
  if (← get).session.isNone then
    let _ ← store.startSession .null
  match (← get).session with
  | some session => return session
  | none => throw .noSuchMember

/-- Copies a file into the session in progress before it is changed. -/
def backupFile (store : BackupStore) (path : Path) : Run (Option Path) := do
  let session ← store.currentSession
  if !(← Run.pathExists path) then
    Run.warn ("File does not exist: " ++ path.toText)
    return none
  let resolved ← Run.read fun world => world.resolve path
  let copy := session.directory.join (key resolved)
  if resolved.toText ∈ session.files then return some copy
  Run.makeDirectories copy.parent
  Run.copyFile path copy
  modify fun world =>
    { world with session := some { session with files := session.files ++ [resolved.toText] } }
  return some copy

/-- The metadata of a session. -/
def metadata (session : Session) : Json := .obj [
  ("session_id", .str session.id), ("timestamp", .str session.timestamp),
  ("directory", .str session.directory.toText), ("files", .arr (session.files.map .str)),
  ("compressed", .bool session.compressed)]

/-- Whether an entry of the store's directory is a session. -/
def isSession (member : String × Entry) : Bool :=
  sessionMark.toList.isPrefixOf member.1.toList &&
    (member.2.isDirectory || archiveEnd.toList.isSuffixOf member.1.toList)

/-- The stored sessions. -/
def sessionEntries (store : BackupStore) (world : World) :
    Except Fault (List (String × Entry)) := do
  .ok ((← world.directoryAt store.directory).filter isSession)

/-- The sessions from the latest to the earliest. -/
def newestFirst (entries : List (String × Entry)) : List (String × Entry) :=
  entries.mergeSort fun a b => ChangeTime.le b.2.changed a.2.changed

/-- The sessions beyond those that are kept. -/
def surplus (store : BackupStore) (entries : List (String × Entry)) :
    Except Fault (List (String × Entry)) :=
  match store.keepSessions, store.keepSessions.toInt? with
  | .null, _ => .ok entries
  | _, some keep => .ok (entries.drop (Text.clamp entries.length keep))
  | _, none => .error .unsuitable

/-- Removes the sessions beyond those that are kept, and counts them. -/
def removeOld (store : BackupStore) : Run Nat := do
  let entries ← Run.read store.sessionEntries
  let old ← Run.ofExcept (store.surplus (newestFirst entries))
  old.forM fun member => Run.removeTree (store.directory.join ⟨0, [member.1]⟩)
  return old.length

/-- Packs the directory of a session into an archive, which takes its place; the session knows that
it is packed. -/
def pack (store : BackupStore) (session : Session) : Run Path := do
  let archive := store.directory.join (Path.ofText (session.id ++ archiveEnd))
  match (← get).at? session.directory with
  | none => throw (.file .notFound session.directory.toText)
  | some packed =>
    Run.change fun world =>
      world.writeFile archive (.archive (Path.ofText session.id).parts packed none)
    Run.removeTree session.directory
    modify fun world => { world with session := some { session with compressed := true } }
    return archive

/-- Ends the session in progress. -/
def finalize (store : BackupStore) : Run (Option Path) := do
  match (← get).session with
  | none =>
    Run.warn "No active backup session"
    return none
  | some session =>
    Run.writeText (session.directory.join metadataFile) (metadata session).indented.toList
    let result ← if store.compression.truthy then store.pack session else pure session.directory
    let _ ← store.removeOld
    modify fun world => { world with session := none }
    return some result

/-- The value in a JSON file. -/
def readJson (path : Path) : Run Json := do
  match Json.parse (← Run.readText path) with
  | .ok value => return value
  | .error e => throw (.notJson e)

/-- A name without the ending of an archive. -/
def withoutEnd (name : String) : String :=
  if archiveEnd.toList.isSuffixOf name.toList then
    String.ofList (name.toList.take (name.length - archiveEnd.length))
  else name

/-- What is told of a stored session: its metadata, or else its name and time. -/
def describe (store : BackupStore) (member : String × Entry) : Run Json := do
  let path := (store.directory.join ⟨0, [member.1]⟩).join metadataFile
  if member.2.isDirectory && (← Run.pathExists path) then readJson path
  else
    return .obj [
      ("session_id", .str (withoutEnd member.1)), ("compressed", .bool !member.2.isDirectory),
      ("timestamp", .str (Timestamp.ofSeconds (member.2.changed.getD (← get).now)))]

/-- The time stamp by which a description is sorted. -/
def sortKey (description : Json) : Except Fault Json :=
  match description with
  | .obj _ => .ok ((description.get? "timestamp").getD (.str ""))
  | _ => .error .noSuchMember

/-- Descriptions from the latest to the earliest. -/
def latestFirst (descriptions : List Json) : Except Fault (List Json) := do
  let keyed ← descriptions.mapM fun description => do .ok (← sortKey description, description)
  .ok (← Json.sortBy keyed.reverse).reverse

/-- The stored sessions, from the latest to the earliest. -/
def sessions (store : BackupStore) : Run (List Json) := do
  let entries ← Run.read store.sessionEntries
  Run.ofExcept (latestFirst (← entries.mapM store.describe))

/-- Unpacks an archive into the store's directory. -/
def unpack (store : BackupStore) (archive : Path) : Run Unit := do
  match ← Run.read fun world => world.fileAt archive with
  | .archive place packed _ =>
    let target := store.directory.join ⟨0, place⟩
    Run.makeDirectories target.parent
    Run.change fun world =>
      match world.place target with
      | .ok place => .ok { world with files := world.files.put place packed }
      | .error cause => .error (.file cause target.toText)
  | _ => throw .notAnArchive

/-- Copies a file of a session back, if the session has a copy. -/
def restoreFile (session target : Path) : Run Unit := do
  let copy := session.join (key (← Run.read fun world => world.resolve target))
  if ← Run.pathExists copy then
    Run.makeDirectories target.parent
    Run.copyFile copy target

/-- The files that the metadata of a session lists. -/
def listedFiles (metadata : Json) : Except Fault (List Json) := do
  match metadata with
  | .obj _ =>
    match metadata.get? "files" with
    | some files => files.items
    | none => .ok []
  | _ => .error .noSuchMember

/-- Copies every file of an unpacked session back; false if there is no such session. -/
def restoreFrom (session : Path) (id : String) : Run Bool := do
  let file := session.join metadataFile
  if !(← Run.pathExists file) then
    Run.complain ("Backup session not found: " ++ id)
    return false
  let files ← Run.ofExcept (listedFiles (← readJson file))
  files.forM fun listed =>
    match listed with
    | .str s => restoreFile session (Path.ofText s)
    | _ => throw .unsuitable
  return true

/-- Whether a fault only makes a session impossible to restore. -/
def isRestoreFault : Fault → Bool
  | .file .. | .system _ | .notAnArchive => true
  | .notJson e => decide (e.problem ≠ .tooManyDigits)
  | _ => false

/-- Unpacks the archive of a session whose directory is not there; true if it did. -/
def unpackMissing (store : BackupStore) (session archive : Path) : Run Bool := do
  if ← Run.pathExists session then return false
  else if ← Run.pathExists archive then
    store.unpack archive
    return true
  else return false

/-- Copies every file of a session back to where it came from; false if that is not possible.  An
archive is unpacked for the time of the restoration. -/
def restore (store : BackupStore) (id : String) : Run Bool := do
  let session := store.directory.join (Path.ofText id)
  let archive := store.directory.join (Path.ofText (id ++ archiveEnd))
  let unpacked ← (store.unpackMissing session archive).outcome
  let result ← match unpacked with
    | .ok _ => (restoreFrom session id).outcome
    | .error fault => pure (.error fault)
  if unpacked.toOption = some true then
    if ← Run.pathExists session then Run.removeTree session
  match result with
  | .ok done => return done
  | .error fault =>
    if isRestoreFault fault then
      Run.complain ("Error restoring session " ++ id)
      return false
    else throw fault

end BackupStore
end UsageOrder
