import Std.Time.DateTime.Timestamp
import UsageOrder.Command.Line
import UsageOrder.Files.Archive

/-!
# The program

Everything that the program does is the pure function `CommandLine.run` of a world.  What is left is
to read the world and to write back what has changed in it:

* the file tree holds the working directory, the user's configuration and whatever else the command
  line names; links to directories are not followed;
* a run that asks a question is run again from the start with the answer, until it asks no more;
* the files that differ afterwards are written, and those that are gone are removed.

No other program is started, so a configured parser counts as one that cannot be started.
-/

namespace UsageOrder
namespace Program

/-- The entry of a file with a name and a content. -/
def fileEntry (name : String) (bytes : List UInt8) (time : Nat) : Entry :=
  let packed :=
    if BackupStore.archiveEnd.toList.isSuffixOf name.toList then Archive.decode? bytes else none
  match packed with
  | some (place, entry) => .archive place entry (some time)
  | none => .file (Content.ofBytes bytes) (some time)

/-- The bytes of a file or an archive. -/
def entryBytes? : Entry → Option (List UInt8)
  | .file content _ => some (Archive.contentBytes content)
  | .archive place packed _ => some (Archive.encode place packed)
  | .directory _ _ => none

/-- Reads the entry at a path; none if it is of another kind or cannot be read. -/
partial def readEntry (path name : String) (isTop : Bool) : IO (Option Entry) :=
  try
    let place ← IO.FS.realPath path
    let data ← place.metadata
    let isLink := !isTop && place.toString != path
    let time := data.modified.sec.toNat
    match data.type with
    | .dir =>
      if isLink then return none
      let members ← (← place.readDir).toList.filterMapM fun member => do
        let entry ← readEntry (place.toString ++ "/" ++ member.fileName) member.fileName false
        return entry.map fun entry => (member.fileName, entry)
      return some (.directory members (some time))
    | .file => return some (fileEntry name (← IO.FS.readBinFile path).toList time)
    | _ => return none
  catch _ => return none

/-- Writes the entry at a path, where another one or none has been before. -/
partial def writeEntry (path : String) (before after : Option Entry) : IO Unit := do
  match before, after with
  | none, none => return
  | some (.directory _ _), none => IO.FS.removeDirAll path
  | some _, none => IO.FS.removeFile path
  | some (.directory old _), some (.directory new _) =>
    for (name, entry) in old do
      writeEntry (path ++ "/" ++ name) (some entry) (new.lookup name)
    for (name, entry) in new do
      if (old.lookup name).isNone then writeEntry (path ++ "/" ++ name) none (some entry)
  | _, some (.directory new changed) =>
    if before.isSome then IO.FS.removeFile path
    IO.FS.createDir path
    writeEntry path (some (.directory [] changed)) (some (.directory new changed))
  | _, some entry =>
    if (before.map Entry.isDirectory).getD false then IO.FS.removeDirAll path
    let bytes := (entryBytes? entry).getD []
    if before.bind entryBytes? != some bytes then
      IO.FS.writeBinFile path bytes.toByteArray

/-- Takes the entry at a path into a file tree, unless it is there. -/
def takeIn (files : Entry) (path : String) : IO Entry := do
  let place := (Path.ofText path).parts
  if (files.at? place).isSome then return files
  else
    match ← readEntry path (place.getLast?.getD "") true with
    | some entry => return (Archive.withDirectories files place.dropLast).put place entry
    | none => return files

/-- The real path of a word that names something. -/
def realPath? (word : String) : IO (Option String) :=
  try return some (← IO.FS.realPath word).toString catch _ => return none

/-- The variables that set the configuration. -/
def settingVariables : List String :=
  ["STYLED_SORT_DRY_RUN", "STYLED_SORT_VERBOSE", "STYLED_SORT_MARKERS", "STYLED_SORT_SEPARATOR"]

/-- Reads the world of a run. -/
def readWorld (words : List String) : IO World := do
  let here := (← IO.currentDir).toString
  let home := (← IO.getEnv "HOME").getD "/"
  let named ← words.filterMapM realPath?
  let files ← (here :: (home ++ "/.styled-sort") :: named).foldlM takeIn (.directory [] none)
  let environment ← settingVariables.filterMapM fun name => do
    return (← IO.getEnv name).map fun text => (name, text)
  let now ← Std.Time.Timestamp.now
  return {
    files := files
    workingDirectory := (Path.ofText here).parts
    home := Path.ofText home
    environment := environment
    now := now.toSecondsSinceUnixEpoch.val.toNat
    parser := fun _ _ => .notStarted "no other program can be started" }

/-- Runs the command line on a world with the lines of input so far, and prints what the output has
beyond its first `shown` characters; a question that is left is put to the user. -/
partial def converse (words : List String) (world : World) (lines : List Text) (shown : Nat) :
    IO (Except Fault Nat × World) := do
  let (result, after) := (CommandLine.run words).run { world with input := lines }
  let fresh := after.output.toList.drop shown
  if !after.unanswered then
    IO.print (String.ofList fresh)
    return (result, after)
  else
    IO.print (String.ofList fresh.dropLast)
    (← IO.getStdout).flush
    let line ← (← IO.getStdin).getLine
    if line.isEmpty then
      IO.println ""
      return (result, after)
    else
      let answer := Text.unifyLineEnds line.toList |>.takeWhile (· ≠ '\n')
      converse words world (lines ++ [answer]) (after.output.length + answer.length)

/-- The line for a record of the log. -/
def logLine (record : LogRecord) : String :=
  (match record.severity with
    | .warning => "WARNING"
    | .error => "ERROR") ++ " - " ++ record.message

/-- Runs the program. -/
def run (words : List String) : IO UInt32 := do
  let world ← readWorld words
  let (result, after) ← converse words world [] 0
  writeEntry "" (some world.files) (some after.files)
  after.log.forM fun record => IO.eprintln (logLine record)
  IO.eprint after.errors
  return match result with
    | .ok code => UInt32.ofNat code
    | .error _ => 1

end Program
end UsageOrder

/-- The command line. -/
def main (words : List String) : IO UInt32 := UsageOrder.Program.run words
