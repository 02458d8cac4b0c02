import UsageOrder.Config.Environment
import UsageOrder.Files.Entry
import UsageOrder.Text.Terminal

/-!
# The world of a run

A run reads and changes a world: a file tree with a working directory, the environment, a clock, a
parser, and what has been logged and printed.  Each operation on the files is a pure function of the
world and says which fault it ends in; `Run` puts such operations one after the other, and a run that
ends in a fault keeps what was done before it.

The parser is any function from its earlier calls and the present one to an outcome.

What a run takes for granted of its surroundings is that nothing else changes the files meanwhile, and
that the system refuses a path for no other cause than those of `FileFault`: there are no links and no
permissions, and there is always room.
-/

namespace UsageOrder

/-- How grave a log record is. -/
inductive Severity where
  | warning
  | error
deriving DecidableEq, Repr

/-- A record of the log. -/
structure LogRecord where
  severity : Severity
  message : String
deriving DecidableEq, Repr

/-- A call of the parser: its words, and the content of the file named last. -/
structure Invocation where
  command : List String
  content : Content

/-- How a call of the parser ends. -/
inductive ParserOutcome where
  | finished (output complaint : String) (code : Int)
  /-- The system cannot start the parser. -/
  | notStarted (reason : String)
  /-- A word of the command has a null character, so the system is not asked for the parser at all. -/
  | refused
  /-- The parser has printed bytes that are not a text. -/
  | garbled

/-- A run of fixes, and the files that were copied before they were changed. -/
structure Session where
  id : String
  timestamp : String
  directory : Path
  files : List String := []
  compressed : Bool := false

/-- All that a run reads and changes. -/
structure World where
  /-- The file tree from the root. -/
  files : Entry
  workingDirectory : List String
  home : Path
  environment : Environment
  /-- The time in seconds. -/
  now : Nat
  parser : List Invocation → Invocation → ParserOutcome
  /-- The calls of the parser so far. -/
  calls : List Invocation := []
  log : List LogRecord := []
  /-- The backup session in progress. -/
  session : Option Session := none
  /-- The lines still to be read from standard input. -/
  input : List Text := []
  /-- Whether a question has met the end of the input. -/
  unanswered : Bool := false
  output : String := ""
  errors : String := ""

namespace World

/-- The place that a path leads to, which need not be there. -/
def place (world : World) (path : Path) : Except FileFault (List String) :=
  if Path.tooLong ≤ path.toText.utf8ByteSize then .error .nameTooLong
  else world.files.follow (if path.slashes = 0 then world.workingDirectory else []) path.parts

/-- The entry that a path leads to. -/
def at? (world : World) (path : Path) : Option Entry :=
  match world.place path with
  | .ok place => world.files.at? place
  | .error _ => none

/-- The entry that a path leads to, if any; a path that is too long cannot even be looked for. -/
def look (world : World) (path : Path) : Except Fault (Option Entry) :=
  match world.place path with
  | .ok place => .ok (world.files.at? place)
  | .error .nameTooLong =>
    if path.hasNull then .ok none else .error (.file .nameTooLong path.toText)
  | .error _ => .ok none

/-- Whether a path leads to an entry. -/
def pathExists (world : World) (path : Path) : Except Fault Bool := do
  .ok (← world.look path).isSome

/-- Whether a path leads to a directory. -/
def isDirectory (world : World) (path : Path) : Bool := (world.at? path).any Entry.isDirectory

/-- Whether a path leads to a file. -/
def isFile (world : World) (path : Path) : Except Fault Bool := do
  .ok ((← world.look path).any fun entry => !entry.isDirectory)

/-- The place of a path and the entry there. -/
def locate (world : World) (path : Path) : Except Fault (List String × Option Entry) :=
  if path.hasNull then .error .badValue
  else
    match world.place path with
    | .ok place => .ok (place, world.files.at? place)
    | .error cause => .error (.file cause path.toText)

/-- The file at a path. -/
def fileAt (world : World) (path : Path) : Except Fault Entry := do
  match (← world.locate path).2 with
  | none => .error (.file .notFound path.toText)
  | some (.directory _ _) => .error (.file .isADirectory path.toText)
  | some entry => .ok entry

/-- The text of the file at a path, every line end being a line feed. -/
def readText (world : World) (path : Path) : Except Fault Text := do
  match ← world.fileAt path with
  | .file (.text text) _ => .ok text.unifyLineEnds
  | _ => .error .notText

/-- The world with a file at a path. -/
def writeFile (world : World) (path : Path) (file : Entry) : Except Fault World := do
  match ← world.locate path with
  | (_, some (.directory _ _)) => .error (.file .isADirectory path.toText)
  | (place, _) => .ok { world with files := world.files.put place file }

/-- The world with a text at a path. -/
def writeText (world : World) (path : Path) (text : Text) : Except Fault World :=
  world.writeFile path (.file (.text text) none)

/-- The world without the file at a path. -/
def removeFile (world : World) (path : Path) : Except Fault World := do
  match ← world.locate path with
  | (_, none) => .error (.file .notFound path.toText)
  | (_, some (.directory _ _)) => .error (.file .isADirectory path.toText)
  | (place, some _) => .ok { world with files := world.files.remove place }

/-- The world without the entry at a path and all below it. -/
def removeTree (world : World) (path : Path) : Except Fault World := do
  match ← world.locate path with
  | (_, none) => .error (.file .notFound path.toText)
  | (place, some _) => .ok { world with files := world.files.remove place }

/-- The entries of the directory at a path. -/
def directoryAt (world : World) (path : Path) : Except Fault (List (String × Entry)) := do
  match (← world.locate path).2 with
  | none => .error (.file .notFound path.toText)
  | some (.directory members _) => .ok members
  | some _ => .error (.file .notADirectory path.toText)

/-- The world with a directory at the path of the first `count` parts of a path. -/
def makeDirectoryUpTo (path : Path) (world : World) (count : Nat) : Except Fault World :=
  match world.place { path with parts := path.parts.take count } with
  | .error cause => .error (.file cause path.toText)
  | .ok place =>
    match world.files.at? place with
    | none => .ok { world with files := world.files.put place (.directory [] none) }
    | some (.directory _ _) => .ok world
    | some _ =>
      .error (.file (if count < path.parts.length then .notADirectory else .alreadyExists)
        path.toText)

/-- The world with a directory at a path, those above it being made where they are missing. -/
def makeDirectories (world : World) (path : Path) : Except Fault World :=
  if path.hasNull then .error .badValue
  else if Path.tooLong ≤ path.toText.utf8ByteSize then .error (.file .nameTooLong path.toText)
  else (List.range (path.parts.length + 1)).foldlM (makeDirectoryUpTo path) world

/-- The path of a copy, which keeps its name in a directory. -/
def copyTarget (world : World) (source target : Path) : Path :=
  if world.isDirectory target then target.join ⟨0, [source.name]⟩ else target

/-- Whether two paths lead to one entry. -/
def sameEntry (world : World) (path other : Path) : Bool :=
  match world.place path, world.place other with
  | .ok place, .ok place' => decide (place = place') && (world.files.at? place).isSome
  | _, _ => false

/-- The wording of the refusal to copy a file to itself. -/
def sameEntryText (world : World) (source target : Path) : String :=
  let shown := (Json.str (world.copyTarget source target).toText).shown
  "PosixPath(" ++ (Json.str source.toText).shown ++ ") and " ++
    (if world.isDirectory target then shown else "PosixPath(" ++ shown ++ ")") ++
      " are the same file"

/-- The world with a copy of a file, which is not made of a file to itself. -/
def copyFile (world : World) (source target : Path) : Except Fault World := do
  let spot := world.copyTarget source target
  if world.sameEntry source spot then .error (.system (world.sameEntryText source target))
  else
    match ← world.fileAt source with
    | .file content _ => world.writeFile spot (.file content none)
    | .archive place packed _ => world.writeFile spot (.archive place packed none)
    | .directory _ _ => .error (.file .isADirectory source.toText)

/-- The world with a log record more. -/
def record (world : World) (severity : Severity) (message : String) : World :=
  { world with log := world.log ++ [⟨severity, message⟩] }

/-- The path from the root that a path stands for. -/
def resolve (world : World) (path : Path) : Except Fault Path :=
  if path.hasNull then .error .badValue else .ok (path.resolve world.workingDirectory)

/-- The world once the operation in progress is over: its changes get their time. -/
def settle (world : World) : World := { world with files := world.files.settle world.now }

end World

/-- A run: a value or a fault, and the changed world in both cases. -/
abbrev Run := ExceptT Fault (StateM World)

namespace Run

/-- What a function reads from the world. -/
def read {α : Type} (f : World → Except Fault α) : Run α := do
  match f (← get) with
  | .ok value => pure value
  | .error fault => throw fault

/-- Changes the world by a function that may fail. -/
def change (f : World → Except Fault World) : Run Unit := do
  match f (← get) with
  | .ok world => set world
  | .error fault => throw fault

/-- The value of a computation that does not look at the world. -/
def ofExcept {α : Type} (result : Except Fault α) : Run α :=
  match result with
  | .ok value => pure value
  | .error fault => throw fault

/-- The outcome of a run: its value or its fault. -/
def outcome {α : Type} (run : Run α) : Run (Except Fault α) := fun world =>
  let (result, world) := run world
  (.ok result, world)

/-- Does something after a run, whether it ends in a value or in a fault. -/
def ensuring {α : Type} (run : Run α) (after : Run Unit) : Run α := do
  let result ← run.outcome
  after
  ofExcept result

/-- Whether a path leads to an entry. -/
def pathExists (path : Path) : Run Bool := read fun world => world.pathExists path

/-- The text of a file. -/
def readText (path : Path) : Run Text := read fun world => world.readText path

/-- Writes a text to a file. -/
def writeText (path : Path) (text : Text) : Run Unit := change fun world => world.writeText path text

/-- Removes a file. -/
def removeFile (path : Path) : Run Unit := change fun world => world.removeFile path

/-- Removes a file or a directory with all below it. -/
def removeTree (path : Path) : Run Unit := change fun world => world.removeTree path

/-- Makes a directory and those above it. -/
def makeDirectories (path : Path) : Run Unit := change fun world => world.makeDirectories path

/-- Copies a file. -/
def copyFile (source target : Path) : Run Unit := change fun world => world.copyFile source target

/-- Logs a warning. -/
def warn (message : String) : Run Unit := modify fun world => world.record .warning message

/-- Logs an error. -/
def complain (message : String) : Run Unit := modify fun world => world.record .error message

/-- Prints a text as it is. -/
def print (text : String) : Run Unit :=
  modify fun world => { world with output := world.output ++ text }

/-- Prints a line, without the sequences that colour a terminal. -/
def printLine (line : String) : Run Unit := print (Text.uncoloured line ++ "\n")

/-- Prints a line to the error output, without the sequences that colour a terminal. -/
def printError (line : String) : Run Unit :=
  modify fun world => { world with errors := world.errors ++ Text.uncoloured line ++ "\n" }

/-- Calls the parser on a file. -/
def callParser (command : List String) (path : Path) : Run ParserOutcome := do
  let world ← get
  let content :=
    match world.at? path with
    | some (.file content _) => content
    | _ => .text []
  let call : Invocation := ⟨command, content⟩
  set { world with calls := world.calls ++ [call] }
  return world.parser world.calls call

end Run
end UsageOrder
