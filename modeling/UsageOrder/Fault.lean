import UsageOrder.Json.Reader
import UsageOrder.Json.Printer

/-!
# What can go wrong

Every operation that can fail does so with a `Fault`, which names the cause.  The wording of the
faults that are reported to a user is in one place, `Fault.message`.
-/

namespace UsageOrder

/-- Why a syntax tree cannot be used; `file` is the name of the source file it belongs to. -/
inductive TreeFault where
  | noRange (kind : Json)
  | notAProgram (kind : Json)
  | noStatements
  | statementPastEnd (file : String) (start stop : Int) (length : Nat)
  | nameNotAt (file : String) (name : String) (offset : Int)
  | unreadable (file : String) (error : Json.ReadError)
  | missing (file sidecar : String)

namespace TreeFault

/-- The wording of a fault of a syntax tree. -/
def message : TreeFault → String
  | .noRange kind => "Node " ++ kind.plain ++ " has no source range"
  | .notAProgram kind => "Expected a Program node, got " ++ kind.shown
  | .noStatements => "Program node has no statement list"
  | .statementPastEnd file start stop length =>
    "AST does not match " ++ file ++ ": statement at " ++ toString start ++ "-" ++ toString stop ++
      " ends past the end of the text (" ++ toString length ++ ")"
  | .nameNotAt file name offset =>
    "AST does not match " ++ file ++ ": expected " ++ (Json.str name).shown ++ " at offset " ++
      toString offset
  | .unreadable file error => "Invalid AST JSON for " ++ file ++ ": " ++ error.message
  | .missing file sidecar =>
    "No AST for " ++ file ++ ": provide " ++ sidecar ++ " or configure parser.command"

end TreeFault

/-- Why declarations cannot be put in order. -/
inductive OrderFault where
  | cycle (path : List String)
  | unsettled (limit : String)

namespace OrderFault

/-- The names of the cycle, if there is one. -/
def path : OrderFault → List String
  | .cycle path => path
  | .unsettled _ => []

/-- The wording of a fault of the order. -/
def message : OrderFault → String
  | .cycle path => "Dependency cycle: " ++ " -> ".intercalate path
  | .unsettled limit => "Order did not settle after " ++ limit ++ " passes"

end OrderFault

/-- What the file system refuses to do with a path. -/
inductive FileFault where
  | notFound
  | alreadyExists
  | notADirectory
  | isADirectory
  | nameTooLong
  | directoryNotEmpty
deriving DecidableEq, Repr

namespace FileFault

/-- The number and the words by which a refusal is known. -/
def words : FileFault → String
  | .notFound => "[Errno 2] No such file or directory"
  | .alreadyExists => "[Errno 17] File exists"
  | .notADirectory => "[Errno 20] Not a directory"
  | .isADirectory => "[Errno 21] Is a directory"
  | .nameTooLong => "[Errno 36] File name too long"
  | .directoryNotEmpty => "[Errno 39] Directory not empty"

end FileFault

/-- The cause of a failure. -/
inductive Fault where
  /-- A member or a name that has to be there is missing. -/
  | missingKey
  /-- A value is asked for something that values of its kind do not have. -/
  | noSuchMember
  /-- A value of an unsuitable kind: not iterable, not comparable, no name, no number. -/
  | unsuitable
  /-- A value of the right kind that is out of its bounds. -/
  | badValue
  /-- A number that is too large. -/
  | tooLarge
  /-- An unusable syntax tree. -/
  | tree (cause : TreeFault)
  /-- A parser that ended with a code other than zero. -/
  | parserFailed (command : List String) (code : Int) (complaint : String)
  /-- Declarations that cannot be put in order. -/
  | unresolvable (cause : OrderFault)
  /-- A refusal of the file system. -/
  | file (cause : FileFault) (path : String)
  /-- A refusal in words: the parser cannot be started, or a file would be copied to itself. -/
  | system (text : String)
  /-- Bytes that are not a text. -/
  | notText
  /-- A text that is not in the JSON format. -/
  | notJson (error : Json.ReadError)
  /-- A file that is no archive. -/
  | notAnArchive
  /-- A configuration file with an unknown suffix. -/
  | unsupportedFormat (suffix : String)

namespace Fault

/-- The wording of a fault that is reported to a user. -/
def message : Fault → String
  | .tree cause => cause.message
  | .parserFailed command code complaint =>
    "Parser command " ++ (Json.str (" ".intercalate command)).shown ++ " exited with " ++
      toString code ++ ": " ++ String.ofList (Text.strip complaint.toList)
  | .unresolvable cause => cause.message
  | .file cause path => cause.words ++ ": " ++ (Json.str path).shown
  | .system text => text
  | .unsupportedFormat suffix => "Unsupported config file format: " ++ suffix
  | _ => ""

/-- Whether a fault concerns one file and leaves the others to be processed. -/
def isReported : Fault → Bool
  | .tree _ | .parserFailed .. | .unresolvable _ | .file .. | .system _ => true
  | _ => false

end Fault
end UsageOrder
