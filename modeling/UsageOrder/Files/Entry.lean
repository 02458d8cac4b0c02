import UsageOrder.Files.Path

/-!
# Files and directories

A file tree is a value: a file with its content, an archive, or a directory with named entries.
Places in it are lists of names from the top.

| operation | rule |
|---|---|
| `Entry.at?` | the entry at a place |
| `Entry.put` | sets the entry at a place whose directory is there |
| `Entry.remove` | takes away the entry at a place |
| `Entry.filesBelow` | the places of the files below a directory |
| `Entry.listedBelow` | the places of all that a search below a directory comes by |

Every entry has the time of its last change, which for a directory is the addition or removal of one
of its own entries.  A change made by the operation in progress has no time yet and counts as the
latest.

The tree is all there is.  It has no links: every entry stands at one place, no place leads to another
one, and no two files share their content.  It has no permissions either: every file can be read and
written, and every directory can be listed and changed.
-/

namespace UsageOrder

/-- The content of a file: a text in UTF-8, or bytes that are no text. -/
inductive Content where
  | text (value : Text)
  | bytes (value : List UInt8)
deriving DecidableEq

namespace Content

/-- The content that bytes are. -/
def ofBytes (value : List UInt8) : Content :=
  match String.fromUTF8? value.toByteArray with
  | some s => .text s.toList
  | none => .bytes value

end Content

/-- The time of a change in seconds, none for a change by the operation in progress. -/
abbrev ChangeTime := Option Nat

namespace ChangeTime

/-- Whether a change is not later than another one. -/
def le : ChangeTime → ChangeTime → Bool
  | _, none => true
  | none, some _ => false
  | some a, some b => decide (a ≤ b)

end ChangeTime

/-- A file, an archive of an entry with the place it is unpacked to, or a directory. -/
inductive Entry where
  | file (content : Content) (changed : ChangeTime)
  | archive (place : List String) (packed : Entry) (changed : ChangeTime)
  | directory (members : List (String × Entry)) (changed : ChangeTime)

namespace Entry

/-- Whether an entry is a directory. -/
def isDirectory : Entry → Bool
  | .directory _ _ => true
  | _ => false

/-- The time of the last change of an entry. -/
def changed : Entry → ChangeTime
  | .file _ time => time
  | .archive _ _ time => time
  | .directory _ time => time

/-- The entry of a directory with a name. -/
def child? (name : String) : Entry → Option Entry
  | .directory members _ => members.lookup name
  | _ => none

/-- The entry at a place. -/
def at? : List String → Entry → Option Entry
  | [], entry => some entry
  | name :: place, entry => (entry.child? name).bind (at? place)

/-- Sets a member of a directory: a name that is there keeps its place, a new one comes last. -/
def setMember (name : String) (entry : Entry) : List (String × Entry) → List (String × Entry)
  | [] => [(name, entry)]
  | member :: members =>
    if member.1 = name then (name, entry) :: members else member :: setMember name entry members

/-- Sets the entry at a place below another one; nothing happens if its directory is not there. -/
def put : Entry → List String → Entry → Entry
  | _, [], new => new
  | .directory members changed, name :: place, new =>
    match members.lookup name with
    | some child => .directory (setMember name (child.put place new) members) changed
    | none => if place.isEmpty then .directory (members ++ [(name, new)]) none
      else .directory members changed
  | entry, _ :: _, _ => entry
termination_by structural _ place => place

/-- Takes away the entry at a place. -/
def remove : List String → Entry → Entry
  | [], entry => entry
  | [name], .directory members changed =>
    if (members.lookup name).isSome then
      .directory (members.filter fun member => decide (member.1 ≠ name)) none
    else .directory members changed
  | name :: place, .directory members changed =>
    match members.lookup name with
    | some child => .directory (setMember name (remove place child) members) changed
    | none => .directory members changed
  | _ :: _, entry => entry

mutual
/-- Gives every change that has no time yet the given one. -/
def settle (now : Nat) : Entry → Entry
  | .file content changed => .file content (some (changed.getD now))
  | .archive place packed changed => .archive place packed (some (changed.getD now))
  | .directory members changed => .directory (settleMembers now members) (some (changed.getD now))
termination_by structural entry => entry

/-- Settles the members of a directory. -/
def settleMembers (now : Nat) : List (String × Entry) → List (String × Entry)
  | [] => []
  | member :: members => settleMember now member :: settleMembers now members
termination_by structural members => members

/-- Settles a member of a directory. -/
def settleMember (now : Nat) : String × Entry → String × Entry
  | (name, entry) => (name, settle now entry)
termination_by structural member => member
end

/-- What a listing shows of an entry. -/
inductive Shown where
  | content (value : Content)
  | archive
  | emptyDirectory
deriving DecidableEq

/-- What a listing shows of a file at a place: of an archive no more than that it is one. -/
def shownFile (place : List String) (content : Content) : Shown :=
  if ".tar.gz".toList.isSuffixOf (place.getLast?.getD "").toList then .archive
  else .content content

mutual
/-- The files and the empty directories at a place and below it. -/
def listing : Entry → List String → List (List String × Shown)
  | .file content _, place => [(place, shownFile place content)]
  | .archive _ _ _, place => [(place, .archive)]
  | .directory members _, place =>
    if members.isEmpty then [(place, .emptyDirectory)] else listingMembers members place
termination_by structural entry => entry

/-- The listing of the members of a directory. -/
def listingMembers : List (String × Entry) → List String → List (List String × Shown)
  | [], _ => []
  | member :: members, place => listingMember member place ++ listingMembers members place
termination_by structural members => members

/-- The listing of a member of a directory. -/
def listingMember : String × Entry → List String → List (List String × Shown)
  | (name, entry), place => listing entry (place ++ [name])
termination_by structural member => member
end

mutual
/-- The places of the files at a place and below it; of the directories below it those are searched
whose name is entered. -/
def filesBelow (enters : String → Bool) : Entry → List String → List (List String)
  | .directory members _, place => filesOfMembers enters members place
  | .file _ _, place => [place]
  | .archive _ _ _, place => [place]
termination_by structural entry => entry

/-- The places of the files among the members of a directory and below them. -/
def filesOfMembers (enters : String → Bool) :
    List (String × Entry) → List String → List (List String)
  | [], _ => []
  | member :: members, place =>
    filesOfMember enters member place ++ filesOfMembers enters members place
termination_by structural members => members

/-- The places of the files that a member is or holds. -/
def filesOfMember (enters : String → Bool) : String × Entry → List String → List (List String)
  | (name, entry), place =>
    if entry.isDirectory && !enters name then [] else filesBelow enters entry (place ++ [name])
termination_by structural member => member
end

mutual
/-- The places of all that a search below an entry lists, in its order: the members of a directory, and
then what is below those of them that are entered, from the last one to the first. -/
def listedBelow (enters : String → Bool) : Entry → List String → List (List String)
  | .directory members _, place =>
    members.map (fun member => place ++ [member.1]) ++ listedOfMembers enters members place
  | .file _ _, _ => []
  | .archive _ _ _, _ => []
termination_by structural entry => entry

/-- The places of all that is listed below the members of a directory. -/
def listedOfMembers (enters : String → Bool) :
    List (String × Entry) → List String → List (List String)
  | [], _ => []
  | member :: members, place =>
    listedOfMembers enters members place ++ listedOfMember enters member place
termination_by structural members => members

/-- The places of all that is listed below a member. -/
def listedOfMember (enters : String → Bool) : String × Entry → List String → List (List String)
  | (name, entry), place => if enters name then listedBelow enters entry (place ++ [name]) else []
termination_by structural member => member
end

/-- Follows the parts of a path from a place: two dots lead back, every part but the last has to lead
to a directory, and no part may be too long. -/
def follow (top : Entry) : List String → List String → Except FileFault (List String)
  | place, [] => .ok place
  | place, part :: parts =>
    match top.at? place with
    | some (.directory _ _) =>
      if Path.longestPart < part.utf8ByteSize then .error .nameTooLong
      else follow top (if part = ".." then place.dropLast else place ++ [part]) parts
    | some _ => .error .notADirectory
    | none => .error .notFound

end Entry
end UsageOrder
