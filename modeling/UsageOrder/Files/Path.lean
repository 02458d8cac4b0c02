import UsageOrder.Fault

/-!
# Paths

A path is the number of slashes it starts with and its parts.  Doubled slashes and parts that are a
single dot are dropped when a path is read; two dots stay, because what they stand for is decided by
the file system.

| property | rule |
|---|---|
| `Path.toText` | parts with slashes between them, a dot for the empty path |
| `Path.name` | the last part |
| `Path.suffix` | what stands from the last dot of the name on, if that dot is neither first nor last |
| `Path.le` | part by part, a part being compared by its code points |
-/

namespace UsageOrder

/-- A path: how many slashes it starts with, and its parts. -/
structure Path where
  slashes : Nat
  parts : List String
deriving DecidableEq, Repr, Inhabited

namespace Path

/-- The number of slashes that a path keeps at its start: two if it has exactly two, else at most
one. -/
def keptSlashes (text : Text) : Nat :=
  match (text.takeWhile (· = '/')).length with
  | 0 => 0
  | 2 => 2
  | _ => 1

/-- The parts of a path's text. -/
def partsOf (text : Text) : List String :=
  ((text.pieces '/').filter fun piece => piece ≠ [] && piece ≠ ['.']).map String.ofList

/-- Reads a path. -/
def ofText (s : String) : Path := ⟨keptSlashes s.toList, partsOf s.toList⟩

/-- The text of a path. -/
def toText (path : Path) : String :=
  if path.slashes = 0 ∧ path.parts = [] then "."
  else String.ofList (List.replicate path.slashes '/') ++ "/".intercalate path.parts

/-- The last part of a path. -/
def name (path : Path) : String := path.parts.getLast?.getD ""

/-- What stands in a name from its last dot on, if that dot is neither first nor last. -/
def suffixOf (name : Text) : Text :=
  let tail := (name.reverse.takeWhile (· ≠ '.')).reverse
  let stem := name.length - tail.length
  if tail ≠ [] ∧ 1 < stem then '.' :: tail else []

/-- The suffix of a path's name. -/
def suffix (path : Path) : String := String.ofList (suffixOf path.name.toList)

/-- The path without its last part. -/
def parent (path : Path) : Path := { path with parts := path.parts.dropLast }

/-- A path below another one; a path from the root stays as it is. -/
def join (base path : Path) : Path :=
  if path.slashes = 0 then { base with parts := base.parts ++ path.parts } else path

/-- The path with another name, which has to be a single part; dots behind slashes at its end are
kept as they are written. -/
def withName (path : Path) (name : String) : Except Fault Path :=
  if path.name = "" then .error .badValue
  else if name.toList.getLast? = some '/' ∨ keptSlashes name.toList ≠ 0 ∨
      (partsOf name.toList).length ≠ 1 then .error .badValue
  else .ok { path with parts := path.parts.dropLast ++ [name] }

/-- The comparison of parts: by code points. -/
def partLe (a b : String) : Bool := Text.le a.toList b.toList

/-- The comparison of paths: part by part. -/
def partsLe : List String → List String → Bool
  | [], _ => true
  | _ :: _, [] => false
  | a :: as, b :: bs => if a = b then partsLe as bs else partLe a b

/-- The comparison of paths. -/
def le (a b : Path) : Bool := partsLe a.parts b.parts

/-- Takes back one part for every pair of dots. -/
def collapse (parts : List String) : List String :=
  parts.foldl (fun done part => if part = ".." then done.dropLast else done ++ [part]) []

/-- The path from the root that a path stands for in a working directory, two dots taken back. -/
def resolve (workingDirectory : List String) (path : Path) : Path :=
  ⟨1, collapse (if path.slashes = 0 then workingDirectory ++ path.parts else path.parts)⟩

/-- Whether a path has a null character, which no path on a disk can have. -/
def hasNull (path : Path) : Bool := path.parts.any fun part => part.toList.contains '\x00'

/-- The number of bytes from which on a path is too long. -/
def tooLong : Nat := 4096

/-- The greatest number of bytes that a part of a path can have. -/
def longestPart : Nat := 255

end Path
end UsageOrder
