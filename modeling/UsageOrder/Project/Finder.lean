import UsageOrder.Project.World
import UsageOrder.Text.Lowercase

/-!
# Finding source files

The source files of a directory are the files in it, or below it when the search descends, whose
suffix is one of the given ones in any case of letters.  Dumps of syntax trees are no source files,
and the search does not enter hidden directories or those of built and installed packages.
-/

namespace UsageOrder

/-- Which files are source files. -/
structure SourceFilter where
  /-- The suffixes of source files, in small letters. -/
  extensions : List Text
  /-- The suffix of dumps of syntax trees, a value of any kind. -/
  astSuffix : Json

namespace SourceFilter

/-- The filter of extensions that all are texts. -/
def make (extensions astSuffix : Json) : Except Fault SourceFilter := do
  let extensions ← (← extensions.items).mapM fun extension =>
    match extension with
    | .str s => .ok (Text.lower s.toList)
    | _ => .error .noSuchMember
  .ok { extensions, astSuffix }

/-- Whether a name is that of a dump of a syntax tree. -/
def isDump (filter : SourceFilter) (name : String) : Except Fault Bool :=
  if !filter.astSuffix.truthy then .ok false
  else
    match filter.astSuffix with
    | .str suffix => .ok (suffix.toList.isSuffixOf name.toList)
    | _ => .error .unsuitable

/-- Whether a name is that of a source file. -/
def isSource (filter : SourceFilter) (name : String) : Except Fault Bool := do
  if ← filter.isDump name then .ok false
  else .ok (filter.extensions.contains (Text.lower (Path.suffixOf name.toList)))

/-- The directories that are not searched, besides hidden ones. -/
def skippedDirectories : List String := ["node_modules", "dist", "build", "coverage"]

/-- Whether a search that descends enters a directory. -/
def enters (recursive : Bool) (name : String) : Bool :=
  recursive && !skippedDirectories.contains name && name.toList.head? != some '.'

/-- The source files among paths. -/
def select (filter : SourceFilter) (paths : List Path) : Except Fault (List Path) :=
  paths.filterM fun path => filter.isSource path.name

/-- The source files in the directory at a path, in the order of their paths. -/
def inDirectory (filter : SourceFilter) (path : Path) (recursive : Bool)
    (members : List (String × Entry)) : Except Fault (List Path) := do
  let places := Entry.filesOfMembers (enters recursive) members []
  let found ← filter.select (places.map fun place => path.join ⟨0, place⟩)
  .ok (found.mergeSort Path.le)

/-- Looks at all that a search in the directory at a path lists. -/
def lookBelow (path : Path) (recursive : Bool) (members : List (String × Entry)) (world : World) :
    Except Fault Unit :=
  (Entry.listedBelow (enters recursive) (.directory members none) []).forM fun place => do
    let _ ← world.look (path.join ⟨0, place⟩)

/-- The source files at a path: the file itself, or those in the directory.  A search in a directory
fails when it comes by a path that is too long. -/
def find (filter : SourceFilter) (path : Path) (recursive : Bool) (world : World) :
    Except Fault (List Path) := do
  if ← world.isFile path then filter.select [path]
  else
    let members ← world.directoryAt path
    lookBelow path recursive members world
    filter.inDirectory path recursive members

end SourceFilter
end UsageOrder
