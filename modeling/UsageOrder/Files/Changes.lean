import UsageOrder.Files.Entry

/-!
# What changed

The difference of two file trees: every file that is new or has another content, every directory
that has become empty, and every one of these that is gone.  A directory without entries is listed
with a slash behind its path.
-/

namespace UsageOrder
namespace Entry

/-- The path of a listed entry. -/
def listedPath (item : List String × Shown) : String :=
  "/".intercalate item.1 ++ (if item.2 = .emptyDirectory then "/" else "")

/-- The listing by path of what is below the top of a tree. -/
def listed : Entry → List (String × Shown)
  | .directory members _ => (listingMembers members []).map fun item => (listedPath item, item.2)
  | _ => []

/-- What differs between two trees, in the order of the paths; none for what is gone. -/
def changes (before after : Entry) : List (String × Option Shown) :=
  let old := before.listed
  let new := after.listed
  let added := (new.filter fun item => decide (old.lookup item.1 ≠ some item.2)).map fun item =>
    (item.1, some item.2)
  let gone := (old.filter fun item => (new.lookup item.1).isNone).map fun item => (item.1, none)
  (added ++ gone).mergeSort fun a b => Text.le a.1.toList b.1.toList

end Entry
end UsageOrder
