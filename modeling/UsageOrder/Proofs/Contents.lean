import UsageOrder.Proofs.Sessions
import UsageOrder.Proofs.Writing

/-!
# What a file holds, whenever it was changed

A file is kept for what it holds and not for the time of its last change (`Entry.contentAt`).  When an
operation is over its changes get their time, and then every file holds what it held, every directory
is there, and no session counts as being changed (`Entry.contentAt_settle`,
`Entry.isDirectoryAt_settle_iff`, `Entry.Dated.settle`).
-/

namespace UsageOrder
namespace Entry

variable {top entry content : Entry} {place : List String} {members : List (String × Entry)}

theorem undated_undated (file : Entry) : file.undated.undated = file.undated := by
  cases file <;> rfl

/-! ### What a file holds -/

/-- What the file at a place holds, without the time of its last change. -/
def contentAt (top : Entry) (place : List String) : Option Entry :=
  (top.seen place).join.map undated

theorem contentAt_eq_some_iff : top.contentAt place = some content ↔
    ∃ file, top.seen place = some (some file) ∧ file.undated = content := by
  rw [contentAt, Option.map_eq_some_iff]
  simp only [Option.join_eq_some_iff]

theorem contentAt_of_seen {file : Entry} (h : top.seen place = some (some file)) :
    top.contentAt place = some file.undated :=
  contentAt_eq_some_iff.2 ⟨file, h, rfl⟩

theorem contentAt_congr {top' : Entry} (h : top'.seen place = top.seen place) :
    top'.contentAt place = top.contentAt place := by
  rw [contentAt, h, contentAt]

theorem contentAt_append {tree : Entry} {front : List String} (h : top.at? front = some tree)
    (rest : List String) : top.contentAt (front ++ rest) = tree.contentAt rest := by
  rw [contentAt, seen_append, h]
  rfl

/-- A file that is kept without its time holds what it held. -/
theorem undated_of_contentAt (h : top.contentAt place = some content) :
    content.undated = content := by
  obtain ⟨file, -, rfl⟩ := contentAt_eq_some_iff.1 h
  exact undated_undated file

/-! ### Changes that get their time -/

theorem settleMembers_eq_map (now : Nat) (members : List (String × Entry)) :
    settleMembers now members = members.map fun member => (member.1, member.2.settle now) := by
  induction members with
  | nil => rw [settleMembers, List.map_nil]
  | cons member members ih =>
    obtain ⟨name, entry⟩ := member
    rw [settleMembers, settleMember, ih, List.map_cons]

theorem changed_settle (now : Nat) (entry : Entry) : (entry.settle now).changed ≠ none := by
  cases entry <;> simp [settle, changed]

theorem child?_settle (now : Nat) (entry : Entry) (name : String) :
    (entry.settle now).child? name = (entry.child? name).map (settle now) := by
  cases entry with
  | directory members changed =>
    rw [settle, child?, child?, settleMembers_eq_map]
    induction members with
    | nil => rfl
    | cons member members ih =>
      obtain ⟨key, value⟩ := member
      rw [List.map_cons, lookup_member, lookup_member]
      split_ifs with hname
      · rfl
      · exact ih
  | file | archive => simp [settle, child?]

theorem at?_settle (now : Nat) (top : Entry) (place : List String) :
    (top.settle now).at? place = (top.at? place).map (settle now) := by
  induction place generalizing top with
  | nil => rfl
  | cons name place ih =>
    rw [at?, at?, child?_settle]
    cases top.child? name with
    | none => rfl
    | some child => exact ih child

theorem leaf?_settle (now : Nat) (entry : Entry) :
    (entry.settle now).leaf? = entry.leaf?.map (settle now) := by
  cases entry <;> simp [settle, leaf?]

theorem seen_settle (now : Nat) (top : Entry) (place : List String) :
    (top.settle now).seen place = (top.seen place).map (Option.map (settle now)) := by
  rw [seen, at?_settle, seen, Option.map_map, Option.map_map]
  exact congrArg (Option.map · _) (funext fun entry => leaf?_settle now entry)

/-- **Every file holds what it held when its time is set.** -/
theorem contentAt_settle (now : Nat) (top : Entry) (place : List String) :
    (top.settle now).contentAt place = top.contentAt place := by
  have hundated : ∀ entry : Entry, entry.leaf? = some entry →
      (entry.settle now).undated = entry.undated := by
    intro entry hleaf
    cases entry with
    | directory members changed => exact absurd hleaf (by simp [leaf?])
    | file | archive => rfl
  rw [contentAt, contentAt, seen_settle]
  cases hseen : top.seen place with
  | none => rfl
  | some found =>
    cases found with
    | none => rfl
    | some file =>
      have hleaf : file.leaf? = some file :=
        leaf?_eq_some_iff.2 ⟨rfl, (seen_eq_file_iff.1 hseen).2⟩
      exact congrArg some (hundated file hleaf)

theorem isDirectoryAt_settle_iff (now : Nat) :
    (top.settle now).IsDirectoryAt place ↔ top.IsDirectoryAt place := by
  rw [IsDirectoryAt, seen_settle, IsDirectoryAt]
  cases top.seen place with
  | none => simp
  | some found => cases found <;> simp

theorem seen_settle_eq_none_iff (now : Nat) :
    (top.settle now).seen place = none ↔ top.seen place = none := by
  rw [seen_settle, Option.map_eq_none_iff]

/-- No session is being changed once the changes have their time. -/
theorem Dated.settle {base : List String} {new new' : String → Prop} (h : Dated base new top)
    (now : Nat) : Dated base new' (top.settle now) := by
  intro members changed hat
  rw [at?_settle, Option.map_eq_some_iff] at hat
  obtain ⟨old, hold, hsettled⟩ := hat
  cases old with
  | directory inner time =>
    rw [Entry.settle] at hsettled
    obtain ⟨rfl, -⟩ := Entry.directory.inj hsettled
    rw [settleMembers_eq_map]
    refine ⟨?_, fun member hmember _ htime => ?_⟩
    · rw [List.map_map]
      exact (h inner time hold).nodup
    · obtain ⟨older, -, rfl⟩ := List.mem_map.1 hmember
      exact absurd htime (changed_settle now older.2)
  | file | archive => exact absurd hsettled (by simp [Entry.settle])

end Entry

/-- The world at a later time, when the changes made so far have got theirs. -/
def World.later (world : World) (now : Nat) : World := { world.settle with now := now }

end UsageOrder
