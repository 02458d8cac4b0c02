import UsageOrder.Project.World
import UsageOrder.Proofs.Outcome
import UsageOrder.Proofs.Trees

/-!
# Files that are read and changed

All that a run reads from files goes by what is seen at their places, and the two changes that a run
makes to one file change what is seen at one place only.

| change | seen at its place | seen elsewhere |
|---|---|---|
| a file is set (`seen_put`) | the file | as before |
| a file is taken away (`seen_remove`) | nothing | as before |

Neither changes which places are directories, so a path leads where it led (`follow_congr`).  A
path at which a file can be written is `World.Writable`.
-/

namespace UsageOrder
namespace Entry

variable {top top' new : Entry} {place parent other : List String} {name : String}

/-! ### Changes of one file -/

/-- **Setting a file changes what is seen at its place and nowhere else.** -/
theorem seen_put (hparent : top.IsDirectoryAt parent)
    (hplace : ¬ top.IsDirectoryAt (parent ++ [name])) (hnew : new.leaf? = some new)
    (other : List String) :
    (top.put (parent ++ [name]) new).seen other =
      if other = parent ++ [name] then some (some new) else top.seen other := by
  rw [seen_put_tree hparent]
  split_ifs with hunder hother hother
  · rw [hother, List.drop_length]
    exact congrArg some hnew
  · obtain ⟨rest, rfl⟩ := hunder
    have hrest : rest ≠ [] := fun hnil => hother (by rw [hnil, List.append_nil])
    rw [List.drop_left, seen_append_of_not_directory hplace hrest]
    obtain ⟨next, rest, rfl⟩ := List.exists_cons_of_ne_nil hrest
    exact seen_cons_of_leaf (by simp [hnew]) next rest
  · exact absurd (hother ▸ List.prefix_refl _) hunder
  · rfl

/-- **Taking a file away changes what is seen at its place and nowhere else.** -/
theorem seen_remove (hplace : ¬ top.IsDirectoryAt (parent ++ [name])) (other : List String) :
    (top.remove (parent ++ [name])).seen other =
      if other = parent ++ [name] then none else top.seen other := by
  rw [seen_remove_tree]
  split_ifs with hunder hother hother
  · rfl
  · obtain ⟨rest, rfl⟩ := hunder
    have hrest : rest ≠ [] := fun hnil => hother (by rw [hnil, List.append_nil])
    exact (seen_append_of_not_directory hplace hrest).symm
  · exact absurd (hother ▸ List.prefix_refl _) hunder
  · rfl

/-! ### Where a path leads -/

theorem follow_cons_iff {start parts : List String} {part : String} :
    top.follow start (part :: parts) = .ok place ↔
      top.IsDirectoryAt start ∧ part.utf8ByteSize ≤ Path.longestPart ∧
        top.follow (if part = ".." then start.dropLast else start ++ [part]) parts = .ok place := by
  rw [follow, isDirectoryAt_iff]
  cases hstart : top.at? start with
  | none => simp
  | some entry =>
    cases entry with
    | directory members changed =>
      by_cases hlong : Path.longestPart < part.utf8ByteSize
      · simp [hlong, Nat.not_le.2 hlong]
      · simp [hlong, Nat.not_lt.1 hlong]
    | file | archive => simp

/-- The way through one part more. -/
theorem follow_concat_iff {start parts : List String} {part : String} :
    top.follow start (parts ++ [part]) = .ok place ↔
      ∃ parent, top.follow start parts = .ok parent ∧ top.IsDirectoryAt parent ∧
        part.utf8ByteSize ≤ Path.longestPart ∧
          place = if part = ".." then parent.dropLast else parent ++ [part] := by
  induction parts generalizing start with
  | nil =>
    rw [List.nil_append, follow_cons_iff]
    simp only [follow, Except.ok.injEq, exists_eq_left', eq_comm]
  | cons first parts ih =>
    simp only [List.cons_append, follow_cons_iff, ih, ← exists_and_left, and_assoc]

/-- **A path that leads to no directory leads to its name in the directory that its other parts lead
to.** -/
theorem follow_concat_of_not_directory {start parts : List String} {part : String}
    (h : top.follow start (parts ++ [part]) = .ok place) (hplace : ¬ top.IsDirectoryAt place) :
    ∃ parent, top.follow start parts = .ok parent ∧ top.IsDirectoryAt parent ∧
      place = parent ++ [part] := by
  obtain ⟨parent, hfollow, hparent, -, heq⟩ := follow_concat_iff.1 h
  split_ifs at heq with hdots
  · exact absurd (heq ▸ hparent.dropLast) hplace
  · exact ⟨parent, hfollow, hparent, heq⟩

/-- A path leads to the same place in a tree with the same directories. -/
theorem follow_congr (h : ∀ place, top.IsDirectoryAt place ↔ top'.IsDirectoryAt place)
    {start parts : List String} :
    top.follow start parts = .ok place ↔ top'.follow start parts = .ok place := by
  induction parts generalizing start with
  | nil => rfl
  | cons part parts ih => rw [follow_cons_iff, follow_cons_iff, h, ih]

/-- Setting a file leaves the directories as they are. -/
theorem isDirectoryAt_put_iff (hparent : top.IsDirectoryAt parent)
    (hplace : ¬ top.IsDirectoryAt (parent ++ [name])) (hnew : new.leaf? = some new) :
    (top.put (parent ++ [name]) new).IsDirectoryAt other ↔ top.IsDirectoryAt other := by
  rw [IsDirectoryAt, seen_put hparent hplace hnew]
  split_ifs with hother
  · exact iff_of_false (by simp) (hother ▸ hplace)
  · exact Iff.rfl

/-- Taking a file away leaves the directories as they are. -/
theorem isDirectoryAt_remove_iff (hplace : ¬ top.IsDirectoryAt (parent ++ [name])) :
    (top.remove (parent ++ [name])).IsDirectoryAt other ↔ top.IsDirectoryAt other := by
  rw [IsDirectoryAt, seen_remove hplace]
  split_ifs with hother
  · exact iff_of_false (by simp) (hother ▸ hplace)
  · exact Iff.rfl

end Entry

/-! ### Files of a world -/

namespace World

variable {world world' : World} {path : Path} {place : List String} {file : Entry}

/-- A path leads to a place at which there is a file or can be one. -/
structure Writable (world : World) (path : Path) (place : List String) : Prop where
  noNull : path.hasNull = false
  leads : world.place path = .ok place
  notDirectory : ¬ world.files.IsDirectoryAt place

theorem locate_eq_ok_iff {entry : Option Entry} : world.locate path = .ok (place, entry) ↔
    path.hasNull = false ∧ world.place path = .ok place ∧ world.files.at? place = entry := by
  rw [locate]
  cases hnull : path.hasNull with
  | true => simp
  | false =>
    cases hplace : world.place path with
    | error cause => simp
    | ok found =>
      simp only [Bool.false_eq_true, if_false, Except.ok.injEq, Prod.mk.injEq, true_and]
      constructor
      · rintro ⟨rfl, rfl⟩
        exact ⟨rfl, rfl⟩
      · rintro ⟨rfl, rfl⟩
        exact ⟨rfl, rfl⟩

theorem writeFile_eq_ok_iff : world.writeFile path file = .ok world' ↔
    ∃ place, world.Writable path place ∧
      world' = { world with files := world.files.put place file } := by
  rw [writeFile, bind_eq_ok_iff]
  constructor
  · rintro ⟨⟨place, entry⟩, hlocate, hwrite⟩
    obtain ⟨hnull, hplace, rfl⟩ := locate_eq_ok_iff.1 hlocate
    split at hwrite
    · exact absurd hwrite (by simp)
    · rename_i found hnot heq
      obtain ⟨rfl, hfound⟩ := Prod.mk.inj heq
      refine ⟨place, ⟨hnull, hplace, fun hdirectory => ?_⟩, (Except.ok.inj hwrite).symm⟩
      obtain ⟨members, changed, hat⟩ := Entry.isDirectoryAt_iff.1 hdirectory
      exact hnot members changed (hfound.symm.trans hat)
  · rintro ⟨place, ⟨hnull, hplace, hdirectory⟩, rfl⟩
    refine ⟨(place, world.files.at? place), locate_eq_ok_iff.2 ⟨hnull, hplace, rfl⟩, ?_⟩
    split
    · rename_i heq
      exact absurd (Entry.isDirectoryAt_iff.2 ⟨_, _, (Prod.mk.inj heq).2⟩) hdirectory
    · rename_i heq
      obtain ⟨rfl, -⟩ := Prod.mk.inj heq
      rfl

theorem removeFile_eq_ok_iff : world.removeFile path = .ok world' ↔
    ∃ place, world.Writable path place ∧ world.files.seen place ≠ none ∧
      world' = { world with files := world.files.remove place } := by
  have hseen : ∀ place, world.files.seen place ≠ none ↔
      ∃ entry, world.files.at? place = some entry := by
    intro place
    rw [Entry.seen, Ne, Option.map_eq_none_iff, ← Ne, Option.ne_none_iff_exists']
  rw [removeFile, bind_eq_ok_iff]
  constructor
  · rintro ⟨⟨place, entry⟩, hlocate, hremove⟩
    obtain ⟨hnull, hplace, rfl⟩ := locate_eq_ok_iff.1 hlocate
    split at hremove
    · exact absurd hremove (by simp)
    · exact absurd hremove (by simp)
    · rename_i found entry hnot heq
      obtain ⟨rfl, hat⟩ := Prod.mk.inj heq
      refine ⟨place, ⟨hnull, hplace, fun hdirectory => ?_⟩, (hseen place).2 ⟨entry, hat⟩,
        (Except.ok.inj hremove).symm⟩
      obtain ⟨members, changed, hat'⟩ := Entry.isDirectoryAt_iff.1 hdirectory
      exact hnot members changed (Option.some.inj (hat.symm.trans hat'))
  · rintro ⟨place, ⟨hnull, hplace, hdirectory⟩, hthere, rfl⟩
    obtain ⟨entry, hat⟩ := (hseen place).1 hthere
    refine ⟨(place, world.files.at? place), locate_eq_ok_iff.2 ⟨hnull, hplace, rfl⟩, ?_⟩
    split
    · rename_i heq
      exact absurd (hat.symm.trans (Prod.mk.inj heq).2) (by simp)
    · rename_i heq
      exact absurd (Entry.isDirectoryAt_iff.2 ⟨_, _, (Prod.mk.inj heq).2⟩) hdirectory
    · rename_i heq
      obtain ⟨rfl, -⟩ := Prod.mk.inj heq
      rfl

/-- The place of a path with a name is that name in a directory. -/
theorem Writable.exists_parent (h : world.Writable path place) (hparts : path.parts ≠ []) :
    ∃ parent, world.files.IsDirectoryAt parent ∧ place = parent ++ [path.name] := by
  have hplace := h.leads
  rw [World.place] at hplace
  split at hplace
  · exact absurd hplace (by simp)
  · rw [← List.dropLast_append_getLast hparts] at hplace
    obtain ⟨parent, -, hparent, heq⟩ :=
      Entry.follow_concat_of_not_directory hplace h.notDirectory
    refine ⟨parent, hparent, ?_⟩
    rw [heq, Path.name, List.getLast?_eq_some_getLast hparts]
    rfl

/-- A path leads to the same place in a world with the same directories. -/
theorem place_congr
    (h : ∀ place, world.files.IsDirectoryAt place ↔ world'.files.IsDirectoryAt place)
    (hdirectory : world.workingDirectory = world'.workingDirectory) :
    world.place path = .ok place ↔ world'.place path = .ok place := by
  rw [World.place, World.place, hdirectory]
  split_ifs
  · simp
  · exact Entry.follow_congr h
  · exact Entry.follow_congr h

namespace Writable

variable {other : List String}

/-- A path that leads to a place where nothing is can be written. -/
theorem of_unseen (hnull : path.hasNull = false) (hplace : world.place path = .ok place)
    (hunseen : world.files.seen place = none) : world.Writable path place :=
  ⟨hnull, hplace, fun hdirectory => absurd (hunseen.symm.trans hdirectory) (by simp)⟩

theorem of_place (h : world.Writable path place)
    (hsame : ∀ place, world.files.IsDirectoryAt place ↔ world'.files.IsDirectoryAt place)
    (hdirectory : world.workingDirectory = world'.workingDirectory) :
    world'.Writable path place :=
  ⟨h.noNull, (place_congr hsame hdirectory).1 h.leads, fun h' => h.notDirectory ((hsame _).2 h')⟩

theorem seen_put (h : world.Writable path place) (hparts : path.parts ≠ [])
    (hfile : file.leaf? = some file) (other : List String) :
    (world.files.put place file).seen other =
      if other = place then some (some file) else world.files.seen other := by
  obtain ⟨parent, hparent, rfl⟩ := h.exists_parent hparts
  exact Entry.seen_put hparent h.notDirectory hfile other

theorem isDirectoryAt_put_iff (h : world.Writable path place) (hparts : path.parts ≠ [])
    (hfile : file.leaf? = some file) :
    (world.files.put place file).IsDirectoryAt other ↔ world.files.IsDirectoryAt other := by
  obtain ⟨parent, hparent, rfl⟩ := h.exists_parent hparts
  exact Entry.isDirectoryAt_put_iff hparent h.notDirectory hfile

theorem seen_remove (h : world.Writable path place) (hparts : path.parts ≠ [])
    (other : List String) :
    (world.files.remove place).seen other =
      if other = place then none else world.files.seen other := by
  obtain ⟨parent, -, rfl⟩ := h.exists_parent hparts
  exact Entry.seen_remove h.notDirectory other

theorem isDirectoryAt_remove_iff (h : world.Writable path place) (hparts : path.parts ≠ []) :
    (world.files.remove place).IsDirectoryAt other ↔ world.files.IsDirectoryAt other := by
  obtain ⟨parent, -, rfl⟩ := h.exists_parent hparts
  exact Entry.isDirectoryAt_remove_iff h.notDirectory

/-- Paths with different names lead to different files. -/
theorem place_ne {path' : Path} {place' : List String} (h : world.Writable path place)
    (h' : world'.Writable path' place') (hparts : path.parts ≠ []) (hparts' : path'.parts ≠ [])
    (hname : path.name ≠ path'.name) : place ≠ place' := by
  obtain ⟨parent, -, rfl⟩ := h.exists_parent hparts
  obtain ⟨parent', -, rfl⟩ := h'.exists_parent hparts'
  intro heq
  exact hname (List.singleton_inj.1 (List.append_inj' heq rfl).2)

end Writable

/-- A path leads to a file. -/
structure HasFile (world : World) (path : Path) (place : List String) (file : Entry) : Prop
    extends world.Writable path place where
  seen : world.files.seen place = some (some file)

/-- A path that leads to the place of a file leads to this file. -/
theorem HasFile.of_seen (hnull : path.hasNull = false) (hplace : world.place path = .ok place)
    (hseen : world.files.seen place = some (some file)) : world.HasFile path place file where
  noNull := hnull
  leads := hplace
  notDirectory hdirectory := absurd (hseen.symm.trans hdirectory) (by simp)
  seen := hseen

theorem HasFile.at?_eq (h : world.HasFile path place file) : world.at? path = some file := by
  rw [World.at?, h.leads]
  exact (Entry.seen_eq_file_iff.1 h.seen).1

theorem HasFile.pathExists (h : world.HasFile path place file) :
    world.pathExists path = .ok true := by
  rw [World.pathExists, World.look, h.leads]
  simp only [(Entry.seen_eq_file_iff.1 h.seen).1]
  rfl

/-- **What is written is there.** -/
theorem Writable.hasFile_put (h : world.Writable path place) (hparts : path.parts ≠ [])
    (hfile : file.leaf? = some file) :
    ({ world with files := world.files.put place file } : World).HasFile path place file where
  toWritable := h.of_place (fun _ => (h.isDirectoryAt_put_iff hparts hfile).symm) rfl
  seen := by rw [h.seen_put hparts hfile, if_pos rfl]

/-- A file stays when one with another name is taken away. -/
theorem HasFile.remove_other {path' : Path} {place' : List String}
    (h : world.HasFile path place file) (h' : world.Writable path' place')
    (hparts : path.parts ≠ []) (hparts' : path'.parts ≠ []) (hname : path.name ≠ path'.name) :
    ({ world with files := world.files.remove place' } : World).HasFile path place file where
  toWritable := h.of_place (fun _ => (h'.isDirectoryAt_remove_iff hparts').symm) rfl
  seen := by rw [h'.seen_remove hparts', if_neg (h.place_ne h' hparts hparts' hname), h.seen]

end World
end UsageOrder
