import UsageOrder.Proofs.Paths
import UsageOrder.Proofs.SoundTrees

/-!
# What a run leaves as it was

While files are processed, texts are written, files are removed and directories are made.  So a path
that leads somewhere goes on leading there, and a file that is seen either was there at the start or
is a text that was written since (`World.From`).  If no written file has the name of a dump, a dump
is as it was at the start or gone (`From.dump_eq`).

What the operations on files fail with is reported, if their paths have no null character.
-/

namespace UsageOrder

/-! ### Making a directory -/

namespace Entry

variable {top top' : Entry} {place other : List String}

/-- A directory that is made is seen at its place, and everything else as before. -/
theorem seen_put_directory (h : top.seen place = none) (other : List String) :
    (top.put place (.directory [] none)).seen other = top.seen other ∨
      other = place ∧ (top.put place (.directory [] none)).seen other = some none := by
  by_cases hunder : place <+: other
  · obtain ⟨rest, rfl⟩ := hunder
    rcases List.eq_nil_or_concat' place with rfl | ⟨front, name, rfl⟩
    · exact absurd h (by simp [seen, at?])
    · rw [seen_append_of_none h]
      by_cases hparent : top.IsDirectoryAt front
      · rw [seen_put_tree hparent, if_pos (List.prefix_append ..), List.drop_left]
        cases rest with
        | nil => exact Or.inr ⟨List.append_nil _, rfl⟩
        | cons next rest => exact Or.inl rfl
      · exact Or.inl (seen_put_of_not_directory hparent _ name rest)
  · exact Or.inl (seen_put_of_not_under hunder top _)

/-- A path that leads somewhere leads there with more directories as well. -/
theorem follow_mono (h : ∀ place, top.IsDirectoryAt place → top'.IsDirectoryAt place)
    {start parts : List String} (hfollow : top.follow start parts = .ok place) :
    top'.follow start parts = .ok place := by
  induction parts generalizing start with
  | nil => exact hfollow
  | cons part parts ih =>
    obtain ⟨hstart, hlong, hrest⟩ := follow_cons_iff.1 hfollow
    exact follow_cons_iff.2 ⟨h start hstart, hlong, ih hrest⟩

end Entry

/-! ### Worlds that come from another one -/

namespace World

/-- A world that comes from another one by writing texts under names that are not those of dumps,
removing files and making directories. -/
structure From (dumps : List String) (start world : World) : Prop where
  directories : ∀ place, start.files.IsDirectoryAt place → world.files.IsDirectoryAt place
  files : ∀ place file, world.files.seen place = some (some file) →
    start.files.seen place = some (some file) ∨
      (∃ text changed, file = .file (.text text) changed) ∧ ∀ name ∈ place.getLast?, name ∉ dumps
  workingDirectory : world.workingDirectory = start.workingDirectory
  parser : world.parser = start.parser
  /-- The session in progress is in a directory that a disk can have. -/
  session : ∀ session, world.session = some session → session.directory.hasNull = false

namespace From

variable {dumps : List String} {start world world' : World} {path : Path} {place : List String}

theorem refl (dumps : List String)
    (h : ∀ session, start.session = some session → session.directory.hasNull = false) :
    start.From dumps start :=
  ⟨fun _ h => h, fun _ _ h => Or.inl h, rfl, rfl, h⟩

/-- Where a path leads at the start it goes on leading. -/
theorem place_eq (h : start.From dumps world) (hplace : start.place path = .ok place) :
    world.place path = .ok place := by
  rw [World.place] at hplace ⊢
  split_ifs at hplace ⊢
  · rw [h.workingDirectory]
    exact Entry.follow_mono h.directories hplace
  · exact Entry.follow_mono h.directories hplace

/-- The changes of a world that concern no file. -/
theorem of_files_eq (h : start.From dumps world) (hfiles : world'.files = world.files)
    (hdirectory : world'.workingDirectory = world.workingDirectory)
    (hparser : world'.parser = world.parser)
    (hsession : ∀ session, world'.session = some session → session.directory.hasNull = false) :
    start.From dumps world' where
  directories := hfiles ▸ h.directories
  files := hfiles ▸ h.files
  workingDirectory := hdirectory.trans h.workingDirectory
  parser := hparser.trans h.parser
  session := hsession

/-- A text is written under a name that is not that of a dump. -/
theorem write (h : start.From dumps world) (hplace : world.Writable path place)
    (hparts : path.parts ≠ []) (hname : path.name ∉ dumps) (text : Text) (changed : ChangeTime) :
    start.From dumps
      { world with files := world.files.put place (.file (.text text) changed) } where
  directories other hother :=
    (hplace.isDirectoryAt_put_iff hparts rfl).2 (h.directories other hother)
  files other file hseen := by
    rw [hplace.seen_put hparts rfl] at hseen
    split_ifs at hseen with hother
    · obtain ⟨parent, -, rfl⟩ := hplace.exists_parent hparts
      refine Or.inr ⟨⟨text, changed, (Option.some.inj (Option.some.inj hseen)).symm⟩, ?_⟩
      intro name hmem
      rw [hother, List.getLast?_concat] at hmem
      exact Option.some.inj hmem ▸ hname
    · exact h.files other file hseen
  workingDirectory := h.workingDirectory
  parser := h.parser
  session := h.session

/-- A file is removed. -/
theorem remove (h : start.From dumps world) (hplace : world.Writable path place)
    (hparts : path.parts ≠ []) :
    start.From dumps { world with files := world.files.remove place } where
  directories other hother :=
    (hplace.isDirectoryAt_remove_iff hparts).2 (h.directories other hother)
  files other file hseen := by
    rw [hplace.seen_remove hparts] at hseen
    split_ifs at hseen with hother
    exact h.files other file hseen
  workingDirectory := h.workingDirectory
  parser := h.parser
  session := h.session

theorem makeDirectoryUpTo {count : Nat} (h : start.From dumps world)
    (hmake : World.makeDirectoryUpTo path world count = .ok world') : start.From dumps world' := by
  rw [World.makeDirectoryUpTo] at hmake
  split at hmake
  · exact absurd hmake (by simp)
  · rename_i place hplace
    split at hmake
    · rename_i hnone
      obtain rfl := Except.ok.inj hmake
      have hseen : world.files.seen place = none := by rw [Entry.seen, hnone]; rfl
      refine ⟨fun other hother => ?_, fun other file hfile => ?_, h.workingDirectory, h.parser,
        h.session⟩
      · rcases Entry.seen_put_directory hseen other with hsame | ⟨-, hnew⟩
        · exact hsame.trans (h.directories other hother)
        · exact hnew
      · rcases Entry.seen_put_directory hseen other with hsame | ⟨-, hnew⟩
        · exact h.files other file (hsame.symm.trans hfile)
        · exact absurd (hnew.symm.trans hfile) (by simp)
    · obtain rfl := Except.ok.inj hmake
      exact h
    · exact absurd hmake (by simp)

/-- Directories are made. -/
theorem makeDirectories (h : start.From dumps world)
    (hmake : world.makeDirectories path = .ok world') : start.From dumps world' := by
  have hrun : ∀ (counts : List Nat) (world : World), start.From dumps world →
      counts.foldlM (World.makeDirectoryUpTo path) world = .ok world' →
        start.From dumps world' := by
    intro counts
    induction counts with
    | nil => exact fun world h heq => Except.ok.inj heq ▸ h
    | cons count counts ih =>
      intro world h heq
      rw [List.foldlM_cons] at heq
      obtain ⟨next, hnext, hrest⟩ := bind_eq_ok_iff.1 heq
      exact ih next (h.makeDirectoryUpTo hnext) hrest
  rw [World.makeDirectories] at hmake
  split_ifs at hmake
  exact hrun _ world h hmake

end From

/-! ### Contained steps of a world -/

variable {world world' : World} {path : Path} {place : List String}

theorem locate_contained (world : World) (h : path.hasNull = false) :
    Contained (world.locate path) := by
  rw [locate, h]
  simp only [Bool.false_eq_true, if_false]
  split
  · exact Contained.ok _
  · exact fun fault heq => Except.error.inj heq ▸ rfl

theorem pathExists_contained (world : World) (path : Path) : Contained (world.pathExists path) := by
  refine Contained.bind ?_ fun _ _ => Contained.ok _
  rw [look]
  split
  · exact Contained.ok _
  · split
    · exact Contained.ok _
    · exact fun fault heq => Except.error.inj heq ▸ rfl
  · exact Contained.ok _

theorem fileAt_contained (world : World) (h : path.hasNull = false) :
    Contained (world.fileAt path) := by
  refine (world.locate_contained h).bind fun found _ => ?_
  split
  · exact fun fault heq => Except.error.inj heq ▸ rfl
  · exact fun fault heq => Except.error.inj heq ▸ rfl
  · exact Contained.ok _

theorem writeFile_contained (world : World) (h : path.hasNull = false) (file : Entry) :
    Contained (world.writeFile path file) := by
  refine (world.locate_contained h).bind fun found _ => ?_
  split
  · exact fun fault heq => Except.error.inj heq ▸ rfl
  · exact Contained.ok _

theorem removeFile_contained (world : World) (h : path.hasNull = false) :
    Contained (world.removeFile path) := by
  refine (world.locate_contained h).bind fun found _ => ?_
  split
  · exact fun fault heq => Except.error.inj heq ▸ rfl
  · exact fun fault heq => Except.error.inj heq ▸ rfl
  · exact Contained.ok _

theorem makeDirectories_contained (world : World) (h : path.hasNull = false) :
    Contained (world.makeDirectories path) := by
  have hstep : ∀ (world : World) (count : Nat), Contained (makeDirectoryUpTo path world count) := by
    intro world count
    rw [makeDirectoryUpTo]
    split
    · exact fun fault heq => Except.error.inj heq ▸ rfl
    · split
      · exact Contained.ok _
      · exact Contained.ok _
      · exact fun fault heq => Except.error.inj heq ▸ rfl
  have hrun : ∀ (counts : List Nat) (world : World),
      Contained (counts.foldlM (makeDirectoryUpTo path) world) := by
    intro counts
    induction counts with
    | nil => exact fun world => Contained.ok _
    | cons count counts ih =>
      intro world
      rw [List.foldlM_cons]
      exact (hstep world count).bind fun next _ => ih next
  rw [makeDirectories, h]
  simp only [Bool.false_eq_true, if_false]
  split
  · exact fun fault heq => Except.error.inj heq ▸ rfl
  · exact hrun _ world

/-- A path leads to a file exactly when that is what is found there. -/
theorem fileAt_eq_ok_iff {file : Entry} :
    world.fileAt path = .ok file ↔ ∃ place, world.HasFile path place file := by
  rw [fileAt, bind_eq_ok_iff]
  constructor
  · rintro ⟨⟨place, entry⟩, hlocate, hfile⟩
    obtain ⟨hnull, hplace, rfl⟩ := locate_eq_ok_iff.1 hlocate
    split at hfile
    · exact absurd hfile (by simp)
    · exact absurd hfile (by simp)
    · rename_i entry hnot hat
      obtain rfl := Except.ok.inj hfile
      have hleaf : entry.isDirectory = false := by
        cases entry with
        | directory members changed => exact absurd rfl (hnot members changed)
        | _ => rfl
      have hseen := Entry.seen_eq_file_iff.2 ⟨hat, hleaf⟩
      refine ⟨place, ⟨hnull, hplace, fun hdirectory => ?_⟩, hseen⟩
      exact absurd (hseen.symm.trans hdirectory) (by simp)
  · rintro ⟨place, hfile⟩
    obtain ⟨hat, hleaf⟩ := Entry.seen_eq_file_iff.1 hfile.seen
    refine ⟨(place, some file), locate_eq_ok_iff.2 ⟨hfile.noNull, hfile.leads, hat⟩, ?_⟩
    cases file with
    | directory members changed => exact absurd hleaf (by simp [Entry.isDirectory])
    | _ => rfl

/-- A file that is a text can be read. -/
theorem readText_eq_ok_iff {text : Text} : world.readText path = .ok text ↔
    ∃ place value changed, world.HasFile path place (.file (.text value) changed) ∧
      text = value.unifyLineEnds := by
  rw [readText, bind_eq_ok_iff]
  constructor
  · rintro ⟨file, hfile, htext⟩
    obtain ⟨place, hplace⟩ := fileAt_eq_ok_iff.1 hfile
    split at htext
    · exact ⟨place, _, _, hplace, (Except.ok.inj htext).symm⟩
    · exact absurd htext (by simp)
  · rintro ⟨place, value, changed, hplace, rfl⟩
    exact ⟨_, fileAt_eq_ok_iff.2 ⟨place, hplace⟩, rfl⟩

/-- A path that leads to no directory does not end in two dots. -/
theorem Writable.name_ne_dots (h : world.Writable path place) (hparts : path.parts ≠ []) :
    path.name ≠ ".." := by
  intro hdots
  have hplace := h.leads
  rw [World.place] at hplace
  split at hplace
  · exact absurd hplace (by simp)
  · rw [Path.exists_parts hparts, hdots] at hplace
    obtain ⟨parent, -, hparent, -, heq⟩ := Entry.follow_concat_iff.1 hplace
    rw [if_pos rfl] at heq
    exact h.notDirectory (heq ▸ hparent.dropLast)

/-- Reading is contained where only texts are found. -/
theorem readText_contained (h : path.hasNull = false)
    (hfiles : ∀ place file, world.HasFile path place file →
      ∃ text changed, file = .file (.text text) changed) : Contained (world.readText path) := by
  refine (world.fileAt_contained h).bind fun file hfile => ?_
  obtain ⟨place, hplace⟩ := fileAt_eq_ok_iff.1 hfile
  obtain ⟨text, changed, rfl⟩ := hfiles place file hplace
  exact Contained.ok _

/-! ### Files that are read again -/

namespace From

variable {dumps : List String} {start : World} {text json : Text}

/-- Where a text was at the start nothing but texts are found. -/
theorem exists_text (h : start.From dumps world) (hstart : start.readText path = .ok text)
    {file : Entry} (hfile : world.HasFile path place file) :
    ∃ text changed, file = .file (.text text) changed := by
  obtain ⟨place', value, changed, hstart, -⟩ := readText_eq_ok_iff.1 hstart
  obtain rfl : place' = place := Except.ok.inj ((h.place_eq hstart.leads).symm.trans hfile.leads)
  rcases h.files place' file hfile.seen with hsame | ⟨hwritten, -⟩
  · exact ⟨value, changed, Option.some.inj (Option.some.inj (hsame.symm.trans hstart.seen))⟩
  · exact hwritten

/-- **A dump that is still there is the one from the start.** -/
theorem dump_eq (h : start.From dumps world) (hstart : start.readText path = .ok json)
    (hparts : path.parts ≠ []) (hname : path.name ∈ dumps)
    (hread : world.readText path = .ok text) : text = json := by
  obtain ⟨place, value, changed, hdump, rfl⟩ := readText_eq_ok_iff.1 hstart
  obtain ⟨place', value', changed', hfile, rfl⟩ := readText_eq_ok_iff.1 hread
  obtain rfl : place = place' := Except.ok.inj ((h.place_eq hdump.leads).symm.trans hfile.leads)
  rcases h.files place _ hfile.seen with hsame | ⟨-, hnot⟩
  · have heq := Option.some.inj (Option.some.inj (hsame.symm.trans hdump.seen))
    rw [Content.text.inj (Entry.file.inj heq).1]
  · obtain ⟨parent, -, rfl⟩ := hfile.exists_parent hparts
    exact absurd hname (hnot path.name (by rw [List.getLast?_concat]; rfl))

end From
end World
end UsageOrder
