import UsageOrder.Proofs.Places
import UsageOrder.Proofs.Written

/-!
# Where copies can be made

Directories can be made for a path unless a file is on its way
(`World.makeDirectories_returns_iff`), and then a copy of a file can be made at their end, or in a
directory that has taken the place of the copy (`World.copies_iff`).  So whether a copy can be made is
a matter of which places on its way are files and which places at its end are directories: what else
changes in a world does not count (`World.Receives.congr`).
-/

namespace UsageOrder

namespace World

variable {world world' grown last : World} {path source copy : Path} {place : List String}

/-! ### Directories that can be made -/

/-- No file is on the way of a path. -/
def Passable (world : World) (path : Path) : Prop :=
  ∀ count file, world.files.seen ((path.upTo count).spot world.workingDirectory) ≠ some (some file)

/-- A place that is a directory when those of a path have been made. -/
def Reaches (world : World) (path : Path) (place : List String) : Prop :=
  world.files.IsDirectoryAt place ∨ ∃ count, place = (path.upTo count).spot world.workingDirectory

theorem upTo_eq_self {count : Nat} (h : path.parts.length ≤ count) : path.upTo count = path := by
  rw [Path.upTo, List.take_of_length_le h]

theorem upTo_upTo {count other : Nat} (h : other ≤ count) :
    (path.upTo count).upTo other = path.upTo other := by
  rw [Path.upTo, Path.upTo, Path.upTo, List.take_take, Nat.min_eq_left h]

/-- **The directories once those of a path have been made.** -/
theorem isDirectoryAt_made_iff (hdots : ".." ∉ world.workingDirectory)
    (hhome : world.files.IsDirectoryAt world.workingDirectory)
    (h : world.makeDirectories path = .ok grown) :
    grown.files.IsDirectoryAt place ↔ world.Reaches path place := by
  have hgrows := (grows_of_makeDirectories h).2
  obtain ⟨hleads, hthere⟩ := isDirectoryAt_of_makeDirectories hdots hhome h
  constructor
  · intro hplace
    rcases hgrows.seen_spot hdots place with hsame | ⟨-, -, hnew⟩
    · exact Or.inl (hsame.symm.trans hplace)
    · exact Or.inr hnew
  · rintro (hplace | ⟨count, rfl⟩)
    · exact hgrows.isDirectoryAt hplace
    · rcases Nat.lt_or_ge count path.parts.length with hlt | hge
      · have hthrough := hleads.through count hlt
        rwa [hgrows.workingDirectory] at hthrough
      · rwa [upTo_eq_self hge]

/-- The first directories of a path can be made when no file is on its way. -/
theorem exists_made (hdots : ".." ∉ world.workingDirectory)
    (hhome : world.files.IsDirectoryAt world.workingDirectory) (husable : path.Usable)
    (hpassable : world.Passable path) (total : Nat) :
    ∃ grown, (List.range total).foldlM (makeDirectoryUpTo path) world = .ok grown ∧
      Grows path world grown ∧ ∀ count < total,
        grown.files.IsDirectoryAt ((path.upTo count).spot world.workingDirectory) := by
  induction total with
  | zero => exact ⟨world, rfl, .refl, fun count hcount => absurd hcount (Nat.not_lt_zero _)⟩
  | succ total ih =>
    obtain ⟨between, hbetween, hgrows, hmade⟩ := ih
    have hworking := hgrows.workingDirectory
    have hpart : (path.upTo total).Usable :=
      husable.of_sublist (Nat.le_refl _) (List.take_sublist _ _)
    have hleads : between.Leads (path.upTo total) := {
      short := hpart.short
      parts := hpart.parts
      through := fun count hcount => by
        have hlt : count < total := by
          rw [Path.upTo, List.length_take] at hcount
          omega
        rw [upTo_upTo hlt.le, hworking]
        exact hmade count hlt }
    obtain ⟨grown, hgrown⟩ : ∃ grown, makeDirectoryUpTo path between total = .ok grown := by
      have hplace := (place_eq_ok_iff (hworking ▸ hdots)).2 ⟨hleads, rfl⟩
      cases hseen : between.files.seen ((path.upTo total).spot between.workingDirectory) with
      | none =>
        exact ⟨_, makeDirectoryUpTo_eq_ok_iff.2
          ⟨_, hplace, Or.inl ⟨Option.map_eq_none_iff.1 hseen, rfl⟩⟩⟩
      | some found =>
        cases found with
        | none => exact ⟨_, makeDirectoryUpTo_eq_ok_iff.2 ⟨_, hplace, Or.inr ⟨hseen, rfl⟩⟩⟩
        | some file =>
          rw [hworking] at hseen
          exact absurd ((hgrows.sameFiles _ file).1 hseen) (hpassable total file)
    obtain ⟨-, hgrows', hthere⟩ := isDirectoryAt_of_makeDirectoryUpTo (hworking ▸ hdots)
      (hworking ▸ hgrows.isDirectoryAt hhome) hgrown
    rw [hworking] at hthere
    refine ⟨grown, ?_, hgrows.trans hgrows', fun count hcount => ?_⟩
    · rw [List.range_succ, List.foldlM_append, hbetween]
      exact bind_eq_ok_iff.2 ⟨between, rfl, bind_eq_ok_iff.2 ⟨grown, hgrown, rfl⟩⟩
    · rcases Nat.lt_succ_iff_lt_or_eq.1 hcount with hlt | rfl
      · exact hgrows'.isDirectoryAt (hmade count hlt)
      · exact hthere

/-- **Directories can be made unless a file is on the way.** -/
theorem makeDirectories_returns_iff (hdots : ".." ∉ world.workingDirectory)
    (hhome : world.files.IsDirectoryAt world.workingDirectory) :
    (∃ grown, world.makeDirectories path = .ok grown) ↔ path.Usable ∧ world.Passable path := by
  constructor
  · rintro ⟨grown, h⟩
    obtain ⟨hnull, hgrows⟩ := grows_of_makeDirectories h
    obtain ⟨hleads, -⟩ := isDirectoryAt_of_makeDirectories hdots hhome h
    refine ⟨⟨hnull, hleads.short, hleads.parts⟩, fun count file hfile => ?_⟩
    have hthere := (isDirectoryAt_made_iff hdots hhome h).2 (Or.inr ⟨count, rfl⟩)
    exact absurd (((hgrows.sameFiles _ file).2 hfile).symm.trans hthere) (by simp)
  · rintro ⟨husable, hpassable⟩
    obtain ⟨grown, hmade, -⟩ := exists_made hdots hhome husable hpassable (path.parts.length + 1)
    refine ⟨grown, ?_⟩
    rw [makeDirectories, husable.noNull, if_neg (by simp), if_neg (Nat.not_le.2 husable.short)]
    exact hmade

/-! ### Copies that can be made -/

/-- **A path at which a copy of a file can be made,** together with the directories on its way; if it
is itself a directory then, the copy is made in it. -/
structure Receives (world : World) (copy : Path) (name : String) : Prop where
  usable : copy.Usable
  passable : world.Passable copy.parent
  inside : world.Reaches copy.parent (copy.spot world.workingDirectory) →
    (copy.join ⟨0, [name]⟩).Usable ∧
      ¬ world.Reaches copy.parent ((copy.join ⟨0, [name]⟩).spot world.workingDirectory)

theorem parent_upTo {count : Nat} (h : count < copy.parts.length) :
    copy.parent.upTo count = copy.upTo count := by
  rw [Path.upTo, Path.parent, Path.upTo, List.dropLast_eq_take, List.take_take,
    Nat.min_eq_left (by omega)]

/-- A path leads somewhere once the directories on its way have been made. -/
theorem leads_of_made (hdots : ".." ∉ world.workingDirectory)
    (hhome : world.files.IsDirectoryAt world.workingDirectory) (husable : copy.Usable)
    (h : world.makeDirectories copy.parent = .ok grown) : grown.Leads copy where
  short := husable.short
  parts := husable.parts
  through count hcount := by
    rw [(grows_of_makeDirectories h).2.workingDirectory]
    exact (isDirectoryAt_made_iff hdots hhome h).2
      (Or.inr ⟨count, by rw [parent_upTo hcount]⟩)

/-- So does a path in the directory that has taken the place of the copy. -/
theorem leads_inside (hleads : grown.Leads copy) {name : String}
    (husable : (copy.join ⟨0, [name]⟩).Usable)
    (hthere : grown.files.IsDirectoryAt (copy.spot grown.workingDirectory)) :
    grown.Leads (copy.join ⟨0, [name]⟩) where
  short := husable.short
  parts := husable.parts
  through count hcount := by
    have hlength : count ≤ copy.parts.length := by
      rw [Path.join, if_pos rfl, List.length_append] at hcount
      exact Nat.le_of_lt_succ hcount
    rw [Path.upTo_join, if_pos hlength]
    rcases Nat.lt_or_eq_of_le hlength with hlt | rfl
    · exact hleads.through count hlt
    · rwa [upTo_eq_self (Nat.le_refl _)]

/-- Whether a copy is made inside a directory can be told before the directories on its way are made. -/
theorem isDirectory_copy_iff (hdots : ".." ∉ world.workingDirectory)
    (hhome : world.files.IsDirectoryAt world.workingDirectory)
    (h : world.makeDirectories copy.parent = .ok grown) (hleads : grown.Leads copy) :
    grown.isDirectory copy = true ↔
      world.Reaches copy.parent (copy.spot world.workingDirectory) := by
  have hworking := (grows_of_makeDirectories h).2.workingDirectory
  rw [isDirectory_iff, ← isDirectoryAt_made_iff hdots hhome h, ← hworking]
  constructor
  · rintro ⟨place, hplace, hthere⟩
    rwa [← ((place_eq_ok_iff (hworking ▸ hdots)).1 hplace).2]
  · exact fun hthere => ⟨_, (place_eq_ok_iff (hworking ▸ hdots)).2 ⟨hleads, rfl⟩, hthere⟩

theorem receives_of_copied (hdots : ".." ∉ world.workingDirectory)
    (hhome : world.files.IsDirectoryAt world.workingDirectory)
    (hgrown : world.makeDirectories copy.parent = .ok grown)
    (hcopied : grown.copyFile source copy = .ok last) : world.Receives copy source.name := by
  have hworking := (grows_of_makeDirectories hgrown).2.workingDirectory
  have hpassable := ((makeDirectories_returns_iff hdots hhome).1 ⟨grown, hgrown⟩).2
  obtain ⟨-, -, spot, -, hspot, -, -⟩ := copyFile_eq_ok_iff.1 hcopied
  obtain ⟨hleads, rfl⟩ := (place_eq_ok_iff (hworking ▸ hdots)).1 hspot.leads
  rw [copyTarget] at hspot hleads
  split_ifs at hspot hleads with hdirectory
  · obtain ⟨found, hplace, hthere⟩ := isDirectory_iff.1 hdirectory
    have hleads' := ((place_eq_ok_iff (hworking ▸ hdots)).1 hplace).1
    have hinside : (copy.join ⟨0, [source.name]⟩).Usable :=
      ⟨hspot.noNull, hleads.short, hleads.parts⟩
    refine ⟨⟨?_, hleads'.short, hleads'.parts⟩, hpassable, fun _ => ⟨hinside, fun hreached => ?_⟩⟩
    · rw [Path.hasNull_eq_false_iff]
      refine fun part hpart => Path.hasNull_eq_false_iff.1 hspot.noNull part ?_
      rw [Path.join, if_pos rfl]
      exact List.mem_append_left _ hpart
    · rw [← hworking] at hreached
      exact hspot.notDirectory ((isDirectoryAt_made_iff hdots hhome hgrown).2 hreached)
  · refine ⟨⟨hspot.noNull, hleads.short, hleads.parts⟩, hpassable, fun hreached => ?_⟩
    exact absurd ((isDirectory_copy_iff hdots hhome hgrown hleads).2 hreached) hdirectory

theorem Receives.exists_copied (h : world.Receives copy source.name)
    (hdots : ".." ∉ world.workingDirectory)
    (hhome : world.files.IsDirectoryAt world.workingDirectory) {file : Entry}
    (hfile : world.HasFile source place file) (hapart : copy.spot world.workingDirectory ≠ place)
    (hapart' : (copy.join ⟨0, [source.name]⟩).spot world.workingDirectory ≠ place) :
    ∃ grown last, world.makeDirectories copy.parent = .ok grown ∧
      grown.copyFile source copy = .ok last := by
  obtain ⟨grown, hgrown⟩ : ∃ grown, world.makeDirectories copy.parent = .ok grown :=
    (makeDirectories_returns_iff hdots hhome).2 ⟨h.usable.of_sublist (Nat.le_refl _) (List.dropLast_sublist _), h.passable⟩
  have hgrows := (grows_of_makeDirectories hgrown).2
  have hworking := hgrows.workingDirectory
  have hleads := leads_of_made hdots hhome h.usable hgrown
  have hcopy := isDirectory_copy_iff hdots hhome hgrown hleads
  have hmade : ∀ place, grown.files.IsDirectoryAt place ↔ world.Reaches copy.parent place :=
    fun _ => isDirectoryAt_made_iff hdots hhome hgrown
  refine ⟨grown, _, hgrown, copyFile_eq_ok_iff.2
    ⟨place, file, (grown.copyTarget source copy).spot world.workingDirectory, hgrows.hasFile hfile,
      ?_, ?_, rfl⟩⟩
  all_goals
    rw [copyTarget]
    split_ifs with hdirectory
  · have hreached := hcopy.1 hdirectory
    obtain ⟨husable, hfree⟩ := h.inside hreached
    have hinside := leads_inside hleads husable (hworking.symm ▸ (hmade _).2 hreached)
    exact ⟨husable.noNull, (place_eq_ok_iff (hworking ▸ hdots)).2 ⟨hinside, by rw [hworking]⟩,
      fun hthere => hfree ((hmade _).1 hthere)⟩
  · exact ⟨h.usable.noNull, (place_eq_ok_iff (hworking ▸ hdots)).2 ⟨hleads, by rw [hworking]⟩,
      fun hthere => hdirectory (hcopy.2 ((hmade _).1 hthere))⟩
  · exact hapart'
  · exact hapart

/-- **Whether a copy of a file can be made** at the end of directories that are made. -/
theorem copies_iff (hdots : ".." ∉ world.workingDirectory)
    (hhome : world.files.IsDirectoryAt world.workingDirectory) {file : Entry}
    (hfile : world.HasFile source place file) (hapart : copy.spot world.workingDirectory ≠ place)
    (hapart' : (copy.join ⟨0, [source.name]⟩).spot world.workingDirectory ≠ place) :
    (∃ grown last, world.makeDirectories copy.parent = .ok grown ∧
        grown.copyFile source copy = .ok last) ↔ world.Receives copy source.name :=
  ⟨fun ⟨_, _, hgrown, hcopied⟩ => receives_of_copied hdots hhome hgrown hcopied,
    fun h => h.exists_copied hdots hhome hfile hapart hapart'⟩

/-! ### Worlds in which copies can be made alike -/

/-- Two worlds in which the same places on the way to a copy are files, and the same places at its end
are directories when those on the way have been made. -/
structure Alongside (copy : Path) (name : String) (world world' : World) : Prop where
  workingDirectory : world'.workingDirectory = world.workingDirectory
  files : ∀ count, (∃ file, world'.files.seen
      ((copy.parent.upTo count).spot world.workingDirectory) = some (some file)) ↔
    ∃ file, world.files.seen ((copy.parent.upTo count).spot world.workingDirectory) =
      some (some file)
  reaches : world'.Reaches copy.parent (copy.spot world.workingDirectory) ↔
    world.Reaches copy.parent (copy.spot world.workingDirectory)
  inside : world'.Reaches copy.parent ((copy.join ⟨0, [name]⟩).spot world.workingDirectory) ↔
    world.Reaches copy.parent ((copy.join ⟨0, [name]⟩).spot world.workingDirectory)

namespace Alongside

variable {name : String}

theorem symm (h : Alongside copy name world world') : Alongside copy name world' world where
  workingDirectory := h.workingDirectory.symm
  files count := by rw [h.workingDirectory, h.files count]
  reaches := by rw [h.workingDirectory, h.reaches]
  inside := by rw [h.workingDirectory, h.inside]

theorem trans {between : World} (h : Alongside copy name world between)
    (h' : Alongside copy name between world') : Alongside copy name world world' where
  workingDirectory := h'.workingDirectory.trans h.workingDirectory
  files count := by
    have hlater := h'.files count
    rw [h.workingDirectory] at hlater
    exact hlater.trans (h.files count)
  reaches := by
    have hlater := h'.reaches
    rw [h.workingDirectory] at hlater
    exact hlater.trans h.reaches
  inside := by
    have hlater := h'.inside
    rw [h.workingDirectory] at hlater
    exact hlater.trans h.inside

/-- **Copies can be made alike** in such worlds. -/
theorem receives (h : Alongside copy name world world') (hreceives : world.Receives copy name) :
    world'.Receives copy name where
  usable := hreceives.usable
  passable count file hfile := by
    rw [h.workingDirectory] at hfile
    obtain ⟨file, hfile⟩ := (h.files count).1 ⟨file, hfile⟩
    exact hreceives.passable count file hfile
  inside hreached := by
    rw [h.workingDirectory] at hreached ⊢
    obtain ⟨husable, hfree⟩ := hreceives.inside (h.reaches.1 hreached)
    exact ⟨husable, fun hreached => hfree (h.inside.1 hreached)⟩

theorem receives_iff (h : Alongside copy name world world') :
    world'.Receives copy name ↔ world.Receives copy name :=
  ⟨h.symm.receives, h.receives⟩

/-- Directories that are made elsewhere, or on the way, do not count. -/
theorem of_grows {other : Path} (hdots : ".." ∉ world.workingDirectory)
    (hgrows : Grows other world world')
    (hway : ∀ count, (other.upTo count).spot world.workingDirectory = copy.spot world.workingDirectory ∨
        (other.upTo count).spot world.workingDirectory =
          (copy.join ⟨0, [name]⟩).spot world.workingDirectory →
      ∃ count', (other.upTo count).spot world.workingDirectory =
        (copy.parent.upTo count').spot world.workingDirectory) :
    Alongside copy name world world' := by
  have hworking := hgrows.workingDirectory
  have hreaches : ∀ place, (∀ count, place = (other.upTo count).spot world.workingDirectory →
      ∃ count', place = (copy.parent.upTo count').spot world.workingDirectory) →
      (world'.Reaches copy.parent place ↔ world.Reaches copy.parent place) := by
    intro place hplace
    rw [Reaches, Reaches, hworking]
    refine ⟨fun h => h.elim (fun hthere => ?_) Or.inr, fun h => h.imp_left hgrows.isDirectoryAt⟩
    rcases hgrows.seen_spot hdots place with hsame | ⟨-, -, count, hcount⟩
    · exact Or.inl (hsame.symm.trans hthere)
    · exact Or.inr (hplace count hcount)
  exact {
    workingDirectory := hworking
    files := fun count => exists_congr fun file => hgrows.sameFiles _ file
    reaches := hreaches _ fun count hcount => hcount ▸ hway count (Or.inl hcount.symm)
    inside := hreaches _ fun count hcount => hcount ▸ hway count (Or.inr hcount.symm) }

/-- Files that change off the way do not count either. -/
theorem of_files (hworking : world'.workingDirectory = world.workingDirectory)
    (hdirectory : ∀ place, world'.files.IsDirectoryAt place ↔ world.files.IsDirectoryAt place)
    (hfiles : ∀ count, (∃ file, world'.files.seen
        ((copy.parent.upTo count).spot world.workingDirectory) = some (some file)) ↔
      ∃ file, world.files.seen ((copy.parent.upTo count).spot world.workingDirectory) =
        some (some file)) : Alongside copy name world world' where
  workingDirectory := hworking
  files := hfiles
  reaches := by rw [Reaches, Reaches, hworking, hdirectory]
  inside := by rw [Reaches, Reaches, hworking, hdirectory]

end Alongside

end World
end UsageOrder
