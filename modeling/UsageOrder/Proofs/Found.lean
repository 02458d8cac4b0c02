import UsageOrder.Project.Finder
import UsageOrder.Proofs.Places

/-!
# The files that a search finds

Where no directory has a name twice, a search below a directory gives the places of the files behind
directories that it enters (`Entry.mem_filesOfMembers_iff`), and what it lists are the places of all
entries behind them (`Entry.mem_listedBelow_iff`).  It fails only at one of these whose path is too long
(`SourceFilter.lookBelow_cases`).  So every path that a filter finds leads to a file, and its name is
that of a source file (`SourceFilter.finds_of_mem`).
-/

namespace UsageOrder
namespace Entry

variable {top child : Entry} {members : List (String × Entry)} {changed : ChangeTime}
  {name : String} {place front between : List String} {enters : String → Bool} {shown : Option Entry}

/-- Induction on a tree: what holds of all entries of a directory holds of the directory. -/
theorem induct {motive : Entry → Prop} (file : ∀ content changed, motive (.file content changed))
    (archive : ∀ place packed changed, motive (.archive place packed changed))
    (directory : ∀ members changed, (∀ member ∈ members, motive member.2) →
      motive (.directory members changed)) (entry : Entry) : motive entry :=
  @Entry.rec motive (fun members => ∀ member ∈ members, motive member.2)
    (fun member => motive member.2) file (fun place packed changed _ => archive place packed changed)
    directory (fun _ hmember => absurd hmember List.not_mem_nil)
    (fun _ _ hfirst hrest => List.forall_mem_cons.2 ⟨hfirst, hrest⟩) (fun _ _ hentry => hentry) entry

theorem mem_filesOfMembers : place ∈ filesOfMembers enters members front ↔
    ∃ member ∈ members, place ∈ filesOfMember enters member front := by
  induction members with
  | nil => simp [filesOfMembers]
  | cons member members ih => simp [filesOfMembers, ih]

theorem filesBelow_of_file (h : top.isDirectory = false) : filesBelow enters top place = [place] := by
  cases top with
  | directory members changed => exact absurd h (by simp [isDirectory])
  | _ => rfl

theorem filesOfMember_of_file (h : top.isDirectory = false) :
    filesOfMember enters (name, top) place = [place ++ [name]] := by
  rw [filesOfMember, h, Bool.false_and, if_neg Bool.false_ne_true, filesBelow_of_file h]

theorem mem_listedOfMembers : place ∈ listedOfMembers enters members front ↔
    ∃ member ∈ members, place ∈ listedOfMember enters member front := by
  induction members with
  | nil => simp [listedOfMembers]
  | cons member members ih => simp [listedOfMembers, ih, or_comm]

theorem exists_leaf_iff : (∃ file, child.leaf? = some file) ↔ child.isDirectory = false := by
  constructor
  · rintro ⟨file, hfile⟩
    exact (leaf?_eq_some_iff.1 hfile).2 ▸ (leaf?_eq_some_iff.1 hfile).1 ▸ rfl
  · exact fun hfile => ⟨child, leaf?_eq_some_iff.2 ⟨rfl, hfile⟩⟩

/-- An entry below another one under a name, with directories between that are all entered: the file
that is shown, or a directory if none is. -/
structure Behind (enters : String → Bool) (top : Entry) (between : List String) (name : String)
    (shown : Option Entry) : Prop where
  there : top.seen (between ++ [name]) = some shown
  entered : ∀ part ∈ between, enters part = true

theorem not_behind_of_file (h : top.isDirectory = false) :
    ¬ Behind enters top between name shown := by
  rintro ⟨hthere, -⟩
  obtain ⟨first, rest, hparts⟩ := List.exists_cons_of_ne_nil (List.concat_ne_nil name between)
  obtain ⟨file, hfile⟩ := exists_leaf_iff.2 h
  rw [hparts, seen_cons_of_leaf (by simp [hfile])] at hthere
  exact absurd hthere (by simp)

/-- An entry in a directory. -/
theorem behind_nil_iff : Behind enters (.directory members changed) [] name shown ↔
    ∃ child, members.lookup name = some child ∧ child.leaf? = shown := by
  have hseen : (directory members changed).seen ([] ++ [name]) = (members.lookup name).map leaf? := by
    rw [List.nil_append, seen_directory_cons]
    cases members.lookup name <;> rfl
  constructor
  · rintro ⟨hthere, -⟩
    exact Option.map_eq_some_iff.1 (hseen.symm.trans hthere)
  · intro hthere
    exact ⟨hseen.trans (Option.map_eq_some_iff.2 hthere),
      fun _ hpart => absurd hpart List.not_mem_nil⟩

/-- An entry below a directory that is in another one. -/
theorem behind_cons_iff {first : String} :
    Behind enters (.directory members changed) (first :: between) name shown ↔
      ∃ child, members.lookup first = some child ∧ enters first = true ∧
        Behind enters child between name shown := by
  constructor
  · rintro ⟨hthere, hentered⟩
    rw [List.cons_append, seen_directory_cons] at hthere
    obtain ⟨child, hchild, hthere⟩ := Option.bind_eq_some_iff.1 hthere
    obtain ⟨hfirst, hentered⟩ := List.forall_mem_cons.1 hentered
    exact ⟨child, hchild, hfirst, hthere, hentered⟩
  · rintro ⟨child, hchild, hfirst, hthere, hentered⟩
    refine ⟨?_, List.forall_mem_cons.2 ⟨hfirst, hentered⟩⟩
    rw [List.cons_append, seen_directory_cons, hchild]
    exact hthere

theorem mem_filesBelow_of_file_iff (h : top.isDirectory = false) :
    place ∈ filesBelow enters top front ↔ top.isDirectory = false ∧ place = front ∨
      ∃ between name file, place = front ++ between ++ [name] ∧
        Behind enters top between name (some file) := by
  rw [filesBelow_of_file h, List.mem_singleton, and_iff_right h, or_iff_left]
  rintro ⟨between, name, file, -, hbehind⟩
  exact not_behind_of_file h hbehind

/-- **A file is found if the directories on the way to it are entered,** and nothing else is. -/
theorem mem_filesBelow_iff (h : top.Distinct) : place ∈ filesBelow enters top front ↔
    top.isDirectory = false ∧ place = front ∨
      ∃ between name file, place = front ++ between ++ [name] ∧
        Behind enters top between name (some file) := by
  induction top using induct generalizing front with
  | file content changed => exact mem_filesBelow_of_file_iff rfl
  | archive inner packed changed => exact mem_filesBelow_of_file_iff rfl
  | directory members changed ih =>
    have hfind {name : String} {child : Entry} (hmember : (name, child) ∈ members) :
        members.lookup name = some child := lookup_eq_some_of_mem (h [] members changed rfl) hmember
    rw [filesBelow, mem_filesOfMembers]
    constructor
    · rintro ⟨⟨name, child⟩, hmember, hplace⟩
      refine Or.inr ?_
      cases hchild : child.isDirectory with
      | false =>
        rw [filesOfMember_of_file hchild, List.mem_singleton] at hplace
        obtain ⟨file, hfile⟩ := exists_leaf_iff.2 hchild
        exact ⟨[], name, file, by simpa using hplace,
          behind_nil_iff.2 ⟨child, hfind hmember, hfile⟩⟩
      | true =>
        rw [filesOfMember, hchild, Bool.true_and] at hplace
        split_ifs at hplace with hskips
        · exact absurd hplace List.not_mem_nil
        · obtain ⟨hnot, -⟩ | ⟨between, last, file, rfl, hbehind⟩ :=
            (ih (name, child) hmember (h.of_mem hmember)).1 hplace
          · exact absurd (hnot.symm.trans hchild) (by simp)
          · exact ⟨name :: between, last, file, by simp,
              behind_cons_iff.2 ⟨child, hfind hmember, by simpa using hskips, hbehind⟩⟩
    · rintro (⟨hnot, -⟩ | ⟨between, last, file, rfl, hbehind⟩)
      · exact absurd hnot (by simp [isDirectory])
      · cases between with
        | nil =>
          obtain ⟨child, hchild, hfile⟩ := behind_nil_iff.1 hbehind
          refine ⟨(last, child), mem_of_lookup hchild, ?_⟩
          rw [filesOfMember_of_file (exists_leaf_iff.1 ⟨file, hfile⟩)]
          simp
        | cons first between =>
          obtain ⟨child, hchild, hfirst, hbehind⟩ := behind_cons_iff.1 hbehind
          have hmember := mem_of_lookup hchild
          refine ⟨(first, child), hmember, ?_⟩
          rw [filesOfMember, hfirst, Bool.not_true, Bool.and_false, if_neg Bool.false_ne_true]
          exact (ih (first, child) hmember (h.of_mem hmember)).2
            (Or.inr ⟨between, last, file, by simp, hbehind⟩)

theorem mem_filesOfMembers_iff (h : (directory members changed).Distinct) :
    place ∈ filesOfMembers enters members [] ↔
      ∃ between name file, place = between ++ [name] ∧
        Behind enters (.directory members changed) between name (some file) := by
  have hbelow : place ∈ filesBelow enters (directory members changed) [] ↔ _ := mem_filesBelow_iff h
  rw [← filesBelow, hbelow, or_iff_right fun hnot => absurd hnot.1 (by simp [isDirectory])]
  simp only [List.nil_append]

theorem seen_of_mem_filesOfMembers (h : (directory members changed).Distinct)
    (hmem : place ∈ filesOfMembers enters members []) :
    place ≠ [] ∧ ∃ file, (directory members changed).seen place = some (some file) := by
  obtain ⟨between, name, file, rfl, hbehind⟩ := (mem_filesOfMembers_iff h).1 hmem
  exact ⟨List.concat_ne_nil name between, file, hbehind.there⟩

theorem not_mem_listedBelow_of_file (h : top.isDirectory = false) :
    place ∉ listedBelow enters top front := by
  cases top with
  | directory members changed => exact absurd h (by simp [isDirectory])
  | _ => exact List.not_mem_nil

/-- **An entry is listed if the directories on the way to it are entered,** and nothing else is. -/
theorem mem_listedBelow_iff (h : top.Distinct) : place ∈ listedBelow enters top front ↔
    ∃ between name shown, place = front ++ between ++ [name] ∧
      Behind enters top between name shown := by
  have hfile {entry : Entry} (hentry : entry.isDirectory = false) {front : List String} :
      place ∈ listedBelow enters entry front ↔ ∃ between name shown,
        place = front ++ between ++ [name] ∧ Behind enters entry between name shown :=
    iff_of_false (not_mem_listedBelow_of_file hentry)
      fun ⟨_, _, _, _, hbehind⟩ => not_behind_of_file hentry hbehind
  induction top using induct generalizing front with
  | file content changed => exact hfile rfl
  | archive inner packed changed => exact hfile rfl
  | directory members changed ih =>
    have hfind {name : String} {child : Entry} (hmember : (name, child) ∈ members) :
        members.lookup name = some child := lookup_eq_some_of_mem (h [] members changed rfl) hmember
    rw [listedBelow, List.mem_append, List.mem_map, mem_listedOfMembers]
    constructor
    · rintro (⟨⟨name, child⟩, hmember, rfl⟩ | ⟨⟨name, child⟩, hmember, hplace⟩)
      · exact ⟨[], name, child.leaf?, by simp, behind_nil_iff.2 ⟨child, hfind hmember, rfl⟩⟩
      · rw [listedOfMember] at hplace
        split_ifs at hplace with henters
        · obtain ⟨between, last, shown, rfl, hbehind⟩ :=
            (ih (name, child) hmember (h.of_mem hmember)).1 hplace
          exact ⟨name :: between, last, shown, by simp,
            behind_cons_iff.2 ⟨child, hfind hmember, henters, hbehind⟩⟩
        · exact absurd hplace List.not_mem_nil
    · rintro ⟨between, last, shown, rfl, hbehind⟩
      cases between with
      | nil =>
        obtain ⟨child, hchild, -⟩ := behind_nil_iff.1 hbehind
        exact Or.inl ⟨(last, child), mem_of_lookup hchild, by simp⟩
      | cons first between =>
        obtain ⟨child, hchild, hfirst, hbehind⟩ := behind_cons_iff.1 hbehind
        have hmember := mem_of_lookup hchild
        refine Or.inr ⟨(first, child), hmember, ?_⟩
        rw [listedOfMember, if_pos hfirst]
        exact (ih (first, child) hmember (h.of_mem hmember)).2
          ⟨between, last, shown, by simp, hbehind⟩

/-- A way fails for its length only at a part that is too long. -/
theorem exists_long_of_follow {start parts : List String}
    (h : top.follow start parts = .error .nameTooLong) :
    ∃ part ∈ parts, Path.longestPart < part.utf8ByteSize := by
  induction parts generalizing start with
  | nil => exact absurd h (by simp [follow])
  | cons part parts ih =>
    rw [follow] at h
    split at h
    · split_ifs at h with hlong
      · exact ⟨part, List.mem_cons_self .., hlong⟩
      all_goals
        obtain ⟨other, hother, hlong⟩ := ih h
        exact ⟨other, List.mem_cons_of_mem _ hother, hlong⟩
    · exact absurd h (by simp)
    · exact absurd h (by simp)

end Entry

/-! ### Filters -/

theorem mem_of_filterM {α : Type} {f : α → Except Fault Bool} {items kept : List α}
    (h : items.filterM f = .ok kept) {item : α} (hitem : item ∈ kept) :
    item ∈ items ∧ f item = .ok true := by
  have hrun : ∀ (items done kept : List α), items.filterAuxM f done = .ok kept →
      ∀ item ∈ kept, item ∈ done ∨ item ∈ items ∧ f item = .ok true := by
    intro items
    induction items with
    | nil => exact fun done kept heq item hitem => Or.inl (Except.ok.inj heq ▸ hitem)
    | cons first items ih =>
      intro done kept heq item hitem
      obtain ⟨takes, htakes, heq⟩ := bind_eq_ok_iff.1 heq
      rcases ih _ kept heq item hitem with hdone | ⟨hmem, hf⟩
      · cases takes with
        | false => exact Or.inl hdone
        | true =>
          rcases List.mem_cons.1 hdone with rfl | hdone
          · exact Or.inr ⟨List.mem_cons_self .., htakes⟩
          · exact Or.inl hdone
      · exact Or.inr ⟨List.mem_cons_of_mem _ hmem, hf⟩
  obtain ⟨reversed, hreversed, heq⟩ := bind_eq_ok_iff.1 h
  obtain rfl := Except.ok.inj heq
  exact (hrun items [] reversed hreversed item (List.mem_reverse.1 hitem)).resolve_left
    List.not_mem_nil

/-- A path that is too long to be looked for. -/
def Path.TooLong (path : Path) : Prop :=
  tooLong ≤ path.toText.utf8ByteSize ∨ ∃ part ∈ path.parts, longestPart < part.utf8ByteSize

instance (path : Path) : Decidable path.TooLong :=
  inferInstanceAs (Decidable (_ ∨ _))

namespace World

variable {world : World} {path : Path} {fault : Fault}

/-- A path can be looked for unless it is too long. -/
theorem tooLong_of_look_eq_error (h : world.look path = .error fault) :
    path.TooLong ∧ fault = .file .nameTooLong path.toText := by
  rw [look] at h
  split at h
  · exact absurd h (by simp)
  · rename_i hplace
    split_ifs at h with hnull
    refine ⟨?_, (Except.error.inj h).symm⟩
    rw [place] at hplace
    split_ifs at hplace with hlong
    · exact Or.inl hlong
    all_goals exact Or.inr (Entry.exists_long_of_follow hplace)
  · exact absurd h (by simp)

/-- A path to a file leads to one. -/
theorem WellFormed.hasFile_of_isFile (hworld : world.WellFormed)
    (h : world.isFile path = .ok true) : ∃ place file, world.HasFile path place file := by
  obtain ⟨entry, hlook, hfile⟩ := bind_eq_ok_iff.1 h
  have hfile := Except.ok.inj hfile
  obtain ⟨file, rfl, hleaf⟩ := (Option.any_eq_true ..).1 hfile
  have hexists : world.pathExists path = .ok true := by rw [pathExists, hlook]; rfl
  obtain ⟨place, hplace, -⟩ := pathExists_eq_true_iff.1 hexists
  have hseen : world.files.seen place = some (some file) := by
    rw [look, hplace] at hlook
    exact Entry.seen_eq_file_iff.2 ⟨Except.ok.inj hlook, by simpa using hleaf⟩
  exact ⟨place, file, .of_seen (hworld.nameable.hasNull_of_exists hexists) hplace hseen⟩

theorem at?_of_directoryAt {members : List (String × Entry)} (hdots : ".." ∉ world.workingDirectory)
    (h : world.directoryAt path = .ok members) :
    ∃ changed, world.files.at? (path.spot world.workingDirectory) =
      some (.directory members changed) := by
  obtain ⟨⟨place, entry⟩, hlocate, h⟩ := bind_eq_ok_iff.1 h
  obtain ⟨-, hplace, hentry⟩ := locate_eq_ok_iff.1 hlocate
  obtain ⟨-, rfl⟩ := (place_eq_ok_iff hdots).1 hplace
  dsimp only at h
  split at h
  · exact absurd h (by simp)
  · obtain rfl := Except.ok.inj h
    exact ⟨_, hentry⟩
  · exact absurd h (by simp)

end World

namespace SourceFilter

variable {filter : SourceFilter} {path : Path} {recursive : Bool} {world : World}
  {files : List Path}

/-- A path that a search has found: it leads to a file, and its name is that of a source file. -/
structure Finds (filter : SourceFilter) (world : World) (path : Path) : Prop where
  isSource : filter.isSource path.name = .ok true
  parts : path.parts ≠ []
  name : path.name ≠ ".."
  file : ∃ file, world.files.seen (path.spot world.workingDirectory) = some (some file)

/-- The name of a dump is not that of a source file. -/
theorem ne_of_isSource {name other suffix : String} (hsuffix : filter.astSuffix = .str suffix)
    (hsome : suffix ≠ "") (h : filter.isSource other = .ok true) : other ≠ name ++ suffix := by
  rintro rfl
  have hdump : filter.isDump (name ++ suffix) = .ok true := by
    have htruthy : (Json.str suffix).truthy = true := by simpa [Json.truthy] using hsome
    rw [isDump, hsuffix, htruthy, if_neg (by simp)]
    refine congrArg Except.ok (List.isSuffixOf_iff_suffix.2 ?_)
    rw [String.toList_append]
    exact List.suffix_append _ _
  have hsource : filter.isSource (name ++ suffix) = .ok false := by
    rw [isSource, hdump]
    rfl
  exact absurd (hsource.symm.trans h) (by simp)

/-- A path to a file is found there. -/
theorem finds_of_hasFile (hworld : world.WellFormed) {place : List String} {file : Entry}
    (hfile : world.HasFile path place file) (hsource : filter.isSource path.name = .ok true) :
    filter.Finds world path := by
  obtain ⟨-, rfl⟩ := (World.place_eq_ok_iff hworld.dots_not_mem).1 hfile.leads
  have hparts : path.parts ≠ [] := by
    intro hnil
    have hspot : path.spot world.workingDirectory = _ := Path.spot_eq_foldl hworld.dots_not_mem
    rw [hnil, List.foldl_nil] at hspot
    refine hfile.notDirectory (hspot ▸ ?_)
    split_ifs
    · exact hworld.workingDirectory
    · exact hworld.isDirectoryAt_nil
  exact ⟨hsource, hparts, hfile.name_ne_dots hparts, file, hfile.seen⟩

/-- A path below a directory is found if a file is there. -/
theorem finds_of_directory (hworld : world.WellFormed) {place : List String}
    (hplace : place ≠ []) {file : Entry}
    (hseen : world.files.seen (path.spot world.workingDirectory ++ place) = some (some file))
    (hsource : filter.isSource (path.join ⟨0, place⟩).name = .ok true) :
    filter.Finds world (path.join ⟨0, place⟩) := by
  have hnames := hworld.names _ (by rw [hseen]; simp)
  have hdots : ".." ∉ place := fun hmem => (hnames _ (List.mem_append_right _ hmem)).ne_dots rfl
  have hparts : (path.join ⟨0, place⟩).parts ≠ [] := by simp [Path.join, hplace]
  have hname : (path.join ⟨0, place⟩).name ∈ place := by
    rw [Path.name, Path.join, if_pos rfl]
    dsimp only
    rw [List.getLast?_append_of_ne_nil _ hplace, List.getLast?_eq_some_getLast hplace]
    exact List.getLast_mem hplace
  refine ⟨hsource, hparts, fun heq => hdots (heq ▸ hname), file, ?_⟩
  rwa [Path.spot_join hdots]

/-- The last part of a path that was found is the name of a file. -/
theorem Finds.isName (h : filter.Finds world path) (hworld : world.WellFormed) :
    Path.IsName path.name := by
  obtain ⟨file, hfile⟩ := h.file
  rw [Path.spot_eq_concat h.parts h.name] at hfile
  exact hworld.names _ (by rw [hfile]; simp) _ (List.mem_append_right _ (List.mem_singleton_self _))

/-- What is found in a directory are source files at places that a search gives. -/
theorem exists_place_of_inDirectory {members : List (String × Entry)}
    (h : filter.inDirectory path recursive members = .ok files) {found : Path}
    (hfound : found ∈ files) : ∃ place ∈ Entry.filesOfMembers (enters recursive) members [],
      found = path.join ⟨0, place⟩ ∧ filter.isSource found.name = .ok true := by
  obtain ⟨kept, hkept, h⟩ := bind_eq_ok_iff.1 h
  obtain rfl := Except.ok.inj h
  obtain ⟨hmem, hsource⟩ := mem_of_filterM hkept (List.mem_mergeSort.1 hfound)
  obtain ⟨place, hplace, rfl⟩ := List.mem_map.1 hmem
  exact ⟨place, hplace, rfl, hsource⟩

/-- The places that a search below a directory gives are those of files. -/
theorem seen_of_directoryAt (hworld : world.WellFormed) {members : List (String × Entry)}
    (hmembers : world.directoryAt path = .ok members) {place : List String}
    (hplace : place ∈ Entry.filesOfMembers (enters recursive) members []) :
    place ≠ [] ∧ ∃ file,
      world.files.seen (path.spot world.workingDirectory ++ place) = some (some file) := by
  obtain ⟨changed, hentry⟩ := World.at?_of_directoryAt hworld.dots_not_mem hmembers
  have hdistinct : (Entry.directory members changed).Distinct := by
    intro inner names time hinner
    refine hworld.distinct (path.spot world.workingDirectory ++ inner) names time ?_
    rw [Entry.at?_append, hentry]
    exact hinner
  obtain ⟨hsome, file, hseen⟩ := Entry.seen_of_mem_filesOfMembers hdistinct hplace
  refine ⟨hsome, file, ?_⟩
  rw [Entry.seen, Entry.at?_append, hentry]
  exact hseen

/-- **A search fails only at a path that is too long.** -/
theorem lookBelow_cases (path : Path) (recursive : Bool) (members : List (String × Entry))
    (world : World) : lookBelow path recursive members world = .ok () ∨
      ∃ place ∈ Entry.listedBelow (enters recursive) (.directory members none) [],
        (path.join ⟨0, place⟩).TooLong ∧ lookBelow path recursive members world =
          .error (.file .nameTooLong (path.join ⟨0, place⟩).toText) := by
  cases hlook : lookBelow path recursive members world with
  | ok => exact Or.inl rfl
  | error fault =>
    obtain ⟨place, hplace, hfault⟩ := exists_mem_of_forM_error hlook
    have herror : world.look (path.join ⟨0, place⟩) = .error fault :=
      (bind_eq_error_iff.1 hfault).resolve_right
        fun ⟨_, _, hdone⟩ => absurd hdone (by simp [pure, Except.pure])
    obtain ⟨hlong, rfl⟩ := World.tooLong_of_look_eq_error herror
    exact Or.inr ⟨place, hplace, hlong, rfl⟩

/-- **What a search finds are files.** -/
theorem finds_of_mem (hworld : world.WellFormed) (h : filter.find path recursive world = .ok files)
    {found : Path} (hfound : found ∈ files) : filter.Finds world found := by
  obtain ⟨isFile, hfile, h⟩ := bind_eq_ok_iff.1 h
  cases isFile with
  | true =>
    obtain ⟨hmem, hsource⟩ := mem_of_filterM h hfound
    obtain rfl := List.mem_singleton.1 hmem
    obtain ⟨place, file, hplace⟩ := hworld.hasFile_of_isFile hfile
    exact finds_of_hasFile hworld hplace hsource
  | false =>
    obtain ⟨members, hmembers, h⟩ := bind_eq_ok_iff.1 h
    obtain ⟨-, -, h⟩ := bind_eq_ok_iff.1 h
    obtain ⟨place, hplace, rfl, hsource⟩ := exists_place_of_inDirectory h hfound
    obtain ⟨hsome, file, hseen⟩ := seen_of_directoryAt hworld hmembers hplace
    exact finds_of_directory hworld hsome hseen hsource

end SourceFilter
end UsageOrder
