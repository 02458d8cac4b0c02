import Mathlib.Data.Char
import Mathlib.Data.List.Lex
import UsageOrder.Proofs.Found

/-!
# Searching a directory

A search reads one directory after the other.  It keeps the directories that are still to be read, and
of each that it reads it takes the source files and puts the directories that it enters in front of the
others (`Search.step`).  What a search has found together with what is found below its pending
directories stays the same in every round but for its order (`Search.promised_step`), and every round
makes the pending trees smaller (`Search.weight_step`).  So a search ends, and it has found what a
recursion over the tree finds (`Search.run_start_perm`).

Where no directory has a name twice, the recursion finds a file behind entered directories
(`Entry.mem_filesOfMembers_iff`) and finds it once (`Entry.nodup_filesBelow`).  Paths are in a linear
order, so there is one way to write the found ones down in this order, in whatever order the directories
list their entries (`SourceFilter.find_relisted`).  A search returns them unless it comes by a path that
is too long to be looked for (`SourceFilter.find_directory`).
-/

namespace UsageOrder

/-! ### The order of paths -/

/-- Two lists are compared by the first items in which they differ. -/
theorem cons_le_cons_iff {α : Type} [LinearOrder α] {a b : α} {as bs : List α} :
    a :: as ≤ b :: bs ↔ a < b ∨ a = b ∧ as ≤ bs := by
  rw [← not_lt, List.cons_lt_cons_iff, not_or, not_lt, not_and, not_lt, le_iff_lt_or_eq]
  constructor
  · rintro ⟨hlt | heq, hrest⟩
    · exact Or.inl hlt
    · exact Or.inr ⟨heq, hrest heq.symm⟩
  · rintro (hlt | ⟨heq, hrest⟩)
    · exact ⟨Or.inl hlt, fun heq => absurd heq hlt.ne'⟩
    · exact ⟨Or.inr heq, fun _ => hrest⟩

theorem Text.le_iff {a b : Text} : Text.le a b = true ↔ a ≤ b := by
  induction a generalizing b with
  | nil => exact iff_of_true rfl (not_lt.1 (List.not_lt_nil b))
  | cons c as ih =>
    cases b with
    | nil => exact iff_of_false Bool.false_ne_true (not_le.2 (List.nil_lt_cons c as))
    | cons d bs =>
      rw [Text.le, cons_le_cons_iff]
      by_cases h : c = d
      · simp [h, ih]
      · simp [h, Char.lt_def, UInt32.lt_iff_toNat_lt]

namespace Path

variable {a b : Path} {as bs : List String}

theorem partsLe_iff : partsLe as bs = true ↔ as.map String.toList ≤ bs.map String.toList := by
  induction as generalizing bs with
  | nil => exact iff_of_true (by rw [partsLe]) (not_lt.1 (List.not_lt_nil _))
  | cons part as ih =>
    cases bs with
    | nil => exact iff_of_false (by simp [partsLe]) (not_le.2 (List.nil_lt_cons _ _))
    | cons other bs =>
      rw [partsLe, List.map_cons, List.map_cons, cons_le_cons_iff, String.toList_inj]
      by_cases h : part = other
      · simp [h, ih]
      · have hlist : part.toList ≠ other.toList := fun heq => h (String.toList_inj.1 heq)
        simp [h, partLe, Text.le_iff, le_iff_lt_or_eq, hlist]

theorem le_iff : a.le b = true ↔ a.parts.map String.toList ≤ b.parts.map String.toList := partsLe_iff

theorem le_of_le_of_le (a b c : Path) (hab : a.le b = true) (hbc : b.le c = true) : a.le c = true :=
  le_iff.2 ((le_iff.1 hab).trans (le_iff.1 hbc))

theorem le_or_le (a b : Path) : (a.le b || b.le a) = true := by
  rw [Bool.or_eq_true, le_iff, le_iff]
  exact le_total _ _

/-- Two paths with the same start that are in either order are one path. -/
theorem eq_of_le_of_le (hslashes : a.slashes = b.slashes) (hab : a.le b = true)
    (hba : b.le a = true) : a = b := by
  have hparts := le_antisymm (le_iff.1 hab) (le_iff.1 hba)
  obtain ⟨_, as⟩ := a
  obtain ⟨_, bs⟩ := b
  rw [Path.mk.injEq]
  exact ⟨hslashes, List.map_injective_iff.2 (fun _ _ => String.toList_inj.1) hparts⟩

end Path

/-! ### Reading one directory after the other -/

/-- A search in progress: the directories that are still to be read, the next one in front, and the
places of the files that have been found. -/
structure Search where
  pending : List (List String × List (String × Entry))
  found : List (List String)

namespace Search

variable {takes enters : String → Bool} {search next : Search} {place : List String}

/-- Takes note of an entry of the directory at a place: a directory is left for later if it is entered,
and a file is found if it is taken. -/
def note (takes enters : String → Bool) (place : List String) (search : Search) :
    String × Entry → Search
  | (name, .directory members _) =>
    if enters name then { search with pending := (place ++ [name], members) :: search.pending }
    else search
  | (name, _) =>
    if takes name then { search with found := search.found ++ [place ++ [name]] } else search

/-- Reads the next directory, if there is one left. -/
def step (takes enters : String → Bool) (search : Search) : Option Search :=
  match search.pending with
  | [] => none
  | (place, members) :: pending =>
    some (members.foldl (note takes enters place) { search with pending })

/-- The size of the trees that are still to be read. -/
noncomputable def weight (search : Search) : Nat :=
  (search.pending.map fun directory => sizeOf directory.2).sum

theorem note_of_file {entry : Entry} (h : entry.isDirectory = false) (search : Search) (name : String) :
    note takes enters place search (name, entry) =
      if takes name then { search with found := search.found ++ [place ++ [name]] } else search := by
  cases entry with
  | directory members changed => exact absurd h (by simp [Entry.isDirectory])
  | _ => rfl

theorem weight_note (search : Search) (member : String × Entry) :
    (note takes enters place search member).weight ≤ search.weight + sizeOf member := by
  obtain ⟨name, entry⟩ := member
  cases hentry : entry.isDirectory with
  | false =>
    rw [note_of_file hentry]
    split_ifs <;> exact Nat.le_add_right _ _
  | true =>
    cases entry with
    | directory members changed =>
      rw [note]
      split_ifs
      · simp only [weight, List.map_cons, List.sum_cons, Prod.mk.sizeOf_spec,
          Entry.directory.sizeOf_spec]
        omega
      · exact Nat.le_add_right _ _
    | _ => exact absurd hentry (by simp [Entry.isDirectory])

theorem weight_foldl_note (members : List (String × Entry)) (search : Search) :
    (members.foldl (note takes enters place) search).weight < search.weight + sizeOf members := by
  induction members generalizing search with
  | nil => simp
  | cons member members ih =>
    have hfirst : (note takes enters place search member).weight ≤ _ := weight_note search member
    have hrest := ih (note takes enters place search member)
    rw [List.foldl_cons, List.cons.sizeOf_spec]
    omega

/-- **Every round makes the pending trees smaller.** -/
theorem weight_step (h : search.step takes enters = some next) : next.weight < search.weight := by
  rw [step] at h
  split at h
  · exact absurd h (by simp)
  · rename_i place members pending hpending
    obtain rfl := Option.some.inj h
    have hread : (members.foldl (note takes enters place) { search with pending }).weight < _ :=
      weight_foldl_note members { search with pending }
    simp only [weight, hpending, List.map_cons, List.sum_cons] at hread ⊢
    omega

/-- Reads directories until none is left, and gives the places of the files that are found. -/
def run (takes enters : String → Bool) (search : Search) : List (List String) :=
  match _hstep : search.step takes enters with
  | none => search.found
  | some next => next.run takes enters
termination_by search.weight
decreasing_by exact weight_step _hstep

/-- Whether the file at a place is taken. -/
def takesAt (takes : String → Bool) (place : List String) : Bool := takes (place.getLast?.getD "")

/-- What a search has found, and what is found below the directories that are still to be read. -/
def promised (takes enters : String → Bool) (search : Search) : List (List String) :=
  search.found ++ search.pending.flatMap fun directory =>
    (Entry.filesOfMembers enters directory.2 directory.1).filter (takesAt takes)

/-- An entry that is noted adds the files at it and below it to what is promised. -/
theorem promised_note (search : Search) (member : String × Entry) :
    ((note takes enters place search member).promised takes enters).Perm
      (search.promised takes enters ++
        (Entry.filesOfMember enters member place).filter (takesAt takes)) := by
  obtain ⟨name, entry⟩ := member
  cases hentry : entry.isDirectory with
  | false =>
    rw [note_of_file hentry, Entry.filesOfMember_of_file hentry]
    have htakes : takesAt takes (place ++ [name]) = takes name := by rw [takesAt]; simp
    cases hname : takes name with
    | false => simp [htakes, hname]
    | true =>
      rw [if_pos rfl, List.filter_singleton, htakes, hname, promised, promised, List.append_assoc,
        List.append_assoc]
      exact (List.perm_append_comm).append_left _
  | true =>
    cases entry with
    | directory members changed =>
      rw [note, Entry.filesOfMember]
      cases henters : enters name with
      | false => simp [Entry.isDirectory]
      | true =>
        rw [promised, promised, List.append_assoc, if_pos rfl, List.flatMap_cons]
        exact (List.perm_append_comm).append_left _
    | _ => exact absurd hentry (by simp [Entry.isDirectory])

theorem promised_foldl_note (members : List (String × Entry)) (search : Search) :
    ((members.foldl (note takes enters place) search).promised takes enters).Perm
      (search.promised takes enters ++
        (Entry.filesOfMembers enters members place).filter (takesAt takes)) := by
  induction members generalizing search with
  | nil => simp [Entry.filesOfMembers]
  | cons member members ih =>
    rw [List.foldl_cons, Entry.filesOfMembers, List.filter_append, ← List.append_assoc]
    exact (ih _).trans ((promised_note search member).append_right _)

/-- **A round keeps what is promised.** -/
theorem promised_step (h : search.step takes enters = some next) :
    (next.promised takes enters).Perm (search.promised takes enters) := by
  rw [step] at h
  split at h
  · exact absurd h (by simp)
  · rename_i place members pending hpending
    obtain rfl := Option.some.inj h
    refine (promised_foldl_note members { search with pending }).trans ?_
    rw [promised, promised, hpending, List.flatMap_cons, List.append_assoc]
    exact (List.perm_append_comm).append_left _

/-- **A search finds what it promises,** since nothing is pending when it ends. -/
theorem run_perm (takes enters : String → Bool) (search : Search) :
    (search.run takes enters).Perm (search.promised takes enters) := by
  induction search using run.induct takes enters with
  | case1 search hdone =>
    have hnone : search.pending = [] := by
      rw [step] at hdone
      split at hdone
      · assumption
      · exact absurd hdone (by simp)
    have hrun : search.run takes enters = search.found := by
      rw [run]
      split <;> simp_all
    rw [hrun, promised, hnone, List.flatMap_nil, List.append_nil]
  | case2 search next hstep ih =>
    have hrun : search.run takes enters = next.run takes enters := by
      rw [run]
      split <;> simp_all
    rw [hrun]
    exact ih.trans (promised_step hstep)

/-- A search at its start: the directory itself is to be read. -/
def start (members : List (String × Entry)) : Search := ⟨[([], members)], []⟩

/-- **A search finds what a recursion over the tree finds.** -/
theorem run_start_perm (takes enters : String → Bool) (members : List (String × Entry)) :
    ((start members).run takes enters).Perm
      ((Entry.filesOfMembers enters members []).filter (takesAt takes)) := by
  refine (run_perm takes enters _).trans ?_
  rw [promised, start, List.nil_append, List.flatMap_singleton]

end Search

/-! ### The files behind entered directories -/

namespace Entry

variable {top : Entry} {members : List (String × Entry)} {changed : ChangeTime}
  {place front : List String} {enters : String → Bool}

theorem filesOfMembers_eq_flatMap (members : List (String × Entry)) (front : List String) :
    filesOfMembers enters members front =
      members.flatMap fun member => filesOfMember enters member front := by
  induction members with
  | nil => rfl
  | cons member members ih => rw [filesOfMembers, ih, List.flatMap_cons]

/-- What is found below an entry starts with its place. -/
theorem prefix_of_mem_filesBelow (h : top.Distinct) (hmem : place ∈ filesBelow enters top front) :
    front <+: place := by
  rcases (mem_filesBelow_iff h).1 hmem with ⟨-, rfl⟩ | ⟨between, name, file, rfl, -⟩
  · exact List.prefix_refl place
  · exact List.append_assoc front .. ▸ List.prefix_append front _

/-- **No file is found twice,** since two members of a directory differ in the names. -/
theorem nodup_filesBelow (h : top.Distinct) : (filesBelow enters top front).Nodup := by
  induction top using induct generalizing front with
  | file content changed => exact List.nodup_singleton front
  | archive inner packed changed => exact List.nodup_singleton front
  | directory members changed ih =>
    have hsub (member : String × Entry) : filesOfMember enters member front ⊆
        filesBelow enters member.2 (front ++ [member.1]) := by
      rw [filesOfMember]
      split_ifs
      · exact List.nil_subset _
      · exact List.Subset.refl _
    rw [filesBelow, filesOfMembers_eq_flatMap, List.nodup_flatMap]
    constructor
    · intro member hmember
      rw [filesOfMember]
      split_ifs
      · exact List.nodup_nil
      · exact ih member hmember (h.of_mem hmember)
    · refine (List.pairwise_map.1 (h [] members changed rfl)).imp_of_mem ?_
      intro member other hmember hother hnames place hplace hplace'
      obtain ⟨rest, rfl⟩ := prefix_of_mem_filesBelow (h.of_mem hmember) (hsub member hplace)
      obtain ⟨rest', heq⟩ := prefix_of_mem_filesBelow (h.of_mem hother) (hsub other hplace')
      simp only [List.append_assoc, List.append_cancel_left_eq, List.cons_append, List.nil_append,
        List.cons.injEq] at heq
      exact hnames heq.1.symm

end Entry

/-! ### What is found in a directory -/

namespace SourceFilter

variable {path file : Path} {recursive : Bool} {world : World} {members : List (String × Entry)}

/-- Where a test of items never fails, the items that pass it are kept. -/
theorem filterM_eq_ok {α : Type} {f : α → Except Fault Bool} {p : α → Bool} {items : List α}
    (h : ∀ item ∈ items, f item = .ok (p item)) : items.filterM f = .ok (items.filter p) := by
  have hrun : ∀ (items done : List α), (∀ item ∈ items, f item = .ok (p item)) →
      items.filterAuxM f done = .ok ((items.filter p).reverse ++ done) := by
    intro items
    induction items with
    | nil => exact fun _ _ => rfl
    | cons item items ih =>
      intro done h
      obtain ⟨hitem, hitems⟩ := List.forall_mem_cons.1 h
      rw [List.filterAuxM, hitem]
      refine (ih _ hitems).trans (congrArg Except.ok ?_)
      cases hp : p item <;> simp [hp]
  rw [List.filterM, hrun items [] h]
  exact congrArg Except.ok (by simp)

/-- The name of a source file: its suffix is one of the extensions in any case of letters, and it does
not end with the suffix of dumps, if there is one. -/
structure IsSourceName (extensions : List String) (suffix name : String) : Prop where
  extension : ∃ extension ∈ extensions,
    Text.lower (Path.suffixOf name.toList) = Text.lower extension.toList
  notDump : suffix ≠ "" → ¬ suffix.toList <:+ name.toList

/-- A source file below a directory: where it is not in the directory itself, the search descends and
no directory between is skipped or hidden. -/
structure IsSourceBelow (extensions : List String) (suffix : String) (recursive : Bool) (top : Entry)
    (between : List String) (name : String) : Prop where
  file : ∃ file, top.seen (between ++ [name]) = some (some file)
  source : IsSourceName extensions suffix name
  entered : between ≠ [] → recursive = true ∧ ∀ part ∈ between,
    part ∉ skippedDirectories ∧ part.toList.head? ≠ some '.'

/-- An entry that a search in a directory comes by, be it a file or a directory: where it is not in the
directory itself, the search descends and no directory between is skipped or hidden. -/
structure IsListed (recursive : Bool) (top : Entry) (between : List String) (name : String) :
    Prop where
  there : top.seen (between ++ [name]) ≠ none
  entered : between ≠ [] → recursive = true ∧ ∀ part ∈ between,
    part ∉ skippedDirectories ∧ part.toList.head? ≠ some '.'

variable {extensions : List String} {suffix name : String} {between : List String}

instance (extensions : List String) (suffix name : String) :
    Decidable (IsSourceName extensions suffix name) :=
  decidable_of_iff ((∃ extension ∈ extensions,
      Text.lower (Path.suffixOf name.toList) = Text.lower extension.toList) ∧
      (suffix ≠ "" → ¬ suffix.toList <:+ name.toList))
    ⟨fun h => ⟨h.1, h.2⟩, fun h => ⟨h.1, h.2⟩⟩

/-- The filter of some extensions and the suffix of dumps. -/
def ofTexts (extensions : List String) (suffix : String) : SourceFilter :=
  ⟨extensions.map fun extension => Text.lower extension.toList, .str suffix⟩

theorem make_eq (extensions : List String) (suffix : String) :
    make (.arr (extensions.map .str)) (.str suffix) = .ok (ofTexts extensions suffix) := by
  refine bind_eq_ok_iff.2 ⟨_, rfl, bind_eq_ok_iff.2
    ⟨extensions.map fun extension => Text.lower extension.toList, ?_, rfl⟩⟩
  rw [mapM_eq_ok_iff, List.forall₂_map_left_iff, List.forall₂_map_right_iff]
  exact List.forall₂_same.2 fun _ _ => rfl

theorem isDump_ofTexts (extensions : List String) (suffix name : String) :
    (ofTexts extensions suffix).isDump name =
      .ok (decide (suffix ≠ "" ∧ suffix.toList <:+ name.toList)) := by
  rw [isDump, ofTexts]
  by_cases hempty : suffix = ""
  · simp [hempty, Json.truthy]
  · simp [hempty, Json.truthy, ← List.isSuffixOf_iff_suffix]

theorem isSource_ofTexts (extensions : List String) (suffix name : String) :
    (ofTexts extensions suffix).isSource name = .ok (decide (IsSourceName extensions suffix name)) := by
  rw [isSource, isDump_ofTexts]
  by_cases hdump : suffix ≠ "" ∧ suffix.toList <:+ name.toList
  · rw [decide_eq_true hdump, decide_eq_false fun h => h.notDump hdump.1 hdump.2]
    rfl
  · rw [decide_eq_false hdump]
    refine congrArg Except.ok (Bool.eq_iff_iff.2 ?_)
    rw [decide_eq_true_iff, List.contains_iff_mem, ofTexts, List.mem_map]
    constructor
    · rintro ⟨extension, hmem, heq⟩
      exact ⟨⟨extension, hmem, heq.symm⟩, fun hsome hends => hdump ⟨hsome, hends⟩⟩
    · rintro ⟨⟨extension, hmem, heq⟩, -⟩
      exact ⟨extension, hmem, heq.symm⟩

/-- The name of a path below another one is the last part. -/
theorem name_join_concat (path : Path) (between : List String) (name : String) :
    (path.join ⟨0, between ++ [name]⟩).name = name := by
  simp [Path.join, Path.name, ← List.append_assoc]

theorem join_inj {place other : List String} (h : path.join ⟨0, place⟩ = path.join ⟨0, other⟩) :
    place = other := by
  simpa [Path.join] using h

/-- A search enters the directories of a way if it descends and none of them is skipped or hidden. -/
theorem forall_enters_iff : (∀ part ∈ between, enters recursive part = true) ↔
    (between ≠ [] → recursive = true ∧ ∀ part ∈ between,
      part ∉ skippedDirectories ∧ part.toList.head? ≠ some '.') := by
  constructor
  · intro h hsome
    have hpart (part : String) (hpart : part ∈ between) : recursive = true ∧
        part ∉ skippedDirectories ∧ part.toList.head? ≠ some '.' := by
      simpa [enters, and_assoc] using h part hpart
    obtain ⟨first, hfirst⟩ := List.exists_mem_of_ne_nil between hsome
    exact ⟨(hpart first hfirst).1, fun part hmem => (hpart part hmem).2⟩
  · intro h part hmem
    obtain ⟨hrecursive, hparts⟩ := h (List.ne_nil_of_mem hmem)
    simpa [enters, hrecursive] using hparts part hmem

/-- The source files below a directory, by their places. -/
theorem mem_places_iff (hdistinct : (Entry.directory members none).Distinct) {place : List String} :
    place ∈ (Entry.filesOfMembers (enters recursive) members []).filter
        (Search.takesAt fun name => decide (IsSourceName extensions suffix name)) ↔
      ∃ between name, place = between ++ [name] ∧
        IsSourceBelow extensions suffix recursive (.directory members none) between name := by
  rw [List.mem_filter, Entry.mem_filesOfMembers_iff hdistinct]
  constructor
  · rintro ⟨⟨between, name, file, rfl, hbehind⟩, htakes⟩
    refine ⟨between, name, rfl, ⟨file, hbehind.there⟩, ?_, forall_enters_iff.1 hbehind.entered⟩
    simpa [Search.takesAt] using htakes
  · rintro ⟨between, name, rfl, hsource⟩
    obtain ⟨file, hfile⟩ := hsource.file
    refine ⟨⟨between, name, file, rfl, hfile, forall_enters_iff.2 hsource.entered⟩, ?_⟩
    simpa [Search.takesAt] using hsource.source

/-- What a search comes by, by its places. -/
theorem mem_listed_iff (hdistinct : (Entry.directory members none).Distinct) {place : List String} :
    place ∈ Entry.listedBelow (enters recursive) (.directory members none) [] ↔
      ∃ between name, place = between ++ [name] ∧
        IsListed recursive (.directory members none) between name := by
  rw [Entry.mem_listedBelow_iff hdistinct]
  constructor
  · rintro ⟨between, name, shown, rfl, hbehind⟩
    exact ⟨between, name, by rw [List.nil_append], by simp [hbehind.there],
      forall_enters_iff.1 hbehind.entered⟩
  · rintro ⟨between, name, rfl, hlisted⟩
    obtain ⟨shown, hshown⟩ := Option.ne_none_iff_exists'.1 hlisted.there
    exact ⟨between, name, shown, by rw [List.nil_append], hshown,
      forall_enters_iff.2 hlisted.entered⟩

theorem isFile_of_directoryAt (h : world.directoryAt path = .ok members) :
    world.isFile path = .ok false := by
  obtain ⟨⟨place, entry⟩, hlocate, h⟩ := bind_eq_ok_iff.1 h
  obtain ⟨-, hplace, hentry⟩ := World.locate_eq_ok_iff.1 hlocate
  refine bind_eq_ok_iff.2 ⟨entry, by rw [World.look, hplace, ← hentry], ?_⟩
  dsimp only at h
  split at h
  · exact absurd h (by simp)
  · rfl
  · exact absurd h (by simp)

/-- The source files among those of a directory, by their paths. -/
theorem select_ofTexts (hdistinct : (Entry.directory members none).Distinct) :
    (ofTexts extensions suffix).select ((Entry.filesOfMembers (enters recursive) members []).map
        fun place => path.join ⟨0, place⟩) =
      .ok (((Entry.filesOfMembers (enters recursive) members []).filter
        (Search.takesAt fun name => decide (IsSourceName extensions suffix name))).map
          fun place => path.join ⟨0, place⟩) := by
  rw [select, filterM_eq_ok fun file _ => isSource_ofTexts extensions suffix file.name,
    List.filter_map]
  refine congrArg Except.ok (congrArg (List.map _) (List.filter_congr fun place hplace => ?_))
  obtain ⟨between, name, -, rfl, -⟩ := (Entry.mem_filesOfMembers_iff hdistinct).1 hplace
  rw [Function.comp_apply, name_join_concat, Search.takesAt, List.getLast?_concat, Option.getD_some]

theorem pairwise_le_mergeSort (files : List Path) :
    (files.mergeSort Path.le).Pairwise fun a b => a.le b = true :=
  List.pairwise_mergeSort Path.le_of_le_of_le Path.le_or_le files

/-- Files with one start are written down in one way, in whatever order they were found. -/
theorem mergeSort_eq_of_perm {files others : List Path} (hperm : files.Perm others)
    (hslashes : ∀ file ∈ files, file.slashes = path.slashes) :
    files.mergeSort Path.le = others.mergeSort Path.le := by
  have hsorted : (files.mergeSort Path.le).Perm (others.mergeSort Path.le) :=
    ((List.mergeSort_perm files _).trans hperm).trans (List.mergeSort_perm others _).symm
  refine hsorted.eq_of_pairwise (fun a b ha hb hab hba => Path.eq_of_le_of_le ?_ hab hba)
    (pairwise_le_mergeSort files) (pairwise_le_mergeSort others)
  rw [hslashes a (List.mem_mergeSort.1 ha), hslashes b (hperm.mem_iff.2 (List.mem_mergeSort.1 hb))]

/-- What a search in a directory comes to when it has looked at all that it lists: the files that are
found there, from a recursion over the tree. -/
theorem find_eq_bind (extensions : List String) (suffix : String) (recursive : Bool)
    (hmembers : world.directoryAt path = .ok members)
    (hdistinct : (Entry.directory members none).Distinct) :
    (ofTexts extensions suffix).find path recursive world =
      lookBelow path recursive members world >>= fun _ =>
        .ok ((((Entry.filesOfMembers (enters recursive) members []).filter
          (Search.takesAt fun name => decide (IsSourceName extensions suffix name))).map
            fun place => path.join ⟨0, place⟩).mergeSort Path.le) := by
  have hbelow : (ofTexts extensions suffix).inDirectory path recursive members = .ok _ :=
    bind_eq_ok_iff.2 ⟨_, select_ofTexts hdistinct, rfl⟩
  rw [find, isFile_of_directoryAt hmembers, hmembers, ← hbelow]
  rfl

/-- The files that are returned are those that a recursion over the tree finds. -/
theorem find_eq_ok (hmembers : world.directoryAt path = .ok members)
    (hdistinct : (Entry.directory members none).Distinct) {found : List Path}
    (h : (ofTexts extensions suffix).find path recursive world = .ok found) :
    found = (((Entry.filesOfMembers (enters recursive) members []).filter
      (Search.takesAt fun name => decide (IsSourceName extensions suffix name))).map
        fun place => path.join ⟨0, place⟩).mergeSort Path.le := by
  rw [find_eq_bind extensions suffix recursive hmembers hdistinct] at h
  obtain ⟨-, -, h⟩ := bind_eq_ok_iff.1 h
  exact (Except.ok.inj h).symm

theorem nodup_places (extensions : List String) (suffix : String) (recursive : Bool)
    (hdistinct : (Entry.directory members none).Distinct) :
    ((Entry.filesOfMembers (enters recursive) members []).filter
      (Search.takesAt fun name => decide (IsSourceName extensions suffix name))).Nodup := by
  rw [← Entry.filesBelow]
  exact (Entry.nodup_filesBelow hdistinct).filter _

theorem slashes_of_mem_map {places : List (List String)} :
    ∀ file ∈ places.map fun place => path.join ⟨0, place⟩, file.slashes = path.slashes := by
  intro file hfile
  obtain ⟨place, -, rfl⟩ := List.mem_map.1 hfile
  rfl

/-- **The order in which directories list their entries does not matter:** where the same files are
there, the same are found. -/
theorem find_relisted {world' : World} {members' : List (String × Entry)} {found found' : List Path}
    (hmembers : world.directoryAt path = .ok members)
    (hdistinct : (Entry.directory members none).Distinct)
    (hmembers' : world'.directoryAt path = .ok members')
    (hdistinct' : (Entry.directory members' none).Distinct)
    (hfiles : ∀ place, (∃ file, (Entry.directory members none).seen place = some (some file)) ↔
      ∃ file, (Entry.directory members' none).seen place = some (some file))
    (hfound : (ofTexts extensions suffix).find path recursive world = .ok found)
    (hfound' : (ofTexts extensions suffix).find path recursive world' = .ok found') :
    found' = found := by
  rw [find_eq_ok hmembers hdistinct hfound, find_eq_ok hmembers' hdistinct' hfound']
  refine mergeSort_eq_of_perm (List.Perm.map _ ?_) slashes_of_mem_map
  refine (List.perm_ext_iff_of_nodup (nodup_places extensions suffix recursive hdistinct')
    (nodup_places extensions suffix recursive hdistinct)).2 fun place => ?_
  rw [mem_places_iff hdistinct, mem_places_iff hdistinct']
  refine exists_congr fun between => exists_congr fun name => and_congr_right fun _ => ?_
  exact ⟨fun h => ⟨(hfiles _).2 h.file, h.source, h.entered⟩,
    fun h => ⟨(hfiles _).1 h.file, h.source, h.entered⟩⟩

/-- **What is found in a directory:** each source file in it, or below it when the search descends, once
and in the order of paths.  Reading one directory after the other finds the same.  These files are
returned, unless the search comes by an entry whose path is too long; then it fails at such a path. -/
theorem find_directory (extensions : List String) (suffix : String) (recursive : Bool)
    (hmembers : world.directoryAt path = .ok members)
    (hdistinct : (Entry.directory members none).Distinct) :
    ∃ filter found, make (.arr (extensions.map .str)) (.str suffix) = .ok filter ∧
      (filter.find path recursive world = .ok found ∨
        ∃ between name, IsListed recursive (.directory members none) between name ∧
          (path.join ⟨0, between ++ [name]⟩).TooLong ∧
          filter.find path recursive world =
            .error (.file .nameTooLong (path.join ⟨0, between ++ [name]⟩).toText)) ∧
      found.Pairwise (fun a b => a.le b = true ∧ a ≠ b) ∧
      (∀ file, file ∈ found ↔ ∃ between name, file = path.join ⟨0, between ++ [name]⟩ ∧
        IsSourceBelow extensions suffix recursive (.directory members none) between name) ∧
      found = (((Search.start members).run
          (fun name => decide (IsSourceName extensions suffix name)) (enters recursive)).map
        fun place => path.join ⟨0, place⟩).mergeSort Path.le := by
  have hrun := Search.run_start_perm (fun name => decide (IsSourceName extensions suffix name))
    (enters recursive) members
  refine ⟨_, _, make_eq extensions suffix, ?returned, ?ascending, ?files,
    mergeSort_eq_of_perm (hrun.symm.map _) slashes_of_mem_map⟩
  case returned =>
    rw [find_eq_bind extensions suffix recursive hmembers hdistinct]
    rcases lookBelow_cases path recursive members world with hlook | ⟨place, hplace, hlong, hlook⟩
    · exact Or.inl (by rw [hlook]; rfl)
    · obtain ⟨between, name, rfl, hlisted⟩ := (mem_listed_iff hdistinct).1 hplace
      exact Or.inr ⟨between, name, hlisted, hlong, by rw [hlook]; rfl⟩
  case ascending =>
    have hplaces := nodup_places extensions suffix recursive hdistinct
    exact (pairwise_le_mergeSort _).and
      ((List.mergeSort_perm _ _).nodup_iff.2 (hplaces.map fun _ _ heq => join_inj heq))
  case files =>
    intro file
    rw [List.mem_mergeSort, List.mem_map]
    constructor
    · rintro ⟨place, hplace, rfl⟩
      obtain ⟨between, name, rfl, hsource⟩ := (mem_places_iff hdistinct).1 hplace
      exact ⟨between, name, rfl, hsource⟩
    · rintro ⟨between, name, rfl, hsource⟩
      exact ⟨_, (mem_places_iff hdistinct).2 ⟨between, name, rfl, hsource⟩, rfl⟩

/-! ### A directory with packages and a hidden directory in it -/

section
set_option maxRecDepth 2000

/-- A directory of sources, installed packages and a hidden directory. -/
def mixedMembers : List (String × Entry) :=
  [("node_modules", .directory [("index.js", .file (.text []) none)] none),
    ("components", .directory [("Button.jsx", .file (.text []) none)] none),
    (".cache", .directory [("App.jsx", .file (.text []) none)] none)]

/-- A world that has this directory as its root. -/
def mixedWorld : World where
  files := .directory mixedMembers none
  workingDirectory := []
  home := ⟨1, []⟩
  environment := []
  now := 0
  parser := fun _ _ => .notStarted ""

/-- The component is found, and neither the package nor the hidden file is. -/
theorem find_directory_mixed : mixedWorld.directoryAt ⟨1, []⟩ = .ok mixedMembers ∧
    (Entry.directory mixedMembers none).Distinct ∧
    ∃ filter found, make (.arr [.str ".js", .str ".JSX"]) (.str ".estree.json") = .ok filter ∧
      filter.find ⟨1, []⟩ true mixedWorld = .ok found ∧
      found.Pairwise (fun a b => a.le b = true ∧ a ≠ b) ∧
      ⟨1, ["components", "Button.jsx"]⟩ ∈ found ∧ ⟨1, ["node_modules", "index.js"]⟩ ∉ found ∧
      ⟨1, [".cache", "App.jsx"]⟩ ∉ found := by
  have hmembers : mixedWorld.directoryAt ⟨1, []⟩ = .ok mixedMembers := rfl
  have hdistinct : (Entry.directory mixedMembers none).Distinct := by
    have hsingle {name : String} (hname : Path.IsName name) :
        (Entry.directory [(name, .file (.text []) none)] none).Tidy :=
      Entry.tidy_singleton hname (Entry.tidy_leaf rfl)
    exact (Entry.tidy_directory (by decide) (List.forall_mem_cons.2
      ⟨⟨by decide, hsingle (by decide)⟩, List.forall_mem_cons.2
        ⟨⟨by decide, hsingle (by decide)⟩, List.forall_mem_singleton.2
          ⟨by decide, hsingle (by decide)⟩⟩⟩)).distinct
  obtain ⟨filter, found, hfilter, hfound, hascending, hfiles, -⟩ :=
    find_directory [".js", ".JSX"] ".estree.json" true hmembers hdistinct
  have hshort : ∀ place ∈ Entry.listedBelow (enters true) (.directory mixedMembers none) [],
      ¬ ((⟨1, []⟩ : Path).join ⟨0, place⟩).TooLong := by decide
  have hfound := hfound.resolve_right fun ⟨between, name, hlisted, hlong, _⟩ =>
    hshort _ ((mem_listed_iff hdistinct).2 ⟨between, name, rfl, hlisted⟩) hlong
  have hskipped {first name : String}
      (hfirst : first ∈ skippedDirectories ∨ first.toList.head? = some '.') :
      ⟨1, [first, name]⟩ ∉ found := by
    intro hmem
    obtain ⟨between, last, hpath, hsource⟩ := (hfiles _).1 hmem
    have hparts : [first] ++ [name] = between ++ [last] := congrArg Path.parts hpath
    obtain ⟨rfl, -⟩ := List.append_inj' hparts rfl
    obtain ⟨-, hparts⟩ := hsource.entered (List.cons_ne_nil _ _)
    obtain ⟨hname, hhidden⟩ := hparts first (List.mem_singleton_self _)
    exact hfirst.elim hname hhidden
  refine ⟨hmembers, hdistinct, filter, found, hfilter, hfound, hascending, (hfiles _).2 ?_,
    hskipped (Or.inl (by decide)), hskipped (Or.inr (by decide))⟩
  exact ⟨["components"], "Button.jsx", rfl, ⟨_, rfl⟩,
    ⟨⟨".JSX", List.mem_cons_of_mem _ (List.mem_singleton_self _), by cbv⟩, fun _ => by decide⟩,
    fun _ => ⟨rfl, by decide⟩⟩

end

end SourceFilter
end UsageOrder
