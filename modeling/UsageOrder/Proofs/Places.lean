import UsageOrder.Proofs.Untouched

/-!
# Where paths lead

In a file tree without links two dots take back the part in front of them, so the place that a path
leads to can be read off its parts (`Path.spot`): a path leads there or nowhere
(`World.place_eq_ok_iff`).  Directories that are made for a path are those of its first parts
(`World.isDirectoryAt_of_makeDirectories`).

The text of a path from the root holds its parts, if these are names that a disk can have
(`Path.ofText_toText`).
-/

namespace UsageOrder

/-! ### Paths and their places -/

/-- A name that an entry of a directory can have. -/
structure Path.IsName (name : String) : Prop where
  ne_empty : name ≠ ""
  ne_dot : name ≠ "."
  ne_dots : name ≠ ".."
  noSlash : '/' ∉ name.toList
  noNull : '\x00' ∉ name.toList

instance (name : String) : Decidable (Path.IsName name) :=
  decidable_of_iff (name ≠ "" ∧ name ≠ "." ∧ name ≠ ".." ∧ '/' ∉ name.toList ∧ '\x00' ∉ name.toList)
    ⟨fun ⟨hempty, hdot, hdots, hslash, hnull⟩ => ⟨hempty, hdot, hdots, hslash, hnull⟩,
      fun h => ⟨h.ne_empty, h.ne_dot, h.ne_dots, h.noSlash, h.noNull⟩⟩

/-- Nothing becomes two dots by what is added to a name. -/
theorem Path.IsName.append_ne_dots {name : String} (h : Path.IsName name) (more : String) :
    name ++ more ≠ ".." := by
  intro heq
  have hlist : name.toList ++ more.toList = ['.', '.'] := by
    rw [← String.toList_append, heq]
    rfl
  rcases List.append_eq_cons_iff.1 hlist with ⟨hempty, -⟩ | ⟨rest, hname, hrest⟩
  · exact h.ne_empty (String.toList_inj.1 hempty)
  · rcases List.append_eq_cons_iff.1 hrest.symm with ⟨rfl, -⟩ | ⟨last, rfl, hlast⟩
    · exact h.ne_dot (String.toList_inj.1 hname)
    · obtain ⟨rfl, -⟩ := List.append_eq_nil_iff.1 hlast.symm
      exact h.ne_dots (String.toList_inj.1 hname)

namespace Path

variable {path base : Path} {workingDirectory parts more place : List String} {name : String}

/-- The path of the first parts of a path. -/
def upTo (path : Path) (count : Nat) : Path := { path with parts := path.parts.take count }

/-- A path that can be looked for: it has no null character, and it is not too long. -/
structure Usable (path : Path) : Prop where
  noNull : path.hasNull = false
  short : path.toText.utf8ByteSize < tooLong
  parts : ∀ part ∈ path.parts, part.utf8ByteSize ≤ longestPart

/-- The place that a path stands for in a working directory. -/
def spot (workingDirectory : List String) (path : Path) : List String :=
  (path.resolve workingDirectory).parts

/-- The place that one part leads to. -/
def advance (place : List String) (part : String) : List String :=
  if part = ".." then place.dropLast else place ++ [part]

theorem foldl_advance (h : ".." ∉ parts) (place : List String) :
    parts.foldl advance place = place ++ parts := by
  induction parts generalizing place with
  | nil => simp
  | cons part parts ih =>
    rw [List.mem_cons, not_or] at h
    rw [List.foldl_cons, ih h.2, advance, if_neg (Ne.symm h.1), List.append_assoc]
    rfl

theorem collapse_append (parts more : List String) :
    collapse (parts ++ more) = more.foldl advance (collapse parts) :=
  List.foldl_append

theorem collapse_eq_self (h : ".." ∉ parts) : collapse parts = parts :=
  foldl_advance h []

/-- No two dots are left when they are taken back. -/
theorem dots_not_mem_collapse (parts : List String) : ".." ∉ collapse parts := by
  induction parts using List.reverseRecOn with
  | nil => exact List.not_mem_nil
  | append_singleton parts last ih =>
    rw [collapse_append, List.foldl_cons, List.foldl_nil, advance]
    split_ifs with hlast
    · exact fun h => ih (List.dropLast_subset _ h)
    · simp [ih, Ne.symm hlast]

theorem spot_eq_foldl (h : ".." ∉ workingDirectory) :
    path.spot workingDirectory =
      path.parts.foldl advance (if path.slashes = 0 then workingDirectory else []) := by
  rw [spot, resolve]
  split_ifs
  · rw [collapse_append, collapse_eq_self h]
  · rfl

/-- A path below another one stands for a place below the other one's. -/
theorem spot_join (h : ".." ∉ more) :
    (base.join ⟨0, more⟩).spot workingDirectory = base.spot workingDirectory ++ more := by
  rw [join, if_pos rfl, spot, spot, resolve, resolve]
  dsimp only
  split_ifs
  · rw [← List.append_assoc, collapse_append, foldl_advance h]
  · rw [collapse_append, foldl_advance h]

theorem spot_root (h : ".." ∉ parts) : (⟨1, parts⟩ : Path).spot workingDirectory = parts :=
  collapse_eq_self h

theorem dots_not_mem_spot (path : Path) (workingDirectory : List String) :
    ".." ∉ path.spot workingDirectory :=
  dots_not_mem_collapse _

/-- The first parts of a path below another one. -/
theorem upTo_join (base : Path) (more : List String) (count : Nat) :
    (base.join ⟨0, more⟩).upTo count =
      if count ≤ base.parts.length then base.upTo count
      else base.join ⟨0, more.take (count - base.parts.length)⟩ := by
  rw [upTo, join, if_pos rfl]
  dsimp only
  rw [List.take_append]
  split_ifs with hcount
  · rw [Nat.sub_eq_zero_of_le hcount, List.take_zero, List.append_nil, upTo]
  · rw [List.take_of_length_le (by omega), join, if_pos rfl]

/-- A path with a name stands for that name in the place of its directory. -/
theorem spot_eq_concat (h : path.parts ≠ []) (hdots : path.name ≠ "..") :
    path.spot workingDirectory = path.parent.spot workingDirectory ++ [path.name] := by
  have hjoin : path = path.parent.join ⟨0, [path.name]⟩ := exists_parts h
  conv_lhs => rw [hjoin]
  exact spot_join (by simpa using Ne.symm hdots)

/-- A path beside another one stands for a place beside the other one's. -/
theorem spot_of_withName {beside : Path} (h : path.withName name = .ok beside)
    (hdots : name ≠ "..") :
    beside.spot workingDirectory = path.parent.spot workingDirectory ++ [name] := by
  have hjoin : beside = path.parent.join ⟨0, [name]⟩ := (eq_of_withName h).2
  rw [hjoin]
  exact spot_join (by simpa using Ne.symm hdots)

/-! ### The text of a path -/

/-- The length of a text of parts, with a slash for each of them. -/
theorem utf8ByteSize_intercalate (h : parts ≠ []) :
    ("/".intercalate parts).utf8ByteSize + 1 =
      (parts.map fun part => part.utf8ByteSize + 1).sum := by
  induction parts with
  | nil => exact absurd rfl h
  | cons part parts ih =>
    cases parts with
    | nil => simp
    | cons next parts =>
      have hslash : "/".utf8ByteSize = 1 := rfl
      rw [String.intercalate_cons_cons, String.utf8ByteSize_append, String.utf8ByteSize_append,
        hslash, List.map_cons, List.sum_cons, ← ih (List.cons_ne_nil _ _)]
      omega

theorem utf8ByteSize_slashes (count : Nat) :
    (String.ofList (List.replicate count '/')).utf8ByteSize = count := by
  induction count with
  | zero => rfl
  | succ count ih =>
    have hone : (String.ofList ['/']).utf8ByteSize = 1 := rfl
    rw [List.replicate_succ, ← List.singleton_append, String.ofList_append,
      String.utf8ByteSize_append, ih, hone]
    omega

theorem utf8ByteSize_toText (h : path.parts ≠ []) :
    path.toText.utf8ByteSize + 1 =
      path.slashes + (path.parts.map fun part => part.utf8ByteSize + 1).sum := by
  rw [toText, if_neg (fun hnil => h hnil.2), String.utf8ByteSize_append, utf8ByteSize_slashes,
    ← utf8ByteSize_intercalate h]
  omega

theorem utf8ByteSize_toText_of_nil (h : path.parts = []) :
    path.toText.utf8ByteSize = max 1 path.slashes := by
  have hempty : ("/".intercalate ([] : List String)).utf8ByteSize = 0 := rfl
  have hdot : ".".utf8ByteSize = 1 := rfl
  rw [toText]
  split_ifs with hnone
  · rw [hdot, hnone.1]
    rfl
  · have hslashes : path.slashes ≠ 0 := fun hzero => hnone ⟨hzero, h⟩
    rw [String.utf8ByteSize_append, utf8ByteSize_slashes, h, hempty]
    omega

/-- The parts of a path take no more room than the path. -/
theorem utf8ByteSize_toText_le {path' : Path} (hslashes : path'.slashes ≤ path.slashes)
    (h : path'.parts.Sublist path.parts) :
    path'.toText.utf8ByteSize ≤ max 1 path.toText.utf8ByteSize := by
  have hsum : (path'.parts.map fun part => part.utf8ByteSize + 1).sum ≤
      (path.parts.map fun part => part.utf8ByteSize + 1).sum :=
    (h.map _).sum_le_sum fun _ _ => Nat.zero_le _
  by_cases hnil : path.parts = []
  · have hnil' : path'.parts = [] := List.sublist_nil.1 (hnil ▸ h)
    rw [utf8ByteSize_toText_of_nil hnil, utf8ByteSize_toText_of_nil hnil']
    omega
  · have hsize := utf8ByteSize_toText hnil
    by_cases hnil' : path'.parts = []
    · have hpos : 0 < (path.parts.map fun part => part.utf8ByteSize + 1).sum := by
        obtain ⟨part, parts, heq⟩ := List.exists_cons_of_ne_nil hnil
        rw [heq, List.map_cons, List.sum_cons]
        omega
      rw [utf8ByteSize_toText_of_nil hnil']
      omega
    · have hsize' := utf8ByteSize_toText hnil'
      omega

/-- What is above a path that can be looked for can be looked for. -/
theorem Usable.of_sublist {path' : Path} (h : path.Usable)
    (hslashes : path'.slashes ≤ path.slashes) (hparts : path'.parts.Sublist path.parts) :
    path'.Usable where
  noNull := hasNull_eq_false_iff.2 fun part hpart =>
    hasNull_eq_false_iff.1 h.noNull part (hparts.subset hpart)
  short := by
    have hsize := utf8ByteSize_toText_le hslashes hparts
    have hlimit : 1 < tooLong := by decide
    have hshort := h.short
    omega
  parts part hpart := h.parts part (hparts.subset hpart)

end Path

namespace Path

variable {parts : List String}

/-- The text of a name is a path of one part. -/
theorem ofText_of_isName {name : String} (h : IsName name) : ofText name = ⟨0, [name]⟩ := by
  have hempty : name.toList ≠ [] := fun hnil => h.ne_empty (String.toList_eq_nil_iff.1 hnil)
  have hdot : name.toList ≠ ['.'] := fun hdot => h.ne_dot (String.toList_inj.1 hdot)
  have hslashes : keptSlashes name.toList = 0 := by
    obtain ⟨first, rest, heq⟩ := List.exists_cons_of_ne_nil hempty
    have hne : first ≠ '/' := fun hfirst => h.noSlash (by rw [heq, hfirst]; simp)
    rw [keptSlashes, heq, List.takeWhile_cons_of_neg (by simpa using hne)]
    rfl
  rw [ofText, hslashes, partsOf, Text.pieces_of_not_mem h.noSlash]
  simp [hempty, hdot]

/-- The parts of a path that is read are names, but for two dots. -/
theorem isName_of_mem_ofText {text part : String} (hnull : (ofText text).hasNull = false)
    (hpart : part ∈ (ofText text).parts) (hdots : part ≠ "..") : IsName part := by
  have hplain := hasNull_eq_false_iff.1 hnull part hpart
  obtain ⟨piece, hpiece, rfl⟩ := List.mem_map.1 hpart
  obtain ⟨hmem, hkept⟩ := List.mem_filter.1 hpiece
  have hkept : piece ≠ [] ∧ piece ≠ ['.'] := by simpa using hkept
  refine ⟨fun hempty => hkept.1 ?_, fun hdot => hkept.2 ?_, hdots, ?_, hplain⟩
  · simpa using hempty
  · have hlist := congrArg String.toList hdot
    rwa [String.toList_ofList] at hlist
  · rw [String.toList_ofList]
    exact Text.mark_not_mem_of_mem_pieces hmem

/-- The place of a path that is read is made of names, like that of its working directory. -/
theorem isName_of_mem_spot {text : String} (hnull : (ofText text).hasNull = false)
    (hnames : ∀ name ∈ workingDirectory, IsName name) :
    ∀ name ∈ (ofText text).spot workingDirectory, IsName name := by
  intro name hname
  have hdots : name ≠ ".." := fun heq => dots_not_mem_spot _ _ (heq ▸ hname)
  have hmem := mem_of_mem_collapse hname
  split_ifs at hmem
  · rcases List.mem_append.1 hmem with hhome | hpart
    · exact hnames name hhome
    · exact isName_of_mem_ofText hnull hpart hdots
  · exact isName_of_mem_ofText hnull hmem hdots

/-- **The text of a path from the root holds the path,** if its parts are names. -/
theorem ofText_toText (h : ∀ part ∈ parts, IsName part) (hsome : parts ≠ []) :
    ofText (toText ⟨1, parts⟩) = ⟨1, parts⟩ := by
  have htext : (toText ⟨1, parts⟩).toList = '/' :: ['/'].intercalate (parts.map String.toList) := by
    rw [toText, if_neg (by simp), String.toList_append, String.toList_intercalate,
      String.toList_ofList]
    rfl
  have hpieces : Text.pieces '/' (['/'].intercalate (parts.map String.toList)) =
      parts.map String.toList := by
    refine Text.pieces_intercalate (fun text htext => ?_) (by simpa using hsome)
    obtain ⟨part, hpart, rfl⟩ := List.mem_map.1 htext
    exact (h part hpart).noSlash
  have hslashes : keptSlashes (toText ⟨1, parts⟩).toList = 1 := by
    obtain ⟨first, rest, rfl⟩ := List.exists_cons_of_ne_nil hsome
    have hname := h first (List.mem_cons_self ..)
    obtain ⟨c, chars, hchars⟩ := List.exists_cons_of_ne_nil
      (fun hnil => hname.ne_empty (String.toList_eq_nil_iff.1 hnil))
    have hc : c ≠ '/' := by
      rintro rfl
      exact hname.noSlash (by rw [hchars]; exact List.mem_cons_self ..)
    obtain ⟨more, hmore⟩ : ∃ more, ['/'].intercalate ((first :: rest).map String.toList) =
        c :: more := by
      cases rest with
      | nil => exact ⟨chars, by simp [hchars]⟩
      | cons second rest => exact ⟨_, by
          rw [List.map_cons, List.map_cons, List.intercalate_cons_cons, hchars]; rfl⟩
    rw [keptSlashes, htext, hmore, List.takeWhile_cons_of_pos (by simp),
      List.takeWhile_cons_of_neg (by simpa using hc)]
    rfl
  have hparts : partsOf (toText ⟨1, parts⟩).toList = parts := by
    rw [partsOf, htext, Text.pieces, if_pos rfl, hpieces, List.filter_cons_of_neg (by simp),
      List.filter_eq_self.2, List.map_map]
    · simp
    · intro text htext
      obtain ⟨part, hpart, rfl⟩ := List.mem_map.1 htext
      have hname := h part hpart
      have hdot : part.toList ≠ ['.'] := fun hdot => hname.ne_dot (String.toList_inj.1 hdot)
      have hempty : part.toList ≠ [] := fun hnil =>
        hname.ne_empty (String.toList_eq_nil_iff.1 hnil)
      simp [hdot, hempty]
  rw [ofText, hslashes, hparts]

end Path

/-! ### Paths that lead somewhere -/

/-- A path leads to the place that its parts stand for, through directories. -/
theorem Entry.follow_eq_ok_iff {top : Entry} {start parts place : List String} :
    top.follow start parts = .ok place ↔
      place = parts.foldl Path.advance start ∧
        (∀ part ∈ parts, part.utf8ByteSize ≤ Path.longestPart) ∧
        ∀ count < parts.length, top.IsDirectoryAt ((parts.take count).foldl Path.advance start) := by
  induction parts generalizing start with
  | nil => simp [follow, eq_comm]
  | cons part parts ih =>
    rw [follow_cons_iff]
    change _ ∧ _ ∧ top.follow (Path.advance start part) parts = .ok place ↔ _
    rw [ih, List.foldl_cons, List.forall_mem_cons]
    constructor
    · rintro ⟨hstart, hpart, hplace, hparts, hthrough⟩
      refine ⟨hplace, ⟨hpart, hparts⟩, fun count hcount => ?_⟩
      cases count with
      | zero => exact hstart
      | succ count => exact hthrough count (by simpa using hcount)
    · rintro ⟨hplace, ⟨hpart, hparts⟩, hthrough⟩
      refine ⟨hthrough 0 (by simp), hpart, hplace, hparts, fun count hcount => ?_⟩
      exact hthrough (count + 1) (by simpa using hcount)

/-- What a path leads to below a place that its first parts lead to. -/
theorem Entry.follow_append {top : Entry} {start front rest place : List String}
    (h : top.follow start front = .ok place) :
    top.follow start (front ++ rest) = top.follow place rest := by
  induction front generalizing start with
  | nil => rw [Except.ok.inj h, List.nil_append]
  | cons part front ih =>
    obtain ⟨hstart, hshort, hfront⟩ := follow_cons_iff.1 h
    obtain ⟨members, changed, hat⟩ := isDirectoryAt_iff.1 hstart
    rw [List.cons_append, follow, hat]
    simp only
    rw [if_neg (Nat.not_lt.2 hshort)]
    exact ih hfront

/-- A tree as a disk has it: the names of entries can be parts of a path, and no directory has a name
twice. -/
structure Entry.Tidy (top : Entry) : Prop where
  names : ∀ place, top.seen place ≠ none → ∀ name ∈ place, Path.IsName name
  distinct : top.Distinct

theorem Entry.tidy_leaf {file : Entry} (h : file.leaf? = some file) : file.Tidy where
  names place hplace := by
    cases place with
    | nil => exact fun name hname => absurd hname List.not_mem_nil
    | cons name rest => exact absurd (seen_cons_of_leaf (by simp [h]) name rest) hplace
  distinct place members changed hat := by
    cases place with
    | nil =>
      obtain rfl := Option.some.inj hat
      exact absurd h (by simp [leaf?])
    | cons name rest =>
      have hleaf : file.leaf? ≠ none := by simp [h]
      have hseen := seen_cons_of_leaf hleaf name rest
      rw [seen, hat] at hseen
      exact absurd hseen (by simp)

theorem Entry.tidy_directory {members : List (String × Entry)} {changed : ChangeTime}
    (hnodup : (members.map Prod.fst).Nodup)
    (hmembers : ∀ member ∈ members, Path.IsName member.1 ∧ member.2.Tidy) :
    (directory members changed).Tidy where
  names place hplace := by
    cases place with
    | nil => exact fun name hname => absurd hname List.not_mem_nil
    | cons name rest =>
      rw [seen_directory_cons] at hplace
      obtain ⟨found, hfound⟩ := Option.ne_none_iff_exists'.1 hplace
      obtain ⟨child, hchild, hrest⟩ := Option.bind_eq_some_iff.1 hfound
      obtain ⟨hname, hchild⟩ := hmembers (name, child) (mem_of_lookup hchild)
      exact List.forall_mem_cons.2 ⟨hname, hchild.names rest (by simp [hrest])⟩
  distinct place inner time hat := by
    cases place with
    | nil =>
      obtain ⟨rfl, -⟩ := Entry.directory.inj (Option.some.inj hat)
      exact hnodup
    | cons name rest =>
      obtain ⟨child, hchild, hrest⟩ := Option.bind_eq_some_iff.1 hat
      exact (hmembers (name, child) (mem_of_lookup hchild)).2.distinct rest inner time hrest

theorem Entry.tidy_empty {changed : ChangeTime} : (directory [] changed).Tidy :=
  tidy_directory List.nodup_nil (List.forall_mem_nil _)

theorem Entry.tidy_singleton {name : String} {child : Entry} {changed : ChangeTime}
    (hname : Path.IsName name) (hchild : child.Tidy) : (directory [(name, child)] changed).Tidy :=
  tidy_directory (List.nodup_singleton name) (List.forall_mem_singleton.2 ⟨hname, hchild⟩)

/-- A directory of files is tidy if their names are. -/
theorem Entry.tidy_files {members : List (String × Entry)} {changed : ChangeTime}
    (hnodup : (members.map Prod.fst).Nodup) (hnames : ∀ member ∈ members, Path.IsName member.1)
    (hfiles : ∀ member ∈ members, member.2.leaf?.isSome) : (directory members changed).Tidy := by
  refine tidy_directory hnodup fun member hmember => ⟨hnames member hmember, ?_⟩
  obtain ⟨file, hfile⟩ := Option.isSome_iff_exists.1 (hfiles member hmember)
  obtain ⟨rfl, -⟩ := leaf?_eq_some_iff.1 hfile
  exact tidy_leaf hfile

namespace World

variable {world world' start : World} {path base : Path} {place more : List String} {count : Nat}

/-- A path leads to the place that it stands for: it is not too long, and its first parts lead to
directories. -/
structure Leads (world : World) (path : Path) : Prop where
  short : path.toText.utf8ByteSize < Path.tooLong
  parts : ∀ part ∈ path.parts, part.utf8ByteSize ≤ Path.longestPart
  through : ∀ count < path.parts.length,
    world.files.IsDirectoryAt ((path.upTo count).spot world.workingDirectory)

/-- **A path leads to the place that it stands for, or nowhere.** -/
theorem place_eq_ok_iff (h : ".." ∉ world.workingDirectory) :
    world.place path = .ok place ↔
      world.Leads path ∧ place = path.spot world.workingDirectory := by
  rw [World.place]
  by_cases hlong : Path.tooLong ≤ path.toText.utf8ByteSize
  · rw [if_pos hlong]
    exact iff_of_false (by simp) fun hleads => absurd hleads.1.short (Nat.not_lt.2 hlong)
  · rw [if_neg hlong, Entry.follow_eq_ok_iff, ← Path.spot_eq_foldl h]
    constructor
    · rintro ⟨hplace, hparts, hthrough⟩
      refine ⟨⟨Nat.not_le.1 hlong, hparts, fun count hcount => ?_⟩, hplace⟩
      rw [Path.spot_eq_foldl h]
      exact hthrough count hcount
    · rintro ⟨hleads, hplace⟩
      refine ⟨hplace, hleads.parts, fun count hcount => ?_⟩
      have hthrough := hleads.through count hcount
      rwa [Path.spot_eq_foldl h] at hthrough

/-- A world as a disk has it: the working directory is there, the names of entries can be parts of a
path, and no directory has a name twice. -/
structure WellFormed (world : World) : Prop where
  workingDirectory : world.files.IsDirectoryAt world.workingDirectory
  names : ∀ place, world.files.seen place ≠ none → ∀ name ∈ place, Path.IsName name
  distinct : world.files.Distinct

namespace WellFormed

theorem dots_not_mem (h : world.WellFormed) : ".." ∉ world.workingDirectory := fun hmem =>
  (h.names _ (by rw [h.workingDirectory]; simp) _ hmem).ne_dots rfl

theorem nameable (h : world.WellFormed) : world.Nameable where
  workingDirectory name hname :=
    (h.names _ (by rw [h.workingDirectory]; simp) name hname).noNull
  names place hplace name hname := (h.names place hplace name hname).noNull

theorem isDirectoryAt_nil (h : world.WellFormed) : world.files.IsDirectoryAt [] := by
  have hroot : ∀ {place}, world.files.IsDirectoryAt place → world.files.IsDirectoryAt [] := by
    intro place hplace
    induction place using List.reverseRecOn with
    | nil => exact hplace
    | append_singleton front last ih => exact ih hplace.of_concat
  exact hroot h.workingDirectory

theorem of_tidy (hworking : world.files.IsDirectoryAt world.workingDirectory)
    (h : world.files.Tidy) : world.WellFormed :=
  ⟨hworking, h.names, h.distinct⟩

end WellFormed

namespace Leads

theorem mono (h : world.Leads path)
    (hdirectories : ∀ count < path.parts.length,
      world.files.IsDirectoryAt ((path.upTo count).spot world.workingDirectory) →
        world'.files.IsDirectoryAt ((path.upTo count).spot world'.workingDirectory)) :
    world'.Leads path :=
  ⟨h.short, h.parts, fun count hcount => hdirectories count hcount (h.through count hcount)⟩

theorem upTo (h : world.Leads path) (count : Nat) : world.Leads (path.upTo count) where
  short := by
    have hsize : (path.upTo count).toText.utf8ByteSize ≤ max 1 path.toText.utf8ByteSize :=
      Path.utf8ByteSize_toText_le (Nat.le_refl _) (List.take_sublist _ _)
    have hlimit : 1 < Path.tooLong := by decide
    have hshort := h.short
    omega
  parts part hpart := h.parts part (List.mem_of_mem_take hpart)
  through other hother := by
    rw [Path.upTo, List.length_take] at hother
    have htake : (path.upTo count).upTo other = path.upTo other := by
      rw [Path.upTo, Path.upTo, Path.upTo, List.take_take, Nat.min_eq_left (by omega)]
    rw [htake]
    exact h.through other (by omega)

/-- A path below another one leads through directories if those below the other one are there. -/
theorem through_join (h : world.Leads base) (hdots : ".." ∉ more)
    (hthere : ∀ count < more.length,
      world.files.IsDirectoryAt (base.spot world.workingDirectory ++ more.take count)) :
    ∀ count < (base.join ⟨0, more⟩).parts.length,
      world.files.IsDirectoryAt (((base.join ⟨0, more⟩).upTo count).spot world.workingDirectory) := by
  intro count hcount
  have hlength : (base.join ⟨0, more⟩).parts.length = base.parts.length + more.length := by
    rw [Path.join, if_pos rfl, List.length_append]
  rw [Path.upTo_join]
  split_ifs with hle
  · rcases Nat.lt_or_eq_of_le hle with hlt | rfl
    · exact h.through count hlt
    · have hwhole : base.upTo base.parts.length = base := by rw [Path.upTo, List.take_length]
      have hfirst := hthere 0 (by omega)
      rwa [hwhole, ← List.append_nil (base.spot _), ← List.take_zero]
  · rw [Path.spot_join fun hmem => hdots (List.mem_of_mem_take hmem)]
    exact hthere _ (by omega)

theorem join (h : world.Leads base) (hdots : ".." ∉ more) (husable : (base.join ⟨0, more⟩).Usable)
    (hthere : ∀ count < more.length,
      world.files.IsDirectoryAt (base.spot world.workingDirectory ++ more.take count)) :
    world.Leads (base.join ⟨0, more⟩) where
  short := husable.short
  parts := husable.parts
  through := h.through_join hdots hthere

/-- A path from the root leads somewhere if its directories are there. -/
theorem root (hdots : ".." ∉ more) (husable : (⟨1, more⟩ : Path).Usable)
    (hthere : ∀ count < more.length, world.files.IsDirectoryAt (more.take count)) :
    world.Leads ⟨1, more⟩ where
  short := husable.short
  parts := husable.parts
  through count hcount := by
    have hspot : ((⟨1, more⟩ : Path).upTo count).spot world.workingDirectory = more.take count :=
      Path.spot_root fun hmem => hdots (List.mem_of_mem_take hmem)
    rw [hspot]
    exact hthere count hcount

end Leads

/-! ### Making directories -/

/-- A directory that is new is at the place of the first parts of the path. -/
theorem Grows.seen_spot (h : Grows path start world) (hdots : ".." ∉ start.workingDirectory)
    (place : List String) :
    world.files.seen place = start.files.seen place ∨
      start.files.seen place = none ∧ world.files.seen place = some none ∧
        ∃ count, place = (path.upTo count).spot start.workingDirectory := by
  induction h with
  | refl => exact Or.inl rfl
  | @make world count made grown leads free ih =>
    have hfree : world.files.seen made = none := by rw [Entry.seen, free]; rfl
    have hworking := grown.workingDirectory
    obtain ⟨-, rfl⟩ := (place_eq_ok_iff (hworking ▸ hdots)).1 leads
    rcases Entry.seen_put_directory hfree place with hsame | ⟨rfl, hnew⟩
    · rw [hsame]
      exact ih
    · rcases ih with ih | ⟨-, ih, -⟩
      · exact Or.inr ⟨ih.symm.trans hfree, hnew, count, by rw [hworking]; rfl⟩
      · exact absurd (hfree.symm.trans ih) (by simp)

/-- Making one directory: it is there already, or nothing is there. -/
theorem makeDirectoryUpTo_eq_ok_iff : makeDirectoryUpTo path world count = .ok world' ↔
    ∃ place, world.place (path.upTo count) = .ok place ∧
      (world.files.at? place = none ∧
          world' = { world with files := world.files.put place (.directory [] none) } ∨
        world.files.IsDirectoryAt place ∧ world' = world) := by
  have hplace : world.place { path with parts := path.parts.take count } =
      world.place (path.upTo count) := rfl
  rw [makeDirectoryUpTo, hplace]
  cases world.place (path.upTo count) with
  | error cause => simp
  | ok place =>
    simp only [Except.ok.injEq, exists_eq_left']
    cases hentry : world.files.at? place with
    | none => simp [Entry.IsDirectoryAt, Entry.seen, hentry, eq_comm]
    | some entry =>
      cases entry <;> simp [Entry.IsDirectoryAt, Entry.seen, hentry, Entry.leaf?, eq_comm]

/-- Where a path leads and nothing is, there can be something new in a directory. -/
theorem Leads.exists_parent (h : world.Leads path) (hdots : ".." ∉ world.workingDirectory)
    (hdirectory : world.files.IsDirectoryAt world.workingDirectory)
    (hfree : world.files.seen (path.spot world.workingDirectory) = none) :
    ∃ parent name, world.files.IsDirectoryAt parent ∧
      path.spot world.workingDirectory = parent ++ [name] := by
  have hthere : ∀ {place}, world.files.IsDirectoryAt place →
      path.spot world.workingDirectory ≠ place := by
    rintro place hplace rfl
    exact absurd (hfree.symm.trans hplace) (by simp)
  rcases List.eq_nil_or_concat' path.parts with hnil | ⟨front, last, hparts⟩
  · rw [Path.spot_eq_foldl hdots, hnil] at hfree hthere
    dsimp only [List.foldl_nil] at hfree hthere
    split_ifs at hfree hthere
    · exact absurd rfl (hthere hdirectory)
    · exact absurd hfree (by simp [Entry.seen, Entry.at?])
  · have hparent := h.through front.length (by rw [hparts]; simp)
    have hfront : (path.upTo front.length).parts = front := by
      rw [Path.upTo, hparts, List.take_left]
    have hspot : path.spot world.workingDirectory =
        Path.advance ((path.upTo front.length).spot world.workingDirectory) last := by
      rw [Path.spot_eq_foldl hdots, Path.spot_eq_foldl hdots, hparts, hfront, List.foldl_append]
      rfl
    rw [Path.advance] at hspot
    split_ifs at hspot
    · exact absurd hspot (hthere hparent.dropLast)
    · exact ⟨_, last, hparent, hspot⟩

/-- A directory that is made is there. -/
theorem isDirectoryAt_of_makeDirectoryUpTo (hdots : ".." ∉ world.workingDirectory)
    (hdirectory : world.files.IsDirectoryAt world.workingDirectory)
    (h : makeDirectoryUpTo path world count = .ok world') :
    world.Leads (path.upTo count) ∧ Grows path world world' ∧
      world'.files.IsDirectoryAt ((path.upTo count).spot world.workingDirectory) := by
  obtain ⟨place, hplace, hmade⟩ := makeDirectoryUpTo_eq_ok_iff.1 h
  obtain ⟨hleads, rfl⟩ := (place_eq_ok_iff hdots).1 hplace
  rcases hmade with ⟨hfree, rfl⟩ | ⟨hthere, rfl⟩
  · refine ⟨hleads, Grows.refl.make hplace hfree, ?_⟩
    have hseen : world.files.seen ((path.upTo count).spot world.workingDirectory) = none := by
      rw [Entry.seen, hfree]
      rfl
    obtain ⟨parent, name, hparent, hspot⟩ := hleads.exists_parent hdots hdirectory hseen
    rw [hspot, Entry.IsDirectoryAt, Entry.seen_put_tree hparent, if_pos (List.prefix_refl _),
      List.drop_length]
    rfl
  · exact ⟨hleads, .refl, hthere⟩

/-- **Directories that are made are there:** the path leads to one, through others. -/
theorem isDirectoryAt_of_makeDirectories (hdots : ".." ∉ world.workingDirectory)
    (hdirectory : world.files.IsDirectoryAt world.workingDirectory)
    (h : world.makeDirectories path = .ok world') :
    world'.Leads path ∧
      world'.files.IsDirectoryAt (path.spot world.workingDirectory) := by
  have hrun : ∀ (counts : List Nat) (between : World), Grows path world between →
      counts.foldlM (makeDirectoryUpTo path) between = .ok world' →
        Grows path between world' ∧ ∀ count ∈ counts,
          (∀ part ∈ (path.upTo count).parts, part.utf8ByteSize ≤ Path.longestPart) ∧
          world'.files.IsDirectoryAt ((path.upTo count).spot world.workingDirectory) := by
    intro counts
    induction counts with
    | nil =>
      intro between hbetween heq
      exact ⟨Except.ok.inj heq ▸ .refl, fun count hcount => absurd hcount List.not_mem_nil⟩
    | cons count counts ih =>
      intro between hbetween heq
      rw [List.foldlM_cons] at heq
      obtain ⟨next, hnext, hrest⟩ := bind_eq_ok_iff.1 heq
      have hworking := hbetween.workingDirectory
      obtain ⟨hleads, hgrows, hmade⟩ := isDirectoryAt_of_makeDirectoryUpTo (hworking ▸ hdots)
        (hworking ▸ hbetween.isDirectoryAt hdirectory) hnext
      obtain ⟨hgrows', hothers⟩ := ih next (hbetween.trans hgrows) hrest
      refine ⟨hgrows.trans hgrows', List.forall_mem_cons.2 ⟨⟨hleads.parts, ?_⟩, hothers⟩⟩
      exact hgrows'.isDirectoryAt (hworking ▸ hmade)
  rw [makeDirectories] at h
  split_ifs at h with hnull hlong
  obtain ⟨hgrows, hmade⟩ := hrun _ world .refl h
  have hwhole : path.upTo path.parts.length = path := by rw [Path.upTo, List.take_length]
  obtain ⟨hparts, hlast⟩ := hmade path.parts.length (by simp)
  rw [hwhole] at hparts hlast
  refine ⟨⟨Nat.not_le.1 hlong, hparts, fun count hcount => ?_⟩, hlast⟩
  rw [hgrows.workingDirectory]
  exact (hmade count (by simp; omega)).2

/-- Where all directories are there none is made. -/
theorem makeDirectories_eq_self (hdots : ".." ∉ world.workingDirectory)
    (hnull : path.hasNull = false) (hleads : world.Leads path)
    (hthere : world.files.IsDirectoryAt (path.spot world.workingDirectory)) :
    world.makeDirectories path = .ok world := by
  have hwhole : path.upTo path.parts.length = path := by rw [Path.upTo, List.take_length]
  have hstep : ∀ count ≤ path.parts.length, makeDirectoryUpTo path world count = .ok world := by
    intro count hcount
    refine makeDirectoryUpTo_eq_ok_iff.2
      ⟨_, (place_eq_ok_iff hdots).2 ⟨hleads.upTo count, rfl⟩, Or.inr ⟨?_, rfl⟩⟩
    rcases Nat.lt_or_eq_of_le hcount with hlt | rfl
    · exact hleads.through count hlt
    · rwa [hwhole]
  have hrun : ∀ counts : List Nat, (∀ count ∈ counts, count ≤ path.parts.length) →
      counts.foldlM (makeDirectoryUpTo path) world = .ok world := by
    intro counts hcounts
    induction counts with
    | nil => rfl
    | cons count counts ih =>
      obtain ⟨hcount, hcounts⟩ := List.forall_mem_cons.1 hcounts
      rw [List.foldlM_cons, hstep count hcount]
      exact ih hcounts
  rw [makeDirectories, hnull, if_neg (by simp), if_neg (Nat.not_le.2 hleads.short)]
  exact hrun _ fun count hcount => Nat.le_of_lt_succ (List.mem_range.1 hcount)

end World
end UsageOrder
