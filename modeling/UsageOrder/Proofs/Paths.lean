import Mathlib.Data.List.Induction
import UsageOrder.Proofs.Pieces
import UsageOrder.Proofs.Runs

/-!
# Paths without a null character

A path with a null character is refused by the file system with a fault that is not reported.  Paths
that are put together from others have no null character if these have none: a path beside a file, a
path below a directory, the path that a path stands for, and the directory of a session, which is
named for the time.
-/

namespace UsageOrder

theorem Timestamp.isDigit_of_mem_toString {n : Nat} {c : Char} (h : c ∈ (toString n).toList) :
    c.isDigit = true := by
  have htext : (toString n).toList = Nat.toDigits 10 n := by
    simp [toString, Nat.repr]
  rw [htext] at h
  exact Nat.isDigit_of_mem_toDigits (by decide) (by decide) h

theorem Timestamp.isDigit_of_mem_twoDigits {n : Nat} {c : Char} (h : c ∈ (twoDigits n).toList) :
    c.isDigit = true := by
  rw [twoDigits] at h
  split_ifs at h
  · rw [String.toList_append] at h
    rcases List.mem_append.1 h with h | h
    · obtain rfl := List.mem_singleton.1 h
      rfl
    · exact isDigit_of_mem_toString h
  · exact isDigit_of_mem_toString h

/-- A time stamp is made of digits and underscores. -/
theorem Timestamp.mem_ofSeconds {seconds : Nat} {c : Char} (h : c ∈ (ofSeconds seconds).toList) :
    c.isDigit = true ∨ c = '_' := by
  simp only [ofSeconds, String.toList_append, List.mem_append] at h
  rcases h with ((((((h | h) | h) | h) | h) | h) | h) | h
  · exact Or.inl (isDigit_of_mem_toString h)
  · exact Or.inl (isDigit_of_mem_twoDigits h)
  · exact Or.inl (isDigit_of_mem_twoDigits h)
  · exact Or.inr (List.mem_singleton.1 h)
  · exact Or.inl (isDigit_of_mem_twoDigits h)
  · exact Or.inl (isDigit_of_mem_twoDigits h)
  · exact Or.inl (isDigit_of_mem_twoDigits h)
  · have htext : "_000000".toList = ['_', '0', '0', '0', '0', '0', '0'] := rfl
    rw [htext, List.mem_cons] at h
    rcases h with rfl | h
    · exact Or.inr rfl
    · obtain rfl := List.eq_of_mem_replicate (n := 6) h
      exact Or.inl rfl

/-! ### Paths -/

namespace Path

variable {path base : Path} {name : String} {workingDirectory : List String}

theorem hasNull_eq_false_iff :
    path.hasNull = false ↔ ∀ part ∈ path.parts, '\x00' ∉ part.toList := by
  simp [hasNull]

theorem hasNull_join (hbase : base.hasNull = false) (hpath : path.hasNull = false) :
    (base.join path).hasNull = false := by
  rw [hasNull_eq_false_iff] at hbase hpath ⊢
  rw [join]
  split_ifs
  · exact List.forall_mem_append.2 ⟨hbase, hpath⟩
  · exact hpath

theorem hasNull_parent (h : path.hasNull = false) : path.parent.hasNull = false := by
  rw [hasNull_eq_false_iff] at h ⊢
  exact fun part hpart => h part (List.dropLast_subset _ hpart)

theorem not_mem_toText (h : path.hasNull = false) : '\x00' ∉ path.toText.toList := by
  have hjoined : ∀ parts : List String, (∀ part ∈ parts, '\x00' ∉ part.toList) →
      '\x00' ∉ ("/".intercalate parts).toList := by
    intro parts hparts
    induction parts with
    | nil => exact List.not_mem_nil
    | cons part parts ih =>
      obtain ⟨hpart, hrest⟩ := List.forall_mem_cons.1 hparts
      cases parts with
      | nil => simpa using hpart
      | cons next parts =>
        rw [String.intercalate_cons_cons, String.toList_append, String.toList_append]
        simpa [hpart] using ih hrest
  rw [toText]
  split_ifs
  · decide
  · have hparts := hjoined _ (hasNull_eq_false_iff.1 h)
    simpa [List.mem_replicate] using hparts

theorem hasNull_ofText {s : String} (h : '\x00' ∉ s.toList) : (ofText s).hasNull = false := by
  rw [hasNull_eq_false_iff]
  intro part hpart hnull
  obtain ⟨piece, hpiece, rfl⟩ := List.mem_map.1 hpart
  rw [String.toList_ofList] at hnull
  exact h (Text.mem_of_mem_pieces (List.mem_of_mem_filter hpiece) hnull)

/-- Two dots taken back leave parts that were there. -/
theorem mem_of_mem_collapse {part : String} {parts : List String} (h : part ∈ collapse parts) :
    part ∈ parts := by
  induction parts using List.reverseRecOn with
  | nil => exact h
  | append_singleton parts last ih =>
    rw [collapse, List.foldl_append] at h
    change part ∈ (if last = ".." then (collapse parts).dropLast else collapse parts ++ [last]) at h
    split_ifs at h
    · exact List.mem_append_left _ (ih (List.dropLast_subset _ h))
    · rcases List.mem_append.1 h with h | h
      · exact List.mem_append_left _ (ih h)
      · exact List.mem_append_right _ h

theorem hasNull_resolve (hdirectory : ∀ part ∈ workingDirectory, '\x00' ∉ part.toList)
    (h : path.hasNull = false) : (path.resolve workingDirectory).hasNull = false := by
  rw [hasNull_eq_false_iff] at h ⊢
  intro part hpart
  have hpart := mem_of_mem_collapse hpart
  split_ifs at hpart
  · exact (List.mem_append.1 hpart).elim (hdirectory part) (h part)
  · exact h part hpart

theorem exists_parts (h : path.parts ≠ []) :
    path = ⟨path.slashes, path.parts.dropLast ++ [path.name]⟩ := by
  obtain ⟨slashes, parts⟩ := path
  rw [Path.name, List.getLast?_eq_some_getLast h, Option.getD_some, List.dropLast_append_getLast h]

theorem name_mem (h : path.parts ≠ []) : path.name ∈ path.parts := by
  rw [Path.name, List.getLast?_eq_some_getLast h]
  exact List.getLast_mem h

/-- The path that a path stands for keeps its name. -/
theorem resolve_parts (h : path.parts ≠ []) (hdots : path.name ≠ "..") :
    ∃ front, (path.resolve workingDirectory).parts = front ++ [path.name] := by
  have hcollapse : ∀ parts, collapse (parts ++ [path.name]) = collapse parts ++ [path.name] := by
    intro parts
    rw [collapse, List.foldl_append, List.foldl_cons, List.foldl_nil, if_neg hdots]
    rfl
  rw [exists_parts h, resolve, name_concat]
  dsimp only
  split_ifs
  · rw [← List.append_assoc]
    exact ⟨_, hcollapse _⟩
  · exact ⟨_, hcollapse _⟩

theorem mem_of_mem_suffixOf {name : Text} {c : Char} (h : c ∈ suffixOf name) :
    c = '.' ∨ c ∈ name := by
  rw [suffixOf] at h
  split_ifs at h
  · rcases List.mem_cons.1 h with rfl | h
    · exact Or.inl rfl
    · have h := (List.takeWhile_sublist _).subset (List.mem_reverse.1 h)
      exact Or.inr (List.mem_reverse.1 h)
  · exact absurd h List.not_mem_nil

theorem name_ne_of_withName {beside : Path} (h : path.withName name = .ok beside) :
    path.name ≠ "" := by
  rw [withName] at h
  split_ifs at h with hname
  exact hname

/-- A name without slashes that is neither empty nor a dot can take the place of another one. -/
theorem withName_of_plain (hname : path.name ≠ "") (hslash : '/' ∉ name.toList)
    (hempty : name.toList ≠ []) (hdot : name.toList ≠ ['.']) :
    path.withName name = .ok { path with parts := path.parts.dropLast ++ [name] } := by
  have hlast : name.toList.getLast? ≠ some '/' := fun h => hslash (List.mem_of_getLast? h)
  have hfirst : keptSlashes name.toList = 0 := by
    obtain ⟨first, rest, heq⟩ := List.exists_cons_of_ne_nil hempty
    have hne : first ≠ '/' := fun h => hslash (by rw [heq, h]; exact List.mem_cons_self ..)
    rw [keptSlashes, heq, List.takeWhile_cons_of_neg (by simpa using hne)]
    rfl
  have hparts : (partsOf name.toList).length = 1 := by
    rw [partsOf, Text.pieces_of_not_mem hslash]
    simp [hempty, hdot]
  rw [withName, if_neg hname, if_neg (by simp [hlast, hfirst, hparts])]

end Path
end UsageOrder
