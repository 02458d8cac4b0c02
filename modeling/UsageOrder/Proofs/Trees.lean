import Mathlib.Data.List.Basic
import UsageOrder.Files.Entry
import UsageOrder.Proofs.Keys

/-!
# What stands at the places of a file tree

`Entry.seen` tells what is found at a place: nothing, a directory, or a file with its content.

An entry is set or taken away at one place, and what stands at another one depends on how the two are
related.  There are three ways, and each change has one lemma for each of them.

| the place looked at | an entry is set | an entry is taken away |
|---|---|---|
| at the changed place or below it | `at?_put_under` | `at?_remove_under` |
| above the changed place | `at?_put_above` | `at?_remove_above` |
| neither | `at?_put_apart` | `at?_remove_apart` |

Seen from outside, a change of a whole tree is one at its place and below it (`seen_put_tree`,
`seen_remove_tree`).  All that is set in a tree that is there is one change at its place
(`Within.put`), which is a change of one member of the directory that it is in
(`Within.members_eq`).
-/

namespace UsageOrder
namespace Entry

/-- A file as it is, and nothing for a directory. -/
def leaf? : Entry → Option Entry
  | .directory _ _ => none
  | entry => some entry

/-- What is found at a place: nothing, a directory, or a file. -/
def seen (top : Entry) (place : List String) : Option (Option Entry) := (top.at? place).map leaf?

/-- A place is that of a directory. -/
def IsDirectoryAt (top : Entry) (place : List String) : Prop := top.seen place = some none

variable {top top' new child : Entry} {place other front rest : List String} {name : String}
  {members : List (String × Entry)} {changed : ChangeTime}

theorem leaf?_eq_some_iff {entry file : Entry} :
    entry.leaf? = some file ↔ entry = file ∧ entry.isDirectory = false := by
  cases entry <;> simp [leaf?, isDirectory]

theorem leaf?_eq_none_iff {entry : Entry} :
    entry.leaf? = none ↔ ∃ members changed, entry = .directory members changed := by
  cases entry <;> simp [leaf?]

theorem seen_eq_file_iff {file : Entry} : top.seen place = some (some file) ↔
    top.at? place = some file ∧ file.isDirectory = false := by
  rw [seen, Option.map_eq_some_iff]
  constructor
  · rintro ⟨entry, hentry, hleaf⟩
    obtain ⟨rfl, hfile⟩ := leaf?_eq_some_iff.1 hleaf
    exact ⟨hentry, hfile⟩
  · rintro ⟨hentry, hfile⟩
    exact ⟨file, hentry, leaf?_eq_some_iff.2 ⟨rfl, hfile⟩⟩

theorem isDirectoryAt_iff :
    top.IsDirectoryAt place ↔
      ∃ members changed, top.at? place = some (.directory members changed) := by
  rw [IsDirectoryAt, seen, Option.map_eq_some_iff]
  constructor
  · rintro ⟨entry, hentry, hleaf⟩
    obtain ⟨members, changed, rfl⟩ := leaf?_eq_none_iff.1 hleaf
    exact ⟨members, changed, hentry⟩
  · rintro ⟨members, changed, hentry⟩
    exact ⟨_, hentry, rfl⟩

@[simp] theorem seen_directory_cons (members : List (String × Entry)) (changed : ChangeTime)
    (name : String) (place : List String) :
    (directory members changed).seen (name :: place) =
      (members.lookup name).bind fun child => child.seen place := by
  rw [seen, at?, child?]
  cases members.lookup name <;> rfl

/-- Nothing is found below a file. -/
theorem seen_cons_of_leaf (h : top.leaf? ≠ none) (name : String) (place : List String) :
    top.seen (name :: place) = none := by
  cases top with
  | directory members changed => exact absurd rfl h
  | _ => rfl

/-! ### Members -/

theorem lookup_setMember (name : String) (entry : Entry) (members : List (String × Entry))
    (other : String) :
    (setMember name entry members).lookup other =
      if other = name then some entry else members.lookup other := by
  induction members with
  | nil => exact lookup_member name entry [] other
  | cons member members ih =>
    obtain ⟨key, value⟩ := member
    rw [setMember, lookup_member]
    by_cases hkey : key = name
    · rw [if_pos hkey, lookup_member, hkey]
      split_ifs <;> rfl
    · rw [if_neg hkey, lookup_member, ih]
      by_cases hother : other = key
      · rw [if_pos hother, if_neg (hother ▸ hkey), if_pos hother]
      · rw [if_neg hother, if_neg hother]

theorem setMember_setMember (name : String) (child child' : Entry)
    (members : List (String × Entry)) :
    setMember name child' (setMember name child members) = setMember name child' members := by
  induction members with
  | nil => simp [setMember]
  | cons member members ih =>
    rw [setMember]
    split_ifs with hname
    · rw [setMember, if_pos rfl, setMember, if_pos hname]
    · rw [setMember, if_neg hname, ih, setMember, if_neg hname]

theorem setMember_self (h : members.lookup name = some child) :
    setMember name child members = members := by
  induction members with
  | nil => exact absurd h (by simp)
  | cons member members ih =>
    obtain ⟨key, value⟩ := member
    rw [lookup_member] at h
    rw [setMember]
    split_ifs at h with hname
    · rw [if_pos hname.symm, hname, Option.some.inj h]
    · rw [if_neg (Ne.symm hname), ih h]

/-- The other members stay when one is set. -/
theorem filter_setMember (name : String) (child : Entry) (members : List (String × Entry)) :
    ((setMember name child members).filter fun member => decide (member.1 ≠ name)) =
      members.filter fun member => decide (member.1 ≠ name) := by
  induction members with
  | nil => simp [setMember]
  | cons member members ih =>
    rw [setMember]
    split_ifs with hname
    · simp [hname]
    · rw [List.filter_cons, List.filter_cons, ih]

theorem lookup_filter_ne (name : String) (members : List (String × Entry)) (other : String) :
    (members.filter fun member => decide (member.1 ≠ name)).lookup other =
      if other = name then none else members.lookup other := by
  rw [lookup_filter fun key => decide (key ≠ name)]
  simp only [decide_eq_true_eq, ne_eq, ite_not]

theorem lookup_append_new {name : String} {members : List (String × Entry)} (new : Entry)
    (hnew : members.lookup name = none) (other : String) :
    (members ++ [(name, new)]).lookup other =
      if other = name then some new else members.lookup other := by
  rw [List.lookup_append, lookup_member]
  by_cases hother : other = name
  · rw [hother, hnew, if_pos rfl, if_pos rfl, Option.none_or]
  · rw [if_neg hother, List.lookup_nil, Option.or_none, if_neg hother]

/-- The names in every directory of a tree are different. -/
def Distinct (top : Entry) : Prop :=
  ∀ place members changed, top.at? place = some (.directory members changed) →
    (members.map Prod.fst).Nodup

theorem Distinct.of_mem (h : (directory members changed).Distinct)
    (hmem : (name, child) ∈ members) : child.Distinct := by
  intro place inner time hinner
  have hlookup := lookup_eq_some_of_mem (h [] members changed rfl) hmem
  refine h (name :: place) inner time ?_
  rw [at?, child?, hlookup]
  exact hinner

/-- The place of a place below another one. -/
theorem at?_append (top : Entry) (front rest : List String) :
    top.at? (front ++ rest) = (top.at? front).bind (at? rest) := by
  induction front generalizing top with
  | nil => rfl
  | cons name front ih =>
    rw [List.cons_append, at?, at?, Option.bind_assoc]
    exact congrArg _ (funext fun child => ih child)

/-- A member of a directory is at its name below the directory. -/
theorem at?_concat_iff (h : top.at? front = some (.directory members changed)) :
    top.at? (front ++ [name]) = some child ↔ members.lookup name = some child := by
  rw [at?_append, h]
  change (directory members changed).at? [name] = _ ↔ _
  rw [at?, child?]
  cases members.lookup name <;> exact Iff.rfl

theorem seen_concat_eq_none_iff (h : top.at? front = some (.directory members changed)) :
    top.seen (front ++ [name]) = none ↔ members.lookup name = none := by
  rw [seen, Option.map_eq_none_iff, Option.eq_none_iff_forall_ne_some,
    Option.eq_none_iff_forall_ne_some]
  exact forall_congr' fun child => not_congr (at?_concat_iff h)

/-- Setting an entry below a member changes that member. -/
theorem child?_put_cons (h : rest ≠ []) (top new : Entry) (name other : String) :
    (top.put (name :: rest) new).child? other =
      if other = name then (top.child? name).map fun child => child.put rest new
      else top.child? other := by
  cases top with
  | directory members changed =>
    rw [put, child?]
    cases hchild : members.lookup name with
    | some child =>
      simp only [child?, lookup_setMember, Option.map_some]
    | none =>
      simp only [List.isEmpty_iff, h, if_false, child?, Option.map_none]
      split_ifs with hother
      · rw [hother, hchild]
      · rfl
  | file | archive => simp [put, child?]

/-- Setting a member of a directory. -/
theorem child?_put_singleton (h : top.leaf? = none) (new : Entry) (name other : String) :
    (top.put [name] new).child? other = if other = name then some new else top.child? other := by
  obtain ⟨members, changed, rfl⟩ := leaf?_eq_none_iff.1 h
  rw [put]
  cases hchild : members.lookup name with
  | some child => simp only [child?, lookup_setMember, put]
  | none => simp only [List.isEmpty_nil, if_true, child?, lookup_append_new new hchild]

theorem remove_of_leaf (h : top.leaf? ≠ none) (place : List String) : top.remove place = top := by
  cases top with
  | directory members changed => exact absurd rfl h
  | file | archive => rcases place with _ | ⟨first, _ | ⟨next, rest⟩⟩ <;> rfl

/-- What is taken away below a name is taken away from the entry with this name. -/
theorem remove_below {rest : List String} (h : rest ≠ []) (first : String)
    (members : List (String × Entry)) (changed : ChangeTime) :
    remove (first :: rest) (directory members changed) =
      match members.lookup first with
      | some child => .directory (setMember first (remove rest child) members) changed
      | none => .directory members changed := by
  obtain ⟨next, rest, rfl⟩ := List.exists_cons_of_ne_nil h
  rfl

/-- Taking away an entry below a member changes that member. -/
theorem child?_remove_cons (h : rest ≠ []) (top : Entry) (name other : String) :
    (top.remove (name :: rest)).child? other =
      if other = name then (top.child? name).map (remove rest) else top.child? other := by
  cases top with
  | directory members changed =>
    rw [remove_below h, child?]
    cases hchild : members.lookup name with
    | some child => simp only [child?, lookup_setMember, Option.map_some]
    | none =>
      simp only [child?, Option.map_none]
      split_ifs with hother
      · rw [hother, hchild]
      · rfl
  | file | archive =>
    rw [remove_of_leaf (by simp [leaf?])]
    simp [child?]

/-- Taking away a member. -/
theorem child?_remove_singleton (top : Entry) (name other : String) :
    (top.remove [name]).child? other = if other = name then none else top.child? other := by
  cases top with
  | directory members changed =>
    rw [remove]
    split_ifs with hthere hother hother
    · rw [child?, lookup_filter_ne, if_pos hother]
    · rw [child?, lookup_filter_ne, if_neg hother, child?]
    · rw [child?, hother]
      exact Option.not_isSome_iff_eq_none.1 hthere
    · rfl
  | file | archive => simp [remove, child?]

/-! ### Places -/

/-- Above a place the entry that is set there is part of what stands there. -/
theorem at?_put_above (h : rest ≠ []) (top new : Entry) (front : List String) :
    (top.put (front ++ rest) new).at? front = (top.at? front).map fun entry => entry.put rest new := by
  induction front generalizing top with
  | nil => rfl
  | cons name front ih =>
    have hrest : front ++ rest ≠ [] := by simp [h]
    rw [List.cons_append, at?, child?_put_cons hrest, if_pos rfl, at?]
    cases top.child? name with
    | none => rfl
    | some child => exact ih child

/-- The directory that something is set in has all of its other members. -/
theorem at?_put_member (h : top.at? front = some (.directory members changed)) (name : String)
    (new : Entry) : ∃ members' changed', (top.put (front ++ [name]) new).at? front =
      some (.directory members' changed') ∧
      (members'.filter fun member => decide (member.1 ≠ name)) =
        members.filter fun member => decide (member.1 ≠ name) := by
  rw [at?_put_above (List.cons_ne_nil _ _), h, Option.map_some, put]
  cases hchild : members.lookup name with
  | some child => exact ⟨_, _, rfl, filter_setMember ..⟩
  | none =>
    refine ⟨members ++ [(name, new)], none, rfl, ?_⟩
    rw [List.filter_append]
    simp

/-- At a place in a directory and below it there is what was set. -/
theorem at?_put_under (hparent : top.IsDirectoryAt front) (new : Entry) (name : String)
    (rest : List String) :
    (top.put (front ++ [name]) new).at? ((front ++ [name]) ++ rest) = new.at? rest := by
  obtain ⟨members, changed, hfront⟩ := isDirectoryAt_iff.1 hparent
  rw [List.append_assoc, at?_append, at?_put_above (by simp), hfront]
  change ((directory members changed).put [name] new).at? (name :: rest) = _
  rw [at?, child?_put_singleton rfl, if_pos rfl]
  rfl

/-- Elsewhere everything stays. -/
theorem at?_put_apart (hunder : ¬ place <+: other) (habove : ¬ other <+: place) (top new : Entry) :
    (top.put place new).at? other = top.at? other := by
  induction place generalizing top other with
  | nil => exact absurd (List.nil_prefix ..) hunder
  | cons name place ih =>
    cases other with
    | nil => exact absurd (List.nil_prefix ..) habove
    | cons first other =>
      have hchild : (top.put (name :: place) new).child? first =
          if first = name then (top.put (name :: place) new).child? name else top.child? first := by
        split_ifs with hfirst
        · rw [hfirst]
        · cases place with
          | nil =>
            cases top with
            | directory members changed => rw [child?_put_singleton rfl, if_neg hfirst]
            | file | archive => rfl
          | cons next place => rw [child?_put_cons (by simp), if_neg hfirst]
      rw [at?, at?, hchild]
      split_ifs with hfirst
      · subst hfirst
        rw [List.cons_prefix_cons, not_and] at hunder habove
        cases place with
        | nil => exact absurd (List.nil_prefix ..) (hunder rfl)
        | cons next place =>
          rw [child?_put_cons (by simp), if_pos rfl]
          cases top.child? first with
          | none => rfl
          | some child => exact ih (hunder rfl) (habove rfl) child
      · rfl

/-- Above a place the entry that is taken away there is missing in what stands there. -/
theorem at?_remove_above (h : rest ≠ []) (top : Entry) (front : List String) :
    (top.remove (front ++ rest)).at? front = (top.at? front).map (remove rest) := by
  induction front generalizing top with
  | nil => rfl
  | cons name front ih =>
    have hrest : front ++ rest ≠ [] := by simp [h]
    rw [List.cons_append, at?, child?_remove_cons hrest, if_pos rfl, at?]
    cases top.child? name with
    | none => rfl
    | some child => exact ih child

/-- The directory that something is taken away from has all of its other members. -/
theorem at?_remove_member (h : top.at? front = some (.directory members changed)) (name : String) :
    ∃ changed', (top.remove (front ++ [name])).at? front =
      some (.directory (members.filter fun member => decide (member.1 ≠ name)) changed') := by
  rw [at?_remove_above (List.cons_ne_nil _ _), h, Option.map_some, remove]
  split_ifs with hthere
  · exact ⟨_, rfl⟩
  · have hnone := lookup_eq_none_iff.1 (Option.not_isSome_iff_eq_none.1 hthere)
    have hothers : ∀ member ∈ members, decide (member.1 ≠ name) = true := fun member hmember =>
      decide_eq_true (ne_of_mem_of_not_mem (List.mem_map_of_mem hmember) hnone)
    exact ⟨changed, by rw [List.filter_eq_self.2 hothers]⟩

/-- At a place and below it there is nothing once it was taken away. -/
theorem at?_remove_under (top : Entry) (front : List String) (name : String) (rest : List String) :
    (top.remove (front ++ [name])).at? ((front ++ [name]) ++ rest) = none := by
  rw [List.append_assoc, at?_append, at?_remove_above (by simp)]
  cases top.at? front with
  | none => rfl
  | some entry =>
    change (entry.remove [name]).at? (name :: rest) = none
    rw [at?, child?_remove_singleton, if_pos rfl]
    rfl

theorem at?_remove_apart (hunder : ¬ place <+: other) (habove : ¬ other <+: place) (top : Entry) :
    (top.remove place).at? other = top.at? other := by
  induction place generalizing top other with
  | nil => exact absurd (List.nil_prefix ..) hunder
  | cons name place ih =>
    cases other with
    | nil => exact absurd (List.nil_prefix ..) habove
    | cons first other =>
      rw [List.cons_prefix_cons, not_and] at hunder habove
      cases place with
      | nil =>
        have hfirst : first ≠ name := fun hfirst => hunder hfirst.symm (List.nil_prefix ..)
        rw [at?, at?, child?_remove_singleton, if_neg hfirst]
      | cons next place =>
        rw [at?, at?, child?_remove_cons (by simp)]
        split_ifs with hfirst
        · subst hfirst
          cases top.child? first with
          | none => rfl
          | some child => exact ih (hunder rfl) (habove rfl) child
        · rfl

/-! ### What is seen -/

/-- What has something set or taken away below it stays a directory, or a file. -/
theorem leaf?_put (h : rest ≠ []) (top new : Entry) : (top.put rest new).leaf? = top.leaf? := by
  obtain ⟨name, rest, rfl⟩ := List.exists_cons_of_ne_nil h
  cases top with
  | directory members changed =>
    rw [put]
    cases members.lookup name with
    | some child => rfl
    | none => dsimp only; split_ifs <;> rfl
  | file | archive => rfl

theorem leaf?_remove (rest : List String) (top : Entry) : (top.remove rest).leaf? = top.leaf? := by
  cases top with
  | directory members changed =>
    rcases rest with _ | ⟨name, _ | ⟨next, rest⟩⟩
    · rfl
    · rw [remove]
      split_ifs <;> rfl
    · rw [remove_below (by simp)]
      cases members.lookup name <;> rfl
  | file | archive => rw [remove_of_leaf (by simp [leaf?])]

/-- What is seen below a place is seen in the entry there. -/
theorem seen_append (top : Entry) (front rest : List String) :
    top.seen (front ++ rest) = (top.at? front).bind fun entry => entry.seen rest := by
  rw [seen, at?_append, Option.map_bind]
  rfl

theorem seen_append_of_none (h : top.seen front = none) (rest : List String) :
    top.seen (front ++ rest) = none := by
  rw [seen_append, Option.map_eq_none_iff.1 h]
  rfl

/-- What has something below it is a directory. -/
theorem isDirectoryAt_of_seen_append (h : top.seen (front ++ rest) ≠ none) (hrest : rest ≠ []) :
    top.IsDirectoryAt front := by
  obtain ⟨name, rest, rfl⟩ := List.exists_cons_of_ne_nil hrest
  rw [seen_append] at h
  cases hentry : top.at? front with
  | none => exact absurd (by rw [hentry]; rfl) h
  | some entry =>
    rw [hentry] at h
    rw [IsDirectoryAt, seen, hentry, Option.map_some, Option.some.injEq]
    by_contra hleaf
    exact h (seen_cons_of_leaf hleaf name rest)

/-- A place that is in a directory, or is one, has only directories above it. -/
theorem IsDirectoryAt.of_prefix (h : top.IsDirectoryAt place) (hstarts : front <+: place) :
    top.IsDirectoryAt front := by
  obtain ⟨rest, rfl⟩ := hstarts
  by_cases hnil : rest = []
  · rw [hnil, List.append_nil] at h
    exact h
  · exact isDirectoryAt_of_seen_append (by rw [h]; simp) hnil

/-- What is above a directory is a directory. -/
theorem IsDirectoryAt.of_concat (h : top.IsDirectoryAt (place ++ [name])) :
    top.IsDirectoryAt place :=
  h.of_prefix (List.prefix_append ..)

theorem IsDirectoryAt.dropLast (h : top.IsDirectoryAt place) :
    top.IsDirectoryAt place.dropLast :=
  h.of_prefix (List.dropLast_prefix place)

/-- Below what is no directory nothing is seen. -/
theorem seen_append_of_not_directory (h : ¬ top.IsDirectoryAt front) (hrest : rest ≠ []) :
    top.seen (front ++ rest) = none := by
  by_contra hsome
  exact h (isDirectoryAt_of_seen_append hsome hrest)

/-- What is not below a place stays as it is when something is set there. -/
theorem seen_put_of_not_under (h : ¬ place <+: other) (top new : Entry) :
    (top.put place new).seen other = top.seen other := by
  by_cases habove : other <+: place
  · obtain ⟨rest, rfl⟩ := habove
    have hne : rest ≠ [] := fun hnil => h ⟨[], by rw [hnil, List.append_nil, List.append_nil]⟩
    rw [seen, at?_put_above hne, Option.map_map, seen]
    exact congrArg (Option.map · _) (funext fun entry => leaf?_put hne entry new)
  · rw [seen, at?_put_apart h habove, seen]

theorem seen_remove_of_not_under (h : ¬ place <+: other) (top : Entry) :
    (top.remove place).seen other = top.seen other := by
  by_cases habove : other <+: place
  · obtain ⟨rest, rfl⟩ := habove
    have hne : rest ≠ [] := fun hnil => h ⟨[], by rw [hnil, List.append_nil, List.append_nil]⟩
    rw [seen, at?_remove_above hne, Option.map_map, seen]
    exact congrArg (Option.map · _) (funext fun entry => leaf?_remove rest entry)
  · rw [seen, at?_remove_apart h habove, seen]

/-- **A tree that is set is seen at its place and below it.** -/
theorem seen_put_tree (hparent : top.IsDirectoryAt front) (new : Entry) (name : String)
    (other : List String) :
    (top.put (front ++ [name]) new).seen other =
      if front ++ [name] <+: other then new.seen (other.drop (front ++ [name]).length)
      else top.seen other := by
  split_ifs with hunder
  · obtain ⟨rest, rfl⟩ := hunder
    rw [seen, at?_put_under hparent, List.drop_left, seen]
  · exact seen_put_of_not_under hunder top new

/-- Where there is no directory nothing can be set. -/
theorem seen_put_of_not_directory (hparent : ¬ top.IsDirectoryAt front) (new : Entry)
    (name : String) (rest : List String) :
    (top.put (front ++ [name]) new).seen ((front ++ [name]) ++ rest) = none := by
  rw [List.append_assoc, seen_append, at?_put_above (by simp)]
  cases hentry : top.at? front with
  | none => rfl
  | some entry =>
    cases entry with
    | directory members changed =>
      exact absurd (isDirectoryAt_iff.2 ⟨members, changed, hentry⟩) hparent
    | file | archive => rfl

/-- **A tree that is taken away is no longer seen, and everything else is.** -/
theorem seen_remove_tree (top : Entry) (front : List String) (name : String)
    (other : List String) :
    (top.remove (front ++ [name])).seen other =
      if front ++ [name] <+: other then none else top.seen other := by
  split_ifs with hunder
  · obtain ⟨rest, rfl⟩ := hunder
    rw [seen, at?_remove_under]
    rfl
  · exact seen_remove_of_not_under hunder top

/-! ### Changes within a place -/

/-- Setting below what stands at a place is setting there what stands there with the change. -/
theorem put_append (h : top.at? front = some child) (rest : List String) (new : Entry) :
    top.put (front ++ rest) new = top.put front (child.put rest new) := by
  induction front generalizing top with
  | nil =>
    obtain rfl := Option.some.inj h
    cases rest <;> rfl
  | cons name front ih =>
    cases top with
    | directory members changed =>
      obtain ⟨found, hfound, hat⟩ := Option.bind_eq_some_iff.1 h
      change members.lookup name = some found at hfound
      rw [List.cons_append, put, put, hfound]
      exact congrArg (fun entry => directory (setMember name entry members) changed) (ih hat)
    | file | archive => exact absurd h (by simp [at?, child?])

theorem put_self (h : top.at? place = some child) : top.put place child = top := by
  induction place generalizing top with
  | nil => exact Option.some.inj h.symm
  | cons name place ih =>
    cases top with
    | directory members changed =>
      obtain ⟨found, hfound, hat⟩ := Option.bind_eq_some_iff.1 h
      change members.lookup name = some found at hfound
      rw [put, hfound]
      dsimp only
      rw [ih hat, setMember_self hfound]
    | file | archive => rfl

/-- What stands at a place can be set twice; the second time counts. -/
theorem put_put (h : top.at? place = some child) (new new' : Entry) :
    (top.put place new).put place new' = top.put place new' := by
  induction place generalizing top with
  | nil => cases top <;> rfl
  | cons name place ih =>
    cases top with
    | directory members changed =>
      obtain ⟨found, hfound, hat⟩ := Option.bind_eq_some_iff.1 h
      change members.lookup name = some found at hfound
      have hlookup : (setMember name (found.put place new) members).lookup name =
          some (found.put place new) := (lookup_setMember ..).trans (if_pos rfl)
      rw [put, put, hfound]
      dsimp only
      rw [put, hlookup]
      dsimp only
      rw [setMember_setMember, ih hat]
    | file | archive => rfl

theorem at?_put_of_at? (h : top.at? place = some child) (new : Entry) :
    (top.put place new).at? place = some new := by
  rcases List.eq_nil_or_concat' place with rfl | ⟨front, name, rfl⟩
  · cases top <;> rfl
  · have hparent : top.IsDirectoryAt front := isDirectoryAt_of_seen_append
      (by rw [seen, h]; simp) (List.cons_ne_nil name [])
    have hunder := at?_put_under hparent new name []
    rwa [List.append_nil] at hunder

/-- **A change within a place:** something stands there, and now something else. -/
def Within (place : List String) (top top' : Entry) : Prop :=
  ∃ child child', top.at? place = some child ∧ top' = top.put place child'

namespace Within

theorem refl (h : top.at? place = some child) : Within place top top :=
  ⟨child, child, h, (put_self h).symm⟩

theorem at? (h : Within place top top') : ∃ child, top'.at? place = some child := by
  obtain ⟨child, child', hat, rfl⟩ := h
  exact ⟨child', at?_put_of_at? hat child'⟩

/-- Setting something at the place or below it. -/
theorem put (h : Within place top top') (rest : List String) (new : Entry) :
    Within place top (top'.put (place ++ rest) new) := by
  obtain ⟨child, child', hat, rfl⟩ := h
  refine ⟨child, child'.put rest new, hat, ?_⟩
  rw [put_append (at?_put_of_at? hat child'), put_put hat]

theorem trans {between : Entry} (h : Within place top between) (h' : Within place between top') :
    Within place top top' := by
  obtain ⟨child, new, hat, rfl⟩ := h
  obtain ⟨-, new', -, rfl⟩ := h'
  exact ⟨child, new', hat, put_put hat new new'⟩

theorem seen_eq (h : Within place top top') {other : List String} (hother : ¬ place <+: other) :
    top'.seen other = top.seen other := by
  obtain ⟨child, child', -, rfl⟩ := h
  exact seen_put_of_not_under hother top child'

theorem at?_eq (h : Within place top top') {other : List String} (hunder : ¬ place <+: other)
    (habove : ¬ other <+: place) : top'.at? other = top.at? other := by
  obtain ⟨child, child', -, rfl⟩ := h
  exact at?_put_apart hunder habove top child'

/-- The directory that the place is in has another member there. -/
theorem members_eq (h : Within (front ++ [name]) top top')
    (hmembers : top.at? front = some (.directory members changed)) :
    ∃ child, top'.at? front = some (.directory (setMember name child members) changed) := by
  obtain ⟨child, child', hat, rfl⟩ := h
  have hlookup : members.lookup name = some child := (at?_concat_iff hmembers).1 hat
  refine ⟨child', ?_⟩
  rw [at?_put_above (List.cons_ne_nil _ _), hmembers, Option.map_some, Entry.put, hlookup]
  rfl

end Within
end Entry
end UsageOrder
