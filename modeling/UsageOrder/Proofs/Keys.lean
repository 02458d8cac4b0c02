import Mathlib.Data.List.Basic
import UsageOrder.Json.Basic

/-!
# What stands under a key

The members of an object and those of a directory are lists of entries under keys.  An entry that is
found under a key is one of the list (`mem_of_lookup`), and where the keys are different every entry of
the list is found (`lookup_eq_some_of_mem`).  Setting a member changes what stands under its key and
nothing else (`memberOf?_setMember`).
-/

namespace UsageOrder

variable {β : Type} {entries : List (String × β)} {key : String} {value : β}

theorem lookup_member (key : String) (value : β) (entries : List (String × β)) (other : String) :
    ((key, value) :: entries).lookup other =
      if other = key then some value else entries.lookup other := by
  rw [List.lookup_cons]
  by_cases hother : other = key
  · rw [if_pos hother, hother, BEq.rfl]
  · rw [if_neg hother, beq_false_of_ne hother]

theorem lookup_eq_none_iff : entries.lookup key = none ↔ key ∉ entries.map Prod.fst := by
  induction entries with
  | nil => simp
  | cons entry entries ih =>
    obtain ⟨other, value⟩ := entry
    rw [lookup_member, List.map_cons, List.mem_cons, not_or, ← ih]
    split_ifs with hother <;> simp [hother]

theorem mem_of_lookup (h : entries.lookup key = some value) : (key, value) ∈ entries := by
  obtain ⟨front, back, rfl, -⟩ := List.lookup_eq_some_iff.1 h
  simp

/-- Where keys are different, an entry is found under its key. -/
theorem lookup_eq_some_of_mem (h : (entries.map Prod.fst).Nodup) (hmem : (key, value) ∈ entries) :
    entries.lookup key = some value := by
  induction entries with
  | nil => exact absurd hmem List.not_mem_nil
  | cons entry entries ih =>
    obtain ⟨other, first⟩ := entry
    obtain ⟨hnew, hrest⟩ := List.nodup_cons.1 h
    rw [lookup_member]
    rcases List.mem_cons.1 hmem with heq | hthere
    · obtain ⟨rfl, rfl⟩ := Prod.mk.inj heq
      exact if_pos rfl
    · have hkey : key ≠ other := fun heq => hnew (heq ▸ List.mem_map.2 ⟨_, hthere, rfl⟩)
      rw [if_neg hkey, ih hrest hthere]

/-- Of the entries under some keys those are found that are under the others. -/
theorem lookup_filter (kept : String → Bool) (entries : List (String × β)) (key : String) :
    (entries.filter fun entry => kept entry.1).lookup key =
      if kept key = true then entries.lookup key else none := by
  induction entries with
  | nil => simp
  | cons entry entries ih =>
    obtain ⟨other, value⟩ := entry
    rw [List.filter_cons, lookup_member]
    dsimp only
    by_cases hkey : key = other
    · subst hkey
      by_cases hkept : kept key = true
      · rw [if_pos hkept, lookup_member, if_pos rfl, if_pos rfl, if_pos hkept]
      · rw [if_neg hkept, ih, if_neg hkept, if_neg hkept]
    · rw [if_neg hkey, ← ih]
      split_ifs
      · rw [lookup_member, if_neg hkey]
      · rfl

namespace Json

theorem memberOf?_cons (key : String) (value : Json) (members : List (String × Json))
    (other : String) :
    memberOf? other ((key, value) :: members) =
      if other = key then some value else memberOf? other members :=
  lookup_member key value members other

theorem memberOf?_setMember (key : String) (new : Json) (members : List (String × Json))
    (other : String) :
    memberOf? other (setMember key new members) =
      if other = key then some new else memberOf? other members := by
  induction members with
  | nil => exact memberOf?_cons key new [] other
  | cons member members ih =>
    obtain ⟨name, value⟩ := member
    rw [setMember, memberOf?_cons]
    by_cases hname : name = key
    · rw [if_pos hname, memberOf?_cons, hname]
      split_ifs <;> rfl
    · rw [if_neg hname, memberOf?_cons, ih]
      by_cases h : other = name
      · rw [if_pos h, if_neg (h ▸ hname), if_pos h]
      · rw [if_neg h, if_neg h]

end Json
end UsageOrder
