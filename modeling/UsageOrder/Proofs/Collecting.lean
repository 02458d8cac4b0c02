import Mathlib.Data.List.Nodup
import UsageOrder.Proofs.Outcome
import UsageOrder.Styled.References

/-!
# What is collected from the statements of a file

A statement either leaves the collection as it is or adds one declaration at its end, under a name
that is not taken and with the next position (`extend_cases`).  So the names of a collection are
pairwise different, the positions count up from zero (`ofStatements_wellFormed`), and the ranges
stand in the order of the statements (`ofStatements_ranges`).
-/

namespace UsageOrder

/-- A statement declares something: it holds a styled declaration with this name and range. -/
structure Declares (markers : List Json) (statement : Json) (declaration : Declaration) : Prop where
  candidate : Declaration.candidate markers statement =
    .ok (some ⟨declaration.anchor, declaration.initializer, declaration.styled⟩)
  named : ∃ value, declaration.anchor.require "name" = .ok value ∧
    Name.ofJson value = .ok declaration.name
  ranged : statement.range = .ok declaration.range

namespace Collection

/-- The names are pairwise different and the positions are the places in the collection. -/
structure WellFormed (collection : Collection) : Prop where
  distinct : collection.names.Pairwise fun a b => (a == b) = false
  positions : collection.map Declaration.position = List.range collection.length

/-- **What a statement does to a collection.** -/
theorem extend_cases {markers : List Json} {found found' : Collection} {statement : Json}
    (h : extend markers found statement = .ok found') :
    found' = found ∨ ∃ declaration, Declares markers statement declaration ∧
      found.names.contains declaration.name = false ∧ declaration.position = found.length ∧
        found' = found ++ [declaration] := by
  obtain ⟨held, hheld, h⟩ := bind_eq_ok_iff.1 h
  cases held with
  | none => exact Or.inl (Except.ok.inj h).symm
  | some candidate =>
    obtain ⟨value, hvalue, h⟩ := bind_eq_ok_iff.1 h
    obtain ⟨name, hname, h⟩ := bind_eq_ok_iff.1 h
    split at h
    · exact Or.inl (Except.ok.inj h).symm
    · rename_i hnew
      obtain ⟨range, hrange, h⟩ := bind_eq_ok_iff.1 h
      exact Or.inr ⟨_, ⟨hheld, ⟨value, hvalue, hname⟩, hrange⟩, Bool.not_eq_true _ ▸ hnew, rfl,
        (Except.ok.inj h).symm⟩

theorem names_concat (collection : Collection) (declaration : Declaration) :
    names (collection ++ [declaration]) = collection.names ++ [declaration.name] := by
  simp [names]

theorem WellFormed.extend {markers : List Json} {found found' : Collection} {statement : Json}
    (hfound : found.WellFormed) (h : extend markers found statement = .ok found') :
    found'.WellFormed := by
  rcases extend_cases h with rfl | ⟨declaration, -, hnew, hposition, rfl⟩
  · exact hfound
  · constructor
    · rw [names_concat, List.pairwise_append]
      refine ⟨hfound.distinct, List.pairwise_singleton _ _, fun name hname other hother => ?_⟩
      obtain rfl := List.mem_singleton.1 hother
      rw [Bool.eq_false_iff]
      intro heq
      have hcontains : found.names.contains declaration.name = true :=
        List.contains_iff_exists_mem_beq.2 ⟨name, hname, PartialEquivBEq.symm heq⟩
      exact Bool.false_ne_true (hnew.symm.trans hcontains)
    · rw [List.map_append, hfound.positions, List.length_append, List.length_singleton,
        List.range_succ, List.map_singleton, hposition]

/-- **The names of a collection are pairwise different,** and positions are places. -/
theorem ofStatements_wellFormed {markers body : List Json} {collection : Collection}
    (h : ofStatements markers body = .ok collection) : collection.WellFormed := by
  have hrun : ∀ found : Collection, found.WellFormed →
      body.foldlM (extend markers) found = .ok collection → collection.WellFormed := by
    clear h
    induction body with
    | nil => exact fun found hfound h => Except.ok.inj h ▸ hfound
    | cons statement body ih =>
      intro found hfound h
      rw [List.foldlM_cons] at h
      obtain ⟨next, hnext, h⟩ := bind_eq_ok_iff.1 h
      exact ih next (hfound.extend hnext) h
  exact hrun [] ⟨List.Pairwise.nil, rfl⟩ h

/-- The ranges of the declarations are those of some of the statements, in their order. -/
theorem ofStatements_ranges {markers body : List Json} {collection : Collection}
    (h : ofStatements markers body = .ok collection) {ranges : List Range}
    (hranges : body.mapM Json.range = .ok ranges) :
    (collection.map Declaration.range).Sublist ranges := by
  have hrun : ∀ found : Collection, body.foldlM (extend markers) found = .ok collection →
      ∃ added, collection = found ++ added ∧ (added.map Declaration.range).Sublist ranges := by
    clear h
    induction body generalizing ranges with
    | nil => exact fun found h => ⟨[], by simpa using (Except.ok.inj h).symm, List.nil_sublist _⟩
    | cons statement body ih =>
      intro found h
      obtain ⟨first, rest, hfirst, hrest, rfl⟩ := mapM_cons_eq_ok_iff.1 hranges
      rw [List.foldlM_cons] at h
      obtain ⟨next, hnext, h⟩ := bind_eq_ok_iff.1 h
      obtain ⟨added, hadded, hsub⟩ := ih hrest next h
      rcases extend_cases hnext with rfl | ⟨declaration, hdeclares, -, -, rfl⟩
      · exact ⟨added, hadded, hsub.cons first⟩
      · obtain rfl := Except.ok.inj (hfirst.symm.trans hdeclares.ranged)
        exact ⟨declaration :: added, by simpa using hadded, hsub.cons_cons _⟩
  obtain ⟨added, rfl, hsub⟩ := hrun [] h
  exact hsub

/-! ### Looking up declarations -/

namespace WellFormed

variable {collection : Collection}

/-- A declaration is found under its name. -/
theorem named?_name (h : collection.WellFormed) {declaration : Declaration}
    (hmem : declaration ∈ collection) : collection.named? declaration.name = some declaration := by
  obtain ⟨hdistinct, -⟩ := h
  induction collection with
  | nil => exact absurd hmem List.not_mem_nil
  | cons first collection ih =>
    obtain ⟨hfirst, hdistinct⟩ := List.pairwise_cons.1 hdistinct
    rw [named?, List.find?_cons]
    rcases List.mem_cons.1 hmem with rfl | hmem
    · rw [BEq.rfl]
    · rw [hfirst declaration.name (List.mem_map_of_mem hmem)]
      exact ih hmem hdistinct

theorem filterMap_named?_names (h : collection.WellFormed) :
    collection.names.filterMap collection.named? = collection := by
  have hsub : ∀ part : Collection, part ⊆ collection →
      part.names.filterMap collection.named? = part := by
    intro part hpart
    induction part with
    | nil => rfl
    | cons first part ih =>
      obtain ⟨hfirst, hpart⟩ := List.cons_subset.1 hpart
      rw [names, List.map_cons, List.filterMap_cons, h.named?_name hfirst]
      exact congrArg (first :: ·) (ih hpart)
  exact hsub collection (List.Subset.refl _)

/-- An arrangement of the names is one of the declarations. -/
theorem filterMap_named?_perm (h : collection.WellFormed) {order : List Name}
    (hperm : order.Perm collection.names) :
    (order.filterMap collection.named?).Perm collection := by
  have hdeclarations := hperm.filterMap collection.named?
  rwa [h.filterMap_named?_names] at hdeclarations

/-- Looking up names of the collection loses none of them. -/
theorem names_filterMap_named? (h : collection.WellFormed) {order : List Name}
    (hsub : order ⊆ collection.names) :
    names (order.filterMap collection.named?) = order := by
  induction order with
  | nil => rfl
  | cons name order ih =>
    obtain ⟨hname, hrest⟩ := List.cons_subset.1 hsub
    obtain ⟨declaration, hmem, rfl⟩ := List.mem_map.1 hname
    rw [List.filterMap_cons, h.named?_name hmem]
    exact congrArg (declaration.name :: ·) (ih hrest)

/-- The declarations stand in the order of their positions. -/
theorem pairwise_position (h : collection.WellFormed) :
    collection.Pairwise fun a b => a.position < b.position := by
  have hrange : (List.range collection.length).Pairwise (· < ·) := List.pairwise_lt_range
  rw [← h.positions, List.pairwise_map] at hrange
  exact hrange

/-- Two declarations whose names count as equal are one. -/
theorem eq_of_name_beq (h : collection.WellFormed) {a b : Declaration} (ha : a ∈ collection)
    (hb : b ∈ collection) (hname : (a.name == b.name) = true) : a = b := by
  have hsame : collection.named? a.name = collection.named? b.name := by
    rw [named?, named?]
    exact congrArg (collection.find? ·) (funext fun declaration => BEq.congr_right hname)
  rw [h.named?_name ha, h.named?_name hb] at hsame
  exact Option.some.inj hsame

/-- Two declarations with equal names are one. -/
theorem eq_of_name_eq (h : collection.WellFormed) {a b : Declaration} (ha : a ∈ collection)
    (hb : b ∈ collection) (hname : a.name = b.name) : a = b :=
  h.eq_of_name_beq ha hb (hname ▸ BEq.rfl)

theorem eq_of_position_eq (h : collection.WellFormed) {a b : Declaration} (ha : a ∈ collection)
    (hb : b ∈ collection) (hposition : a.position = b.position) : a = b := by
  have hnodup : (collection.map Declaration.position).Nodup := by
    rw [h.positions]
    exact List.nodup_range
  exact List.inj_on_of_nodup_map hnodup ha hb hposition

end WellFormed

/-! ### Prerequisites -/

/-- Of equal items one is kept. -/
theorem exists_mem_eraseDups {α : Type} [BEq α] [EquivBEq α] (items : List α) {item : α}
    (h : item ∈ items) : ∃ kept ∈ items.eraseDups, (kept == item) = true := by
  match items, h with
  | first :: rest, h =>
    rw [List.eraseDups_cons]
    by_cases hfirst : (item == first) = true
    · exact ⟨first, List.mem_cons_self .., PartialEquivBEq.symm hfirst⟩
    · have hrest : item ∈ rest.filter fun b => !b == first := by
        rcases List.mem_cons.1 h with rfl | h
        · exact absurd BEq.rfl hfirst
        · exact List.mem_filter.2 ⟨h, by simpa using hfirst⟩
      obtain ⟨kept, hkept, heq⟩ := exists_mem_eraseDups _ hrest
      exact ⟨kept, List.mem_cons_of_mem _ hkept, heq⟩
termination_by items.length
decreasing_by exact Nat.lt_succ_of_le (List.length_filter_le _ _)

/-- The prerequisites of a declaration are texts. -/
theorem prerequisitesOf_texts {tracked others : List Name} {declaration : Declaration}
    (h : prerequisitesOf tracked declaration = .ok others) :
    ∃ ss : List String, others = ss.map .text := by
  obtain ⟨names, -, h⟩ := bind_eq_ok_iff.1 h
  obtain ⟨ss, hss, h⟩ := bind_eq_ok_iff.1 h
  exact ⟨ss, (Except.ok.inj h) ▸ Name.texts_eq_ok_iff.1 hss⟩

/-- A tracked name that an initializer yields is among the prerequisites, unless it is the name of
the declaration itself. -/
theorem exists_mem_prerequisitesOf {tracked others : List Name} {declaration : Declaration}
    (h : prerequisitesOf tracked declaration = .ok others) {value : Json} {name : Name}
    (hvalue : .ok value ∈ declaration.initializer.references) (hname : Name.ofJson value = .ok name)
    (htracked : tracked.contains name = true) (hother : name.same declaration.name = false) :
    ∃ other ∈ others, (other == name) = true := by
  obtain ⟨names, hnames, h⟩ := bind_eq_ok_iff.1 h
  obtain ⟨ss, -, h⟩ := bind_eq_ok_iff.1 h
  obtain rfl := Except.ok.inj h
  have hmem : name ∈ names := by
    obtain ⟨yielded, hmem, hyielded⟩ := exists_mem_of_mapM hnames hvalue
    obtain rfl := Except.ok.inj (hname.symm.trans hyielded)
    exact hmem
  exact exists_mem_eraseDups _ (List.mem_filter.2 ⟨hmem, by rw [htracked, hother]; rfl⟩)

/-- The prerequisites listed under the name of a declaration are those of the declaration. -/
theorem before_name {collection : Collection} {prerequisites : Prerequisites Name}
    (hcollection : collection.WellFormed) (h : collection.prerequisites = .ok prerequisites)
    {declaration : Declaration} (hmem : declaration ∈ collection) :
    prerequisitesOf collection.names declaration = .ok (prerequisites.before declaration.name) := by
  have hlookup : ∀ part : Collection, declaration ∈ part →
      (part.names.Pairwise fun a b => (a == b) = false) → ∀ entries : Prerequisites Name,
        (part.mapM fun declaration => do
          .ok (declaration.name, ← prerequisitesOf collection.names declaration)) = .ok entries →
        prerequisitesOf collection.names declaration = .ok (entries.before declaration.name) := by
    intro part hpart hdistinct
    induction part with
    | nil => exact absurd hpart List.not_mem_nil
    | cons first part ih =>
      intro entries hentries
      obtain ⟨hfirst, hdistinct⟩ := List.pairwise_cons.1 hdistinct
      obtain ⟨entry, rest, hentry, hrest, rfl⟩ := mapM_cons_eq_ok_iff.1 hentries
      obtain ⟨others, hothers, hentry⟩ := bind_eq_ok_iff.1 hentry
      obtain rfl := Except.ok.inj hentry
      rw [Prerequisites.before, List.lookup_cons]
      rcases List.mem_cons.1 hpart with rfl | hpart
      · rw [BEq.rfl]
        exact hothers
      · have hne : (declaration.name == first.name) = false := by
          rw [Bool.eq_false_iff]
          intro heq
          exact Bool.false_ne_true ((hfirst declaration.name (List.mem_map_of_mem hpart)).symm.trans
            (PartialEquivBEq.symm heq))
        rw [hne]
        exact ih hpart hdistinct rest hrest
  exact hlookup collection hmem hcollection.distinct prerequisites h

end Collection
end UsageOrder
