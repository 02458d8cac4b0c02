import Mathlib.Order.Bounds.Basic
import UsageOrder.Proofs.Gathering

/-!
# First uses among the elements of a tree

A name is used where an element is opened with it, at any depth of a statement that is not the own
statement of a declaration (`UsedAt`).  Statements are passed over by their ranges, and among
statements with different ranges these tell which ones are own (`mem_ranges_iff_owns`).  So the
first use that is found is the least offset of a use, whatever the order of the search
(`isFirst_least`), and the main statement is `structural_first`.
-/

namespace UsageOrder

/-- **The least offset with a property,** or none if no offset has it. -/
def IsFirst (P : Int → Prop) : Option Int → Prop
  | some offset => IsLeast {offset | P offset} offset
  | none => ∀ offset, ¬ P offset

namespace IsFirst

variable {P Q : Int → Prop} {first first' : Option Int}

theorem congr (h : IsFirst P first) (hiff : ∀ offset, P offset ↔ Q offset) : IsFirst Q first := by
  rwa [← show P = Q from funext fun offset => propext (hiff offset)]

theorem unique (h : IsFirst P first) (h' : IsFirst P first') : first = first' := by
  cases first with
  | none =>
    cases first' with
    | none => rfl
    | some offset' => exact absurd h'.1 (h offset')
  | some offset =>
    cases first' with
    | none => exact absurd h.1 (h' offset)
    | some offset' => exact congrArg some (h.unique h')

end IsFirst

theorem isFirst_min? (offsets : List Int) : IsFirst (· ∈ offsets) offsets.min? := by
  cases hmin : offsets.min? with
  | none =>
    rw [List.min?_eq_none_iff.1 hmin]
    exact fun _ => List.not_mem_nil
  | some offset => exact List.min?_eq_some_iff.1 hmin

namespace Json

/-- A node stands within another one: it is that node or stands below it, at any depth. -/
def Within (node below : Json) : Prop :=
  Relation.ReflTransGen (fun node child => child ∈ node.children) node below

/-- **The walk visits the nodes within a node.** -/
theorem mem_walk_iff {node below : Json} : below ∈ node.walk ↔ node.Within below := by
  constructor
  · intro h
    induction node using below_induction with
    | h node ih =>
      rw [walk_eq] at h
      rcases List.mem_cons.1 h with rfl | h
      · exact .refl
      · obtain ⟨child, hchild, h⟩ := List.mem_flatMap.1 h
        exact .head hchild (ih child hchild child (mem_walk_self child) h)
  · intro h
    induction h using Relation.ReflTransGen.head_induction_on with
    | refl => exact mem_walk_self below
    | head hchild _ ih => exact walk_subset_of_mem_children hchild ih

end Json

/-- A node opens an element with a name. -/
structure Opens (node : Json) (name : Name) : Prop where
  kind : node.kind = .openingElement
  tag : ∃ tag value, node.get? "name" = some tag ∧ tag.kind = .elementName ∧
    tag.get? "name" = some value ∧ Name.ofJson value = .ok name

/-- A statement is the own statement of a declaration. -/
def Collection.Owns (markers : List Json) (collection : Collection) (statement : Json) : Prop :=
  ∃ declaration ∈ collection, TakenFrom markers statement declaration

/-- **A name is used at an offset:** an element that is opened with it starts there, at any depth of a
statement that is not the own statement of a declaration. -/
def UsedAt (markers body : List Json) (collection : Collection) (name : Name) (offset : Int) : Prop :=
  ∃ statement ∈ body, ¬ collection.Owns markers statement ∧
    ∃ node opened range, statement.Within node ∧ Opens node opened ∧ (opened == name) = true ∧
      node.range = .ok range ∧ range.start = offset

namespace FirstUses

variable {markers body body' : List Json} {statement node : Json} {tracked : List Name}
  {declared : List Range} {collection : Collection} {uses : FirstUses}

/-! ### The uses in a statement -/

theorem ofNode_eq_some_iff {use : Name × Int} :
    ofNode tracked node = .ok (some use) ↔ Opens node use.1 ∧ tracked.contains use.1 = true ∧
      ∃ range, node.range = .ok range ∧ range.start = use.2 := by
  constructor
  · intro h
    rw [ofNode] at h
    split at h
    case isTrue => exact absurd (Except.ok.inj h) (by simp)
    case isFalse hkind =>
      dsimp only at h
      split at h
      case isTrue => exact absurd (Except.ok.inj h) (by simp)
      case isFalse htag =>
        obtain ⟨value, hvalue, h⟩ := bind_eq_ok_iff.1 h
        obtain ⟨name, hname, h⟩ := bind_eq_ok_iff.1 h
        split at h
        case isFalse => exact absurd (Except.ok.inj h) (by simp)
        case isTrue htracked =>
          obtain ⟨range, hrange, h⟩ := bind_eq_ok_iff.1 h
          obtain rfl := Option.some.inj (Except.ok.inj h)
          have htag := not_not.1 htag
          have hnode := Json.isNode_of_kind (ne_of_eq_of_ne htag (by simp))
          exact ⟨⟨not_not.1 hkind, _, value, Json.get?_of_isNode hnode, htag,
            Json.require_eq_ok_iff.1 hvalue, hname⟩, htracked, range, hrange, rfl⟩
  · rintro ⟨⟨hkind, tag, value, htag, hname, hvalue, hopened⟩, htracked, range, hrange, hstart⟩
    rw [ofNode]
    simp only [hkind, Json.getD_of_get? htag, hname, Json.require_eq_ok_iff.2 hvalue, hopened,
      htracked, hrange, hstart, bind, Except.bind, ne_eq, not_true_eq_false, if_false, if_true]

/-- What is found in a statement are the uses in it, unless its range is one of the given ones. -/
theorem mem_ofStatement_iff {found : List (Name × Int)}
    (h : ofStatement tracked declared statement = .ok found) {use : Name × Int} :
    use ∈ found ↔ (∃ range, statement.range = .ok range ∧ range ∉ declared) ∧
      ∃ node ∈ statement.walk, ofNode tracked node = .ok (some use) := by
  obtain ⟨range, hrange, h⟩ := bind_eq_ok_iff.1 h
  split_ifs at h with hdeclared
  · obtain rfl := Except.ok.inj h
    refine iff_of_false List.not_mem_nil ?_
    rintro ⟨⟨range', hrange', hother⟩, -⟩
    obtain rfl := Except.ok.inj (hrange.symm.trans hrange')
    exact hother hdeclared
  · obtain ⟨results, hresults, h⟩ := bind_eq_ok_iff.1 h
    obtain rfl := Except.ok.inj h
    rw [List.mem_filterMap]
    constructor
    · rintro ⟨result, hresult, huse⟩
      obtain ⟨node, hnode, heq⟩ := exists_mem_of_mapM_result hresults hresult
      exact ⟨⟨range, hrange, hdeclared⟩, node, hnode, heq.trans (congrArg Except.ok huse)⟩
    · rintro ⟨-, node, hnode, huse⟩
      obtain ⟨result, hresult, heq⟩ := exists_mem_of_mapM hresults hnode
      obtain rfl := Except.ok.inj (heq.symm.trans huse)
      exact ⟨_, hresult, rfl⟩

/-- **What is least among uses is the first of them.** -/
theorem isFirst_least (uses : List (Name × Int)) (name : Name) :
    IsFirst (fun offset => ∃ opened, (opened, offset) ∈ uses ∧ (opened == name) = true)
      (least uses name) := by
  refine (isFirst_min? _).congr fun offset => ?_
  simp only [List.mem_map, List.mem_filter]
  constructor
  · rintro ⟨⟨opened, _⟩, hmem, rfl⟩
    exact ⟨opened, hmem⟩
  · rintro ⟨opened, hmem⟩
    exact ⟨(opened, offset), hmem, rfl⟩

/-! ### The uses in a body -/

theorem structural_eq_ok_iff : structural body collection = .ok uses ↔ ∃ found,
    body.mapM (ofStatement collection.names (collection.map Declaration.range)) = .ok found ∧
      uses = collection.names.map fun name => (name, least found.flatten name) := by
  rw [structural, bind_eq_ok_iff]
  exact exists_congr fun found => and_congr_right fun _ =>
    ⟨fun h => (Except.ok.inj h).symm, fun h => congrArg Except.ok h.symm⟩

/-- What is found in a body are the uses in its statements. -/
theorem mem_flatten_iff {found : List (List (Name × Int))}
    (h : body.mapM (ofStatement tracked declared) = .ok found) {use : Name × Int} :
    use ∈ found.flatten ↔ ∃ statement ∈ body,
      (∃ range, statement.range = .ok range ∧ range ∉ declared) ∧
        ∃ node ∈ statement.walk, ofNode tracked node = .ok (some use) := by
  rw [List.mem_flatten]
  constructor
  · rintro ⟨part, hpart, huse⟩
    obtain ⟨statement, hstatement, heq⟩ := exists_mem_of_mapM_result h hpart
    exact ⟨statement, hstatement, (mem_ofStatement_iff heq).1 huse⟩
  · rintro ⟨statement, hstatement, huse⟩
    obtain ⟨part, hpart, heq⟩ := exists_mem_of_mapM h hstatement
    exact ⟨part, hpart, (mem_ofStatement_iff heq).2 huse⟩

/-- Statements with the same range are one, if all ranges are different. -/
theorem eq_of_range_eq {ranges : List Range} (hranges : body.mapM Json.range = .ok ranges)
    (hdistinct : ranges.Nodup) {other : Json} (hstatement : statement ∈ body) (hother : other ∈ body)
    {range : Range} (hrange : statement.range = .ok range) (hrange' : other.range = .ok range) :
    statement = other := by
  induction body generalizing ranges with
  | nil => exact absurd hstatement List.not_mem_nil
  | cons first body ih =>
    obtain ⟨head, rest, hhead, hrest, rfl⟩ := mapM_cons_eq_ok_iff.1 hranges
    obtain ⟨hnew, hdistinct⟩ := List.nodup_cons.1 hdistinct
    -- The range of the first statement is not that of a later one.
    have hlater : ∀ later ∈ body, later.range = .ok range → first.range ≠ .ok range := by
      intro later hlater heq hfirst
      obtain ⟨found, hfound, hlaterFound⟩ := exists_mem_of_mapM hrest hlater
      obtain rfl := Except.ok.inj (heq.symm.trans hlaterFound)
      obtain rfl := Except.ok.inj (hfirst.symm.trans hhead)
      exact hnew hfound
    rcases List.mem_cons.1 hstatement with rfl | hbehind
    · rcases List.mem_cons.1 hother with rfl | hbehind'
      · rfl
      · exact absurd hrange (hlater other hbehind' hrange')
    · rcases List.mem_cons.1 hother with rfl | hbehind'
      · exact absurd hrange' (hlater statement hbehind hrange)
      · exact ih hrest hdistinct hbehind hbehind'

/-- **The own statements are those with the range of a declaration.** -/
theorem mem_ranges_iff_owns (hcollection : Collection.ofStatements markers body = .ok collection)
    {ranges : List Range} (hranges : body.mapM Json.range = .ok ranges) (hdistinct : ranges.Nodup)
    (hstatement : statement ∈ body) {range : Range} (hrange : statement.range = .ok range) :
    range ∈ collection.map Declaration.range ↔ collection.Owns markers statement := by
  rw [List.mem_map]
  constructor
  · rintro ⟨declaration, hmem, rfl⟩
    obtain ⟨indices, hgathered⟩ := Collection.ofStatements_gathered hcollection
    obtain ⟨index, -, other, hother, htaken⟩ :=
      exists_mem_of_forall₂ hgathered.taken.flip hmem
    obtain rfl := eq_of_range_eq hranges hdistinct hstatement (List.mem_of_getElem? hother) hrange
      htaken.ranged
    exact ⟨declaration, hmem, htaken⟩
  · rintro ⟨declaration, hmem, htaken⟩
    exact ⟨declaration, hmem, Except.ok.inj (htaken.ranged.symm.trans hrange)⟩

/-- Nothing is found in an own statement, and in any other one with its range. -/
theorem ofStatement_of_owns {statement' : Json} (h : collection.Owns markers statement)
    (hrange : statement'.range = statement.range) :
    ofStatement tracked (collection.map Declaration.range) statement' = .ok [] := by
  obtain ⟨declaration, hmem, htaken⟩ := h
  rw [ofStatement, hrange, htaken.ranged]
  exact if_pos (List.mem_map_of_mem hmem)

theorem mapM_congr_forall₂ {α β : Type} {f : α → Except Fault β} {items items' : List α}
    (h : List.Forall₂ (fun item item' => f item = f item') items items') :
    items.mapM f = items'.mapM f := by
  induction h with
  | nil => rfl
  | cons hfirst _ ih => rw [List.mapM_cons, List.mapM_cons, hfirst, ih]

/-- **First uses are found whatever the order of the search,** and nothing in the own statements of
the declarations counts: each name is given the least offset of its uses. -/
theorem structural_first (hcollection : Collection.ofStatements markers body = .ok collection)
    {ranges : List Range} (hranges : body.mapM Json.range = .ok ranges) (hdistinct : ranges.Nodup)
    (h : structural body collection = .ok uses) :
    uses.map Prod.fst = collection.names ∧
      (∀ use ∈ uses, IsFirst (UsedAt markers body collection use.1) use.2) ∧
      (∀ body', body'.Perm body → structural body' collection = .ok uses) ∧
      ∀ body', List.Forall₂ (fun statement statement' => statement' = statement ∨
          collection.Owns markers statement ∧ statement'.range = statement.range) body body' →
        structural body' collection = .ok uses := by
  obtain ⟨found, hfound, rfl⟩ := structural_eq_ok_iff.1 h
  refine ⟨by simp [Function.comp_def], ?_, fun body' hperm => ?_, fun body' hbody' => ?_⟩
  · intro use huse
    obtain ⟨name, hname, rfl⟩ := List.mem_map.1 huse
    refine (isFirst_least _ _).congr fun offset => ?_
    simp only [mem_flatten_iff hfound, ofNode_eq_some_iff, Json.mem_walk_iff]
    constructor
    · rintro ⟨opened, ⟨statement, hstatement, ⟨range, hrange, hother⟩, node, hnode, hopens, -,
        place, hplace, hstart⟩, heq⟩
      exact ⟨statement, hstatement,
        (mem_ranges_iff_owns hcollection hranges hdistinct hstatement hrange).not.1 hother,
        node, opened, place, hnode, hopens, heq, hplace, hstart⟩
    · rintro ⟨statement, hstatement, hother, node, opened, place, hnode, hopens, heq, hplace, hstart⟩
      obtain ⟨range, -, hrange⟩ := exists_mem_of_mapM hranges hstatement
      exact ⟨opened, ⟨statement, hstatement, ⟨range, hrange,
        (mem_ranges_iff_owns hcollection hranges hdistinct hstatement hrange).not.2 hother⟩,
        node, hnode, hopens, List.contains_iff_exists_mem_beq.2 ⟨name, hname, heq⟩,
        place, hplace, hstart⟩, heq⟩
  · obtain ⟨found', hfound'⟩ : ∃ found', body'.mapM
        (ofStatement collection.names (collection.map Declaration.range)) = .ok found' :=
      exists_mapM_of_forall fun statement hstatement => by
        obtain ⟨part, -, hpart⟩ := exists_mem_of_mapM hfound (hperm.mem_iff.1 hstatement)
        exact ⟨part, hpart⟩
    refine structural_eq_ok_iff.2 ⟨found', hfound', ?_⟩
    refine List.map_congr_left fun name _ => Prod.ext rfl ?_
    refine ((isFirst_least _ _).congr fun offset => ?_).unique (isFirst_least _ _)
    simp only [mem_flatten_iff hfound, mem_flatten_iff hfound', hperm.mem_iff]
  · refine structural_eq_ok_iff.2 ⟨found, ?_, rfl⟩
    rw [← hfound]
    refine (mapM_congr_forall₂ (hbody'.imp fun statement statement' hsame => ?_)).symm
    rcases hsame with rfl | ⟨hown, hrange⟩
    · rfl
    · rw [ofStatement_of_owns hown hrange, ofStatement_of_owns hown rfl]

/-! ### Elements within elements -/

open Rule (cssStatement cssDeclaration titleElement)

/-- An element with a tag, whose opening starts at an offset, and what is inside. -/
def elementAt (tag : String) (start : Int) (inside : List Json) : Json :=
  .obj [("type", .str "JSXElement"),
    ("openingElement", .obj [("type", .str "JSXOpeningElement"),
      ("name", .obj [("type", .str "JSXIdentifier"), ("name", .str tag)]),
      ("range", .arr [.int start, .int (start + tag.length + 2)])]),
    ("children", .arr inside)]

/-- A statement, the wrapper of a title, and a wrapper with two titles, the later one first. -/
def nestedTitles (first : Json) : List Json :=
  [first, cssStatement "Wrapper" ⟨21, 51⟩ ["Title"],
    .obj [("type", .str "ExpressionStatement"), ("range", .arr [.int 52, .int 110]),
      ("expression", elementAt "Wrapper" 52 [elementAt "Title" 80 [], elementAt "Title" 61 []])]]

/-- The title is first used at 61, also if the statements come in another order, or if the one that
declares it turns into an element. -/
theorem structural_first_nestedTitles :
    let markers := Styled.defaultMarkers.map Json.str
    let body := nestedTitles (cssStatement "Title" ⟨0, 20⟩ [])
    let collection : Collection :=
      [cssDeclaration "Title" 0 ⟨0, 20⟩ [], cssDeclaration "Wrapper" 1 ⟨21, 51⟩ ["Title"]]
    let uses : FirstUses := [(.text "Title", some 61), (.text "Wrapper", some 52)]
    Collection.ofStatements markers body = .ok collection ∧
      body.mapM Json.range = .ok [⟨0, 20⟩, ⟨21, 51⟩, ⟨52, 110⟩] ∧
      [(⟨0, 20⟩ : Range), ⟨21, 51⟩, ⟨52, 110⟩].Nodup ∧ structural body collection = .ok uses ∧
      IsFirst (UsedAt markers body collection (.text "Title")) (some 61) ∧
      structural body.reverse collection = .ok uses ∧
      structural (nestedTitles (titleElement ⟨0, 20⟩ [("range", .arr [.int 0, .int 7])])) collection =
        .ok uses := by
  intro markers body collection uses
  have hcollection : Collection.ofStatements markers body = .ok collection := rfl
  have hranges : body.mapM Json.range = .ok [⟨0, 20⟩, ⟨21, 51⟩, ⟨52, 110⟩] := rfl
  have hdistinct : [(⟨0, 20⟩ : Range), ⟨21, 51⟩, ⟨52, 110⟩].Nodup := by decide
  have huses : structural body collection = .ok uses := by cbv
  obtain ⟨-, hfirst, hperm, hchanged⟩ := structural_first hcollection hranges hdistinct huses
  have hown : collection.Owns markers (cssStatement "Title" ⟨0, 20⟩ []) :=
    ⟨_, List.mem_cons_self .., Declaration.candidate_eq_some_iff.1 rfl, ⟨.str "Title", rfl, rfl⟩, rfl⟩
  exact ⟨hcollection, hranges, hdistinct, huses, hfirst _ (List.mem_cons_self ..),
    hperm _ (List.reverse_perm _),
    hchanged _ (.cons (Or.inr ⟨hown, rfl⟩) (.cons (Or.inl rfl) (.cons (Or.inl rfl) .nil)))⟩

end FirstUses
end UsageOrder
