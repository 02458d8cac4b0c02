import UsageOrder.Proofs.ElementUses
import UsageOrder.Proofs.Ranking

/-!
# First uses in the text alone

The search of a text for a name gives the least offset at which the text continues with `<`, the name
and an ending (`isFirst_leastInText`).  An element that is opened with a tracked name is such a place,
so a name ranks no later by the text than by the tree.  The main statement is `textual_first`.
-/

namespace UsageOrder

/-! ### Least offsets -/

/-- Among the first offsets with one property each, the least is the first with any of them. -/
theorem isFirst_min?_filterMap {α : Type} {items : List α} {P : α → Int → Prop}
    {first : α → Option Int} (h : ∀ item ∈ items, IsFirst (P item) (first item)) :
    IsFirst (fun offset => ∃ item ∈ items, P item offset) (items.filterMap first).min? := by
  have hmin := isFirst_min? (items.filterMap first)
  cases hleast : (items.filterMap first).min? with
  | none =>
    rw [hleast] at hmin
    rintro offset ⟨item, hitem, hoffset⟩
    have hfirst := h item hitem
    cases hitemFirst : first item with
    | none => exact (hitemFirst ▸ hfirst : IsFirst (P item) none) offset hoffset
    | some least => exact hmin least (List.mem_filterMap.2 ⟨item, hitem, hitemFirst⟩)
  | some least =>
    rw [hleast] at hmin
    obtain ⟨item, hitem, hitemFirst⟩ := List.mem_filterMap.1 hmin.1
    refine ⟨⟨item, hitem, (hitemFirst ▸ h item hitem : IsFirst (P item) (some least)).1⟩, ?_⟩
    rintro offset ⟨other, hother, hoffset⟩
    have hfirst := h other hother
    cases hotherFirst : first other with
    | none => exact absurd hoffset ((hotherFirst ▸ hfirst : IsFirst (P other) none) offset)
    | some otherLeast =>
      rw [hotherFirst] at hfirst
      exact (hmin.2 (List.mem_filterMap.2 ⟨other, hother, hotherFirst⟩)).trans (hfirst.2 hoffset)

namespace Text

/-- A text continues with a pattern at an offset. -/
def ContinuesAt (pattern text : Text) (offset : Int) : Prop :=
  ∃ index : Nat, offset = index ∧ pattern <+: text.drop index

theorem offsetOf?_some {pattern text : Text} {index : Nat} (h : offsetOf? pattern text = some index) :
    pattern <+: text.drop index ∧ ∀ earlier < index, ¬ pattern <+: text.drop earlier := by
  induction text generalizing index with
  | nil =>
    rw [offsetOf?] at h
    split at h
    case isTrue hempty =>
      obtain rfl := Option.some.inj h
      rw [List.isEmpty_iff.1 hempty]
      exact ⟨List.nil_prefix, fun earlier hearlier => absurd hearlier (Nat.not_lt_zero _)⟩
    case isFalse => exact absurd h (by simp)
  | cons c rest ih =>
    rw [offsetOf?] at h
    split at h
    case isTrue hhere =>
      obtain rfl := Option.some.inj h
      exact ⟨List.isPrefixOf_iff_prefix.1 hhere,
        fun earlier hearlier => absurd hearlier (Nat.not_lt_zero _)⟩
    case isFalse hhere =>
      obtain ⟨later, hlater, rfl⟩ := Option.map_eq_some_iff.1 h
      obtain ⟨hthere, hnone⟩ := ih hlater
      refine ⟨hthere, fun earlier hearlier => ?_⟩
      cases earlier with
      | zero => exact fun hprefixed => hhere (List.isPrefixOf_iff_prefix.2 hprefixed)
      | succ earlier => exact hnone earlier (Nat.lt_of_succ_lt_succ hearlier)

theorem offsetOf?_none {pattern text : Text} (h : offsetOf? pattern text = none) (index : Nat) :
    ¬ pattern <+: text.drop index := by
  induction text generalizing index with
  | nil =>
    rw [offsetOf?] at h
    split at h
    case isTrue => exact absurd h (by simp)
    case isFalse hnonempty =>
      rw [List.drop_nil, List.prefix_nil]
      exact fun hempty => hnonempty (List.isEmpty_iff.2 hempty)
  | cons c rest ih =>
    rw [offsetOf?] at h
    split at h
    case isTrue => exact absurd h (by simp)
    case isFalse hhere =>
      cases index with
      | zero => exact fun hprefixed => hhere (List.isPrefixOf_iff_prefix.2 hprefixed)
      | succ index => exact ih (Option.map_eq_none_iff.1 h) index

/-- **A search gives the least offset at which the text continues with the pattern.** -/
theorem isFirst_offsetOf? (pattern text : Text) :
    IsFirst (ContinuesAt pattern text) ((offsetOf? pattern text).map Int.ofNat) := by
  cases hfound : offsetOf? pattern text with
  | none =>
    rintro offset ⟨index, -, hindex⟩
    exact offsetOf?_none hfound index hindex
  | some first =>
    obtain ⟨hthere, hnone⟩ := offsetOf?_some hfound
    refine ⟨⟨first, rfl, hthere⟩, ?_⟩
    rintro offset ⟨index, rfl, hindex⟩
    exact Int.ofNat_le.2 (Nat.le_of_not_lt fun hlt => hnone index hlt hindex)

end Text

/-- A text opens an element with a name at an offset: there it continues with `<`, the name, and what
may end it. -/
def OpensInText (text : Text) (name : Name) (offset : Int) : Prop :=
  ∃ ending ∈ ['>', ' ', '\n', '/'],
    Text.ContinuesAt ('<' :: name.plain.toList ++ [ending]) text offset

namespace Rank

/-- A name ranks no later if it has every use of the other one. -/
theorem le_ofUse {P Q : Int → Prop} {first first' : Option Int} (h : IsFirst P first)
    (h' : IsFirst Q first') (hsub : ∀ offset, Q offset → P offset) :
    (ofUse first).le (ofUse first') = true := by
  cases first' with
  | none => cases first <;> rfl
  | some offset' =>
    cases first with
    | none => exact absurd (hsub offset' h'.1) (h offset')
    | some offset =>
      have hle : offset ≤ offset' := h.2 (hsub offset' h'.1)
      have hless : (Json.int offset').less (.int offset) = false := by
        rw [Json.less_eq_of_size rfl rfl, Size.less, decide_eq_false_iff_not, Rat.not_lt]
        exact_mod_cast hle
      simp only [le, ofUse, Json.notGreater, hless, Bool.not_false]

end Rank

namespace FirstUses

variable {body : List Json} {collection : Collection} {uses : FirstUses}

/-- **What is found in a text is the first place where it opens an element with the name.** -/
theorem isFirst_leastInText (text : Text) (name : Name) :
    IsFirst (OpensInText text name) (leastInText text name) :=
  isFirst_min?_filterMap fun _ _ => Text.isFirst_offsetOf? _ text

/-- Tables with the same keys are looked up at the same place. -/
theorem exists_ranks_of {names : List Name} {name : Name} (h : name ∈ names) :
    ∃ kept ∈ names, ∀ first : Name → Option Int,
      (ranks (names.map fun name => (name, first name))).of name = Rank.ofUse (first kept) := by
  induction names with
  | nil => exact absurd h List.not_mem_nil
  | cons key names ih =>
    cases hkey : name == key with
    | true =>
      refine ⟨key, List.mem_cons_self .., fun first => ?_⟩
      rw [Ranks.of, ranks, List.map_cons, List.map_cons, List.lookup_cons, hkey]
      rfl
    | false =>
      have hbehind : name ∈ names := by
        rcases List.mem_cons.1 h with rfl | h
        · exact absurd (BEq.rfl.symm.trans hkey) (by simp)
        · exact h
      obtain ⟨kept, hkept, hrank⟩ := ih hbehind
      refine ⟨kept, List.mem_cons_of_mem _ hkept, fun first => ?_⟩
      rw [← hrank, Ranks.of, ranks, List.map_cons, List.map_cons, List.lookup_cons, hkey]
      rfl

/-- **First uses in a text are the first places where it opens an element with the name.**  If each
element of a tree that is opened with a tracked name starts at such a place, the text ranks no name
behind the place that the tree gives it. -/
theorem textual_first (text : Text) (collection : Collection) :
    (textual text collection).map Prod.fst = collection.names ∧
      (∀ use ∈ textual text collection, IsFirst (OpensInText text use.1) use.2) ∧
      ∀ body uses, structural body collection = .ok uses →
        (∀ statement ∈ body, ∀ node opened, statement.Within node → Opens node opened →
          ∀ name ∈ collection.names, (opened == name) = true →
            ∀ range, node.range = .ok range → OpensInText text name range.start) →
        ∀ name ∈ collection.names,
          ((textual text collection).ranks.of name).le (uses.ranks.of name) = true := by
  refine ⟨by simp [textual, Function.comp_def], fun use huse => ?_,
    fun body uses huses hopens name hname => ?_⟩
  · obtain ⟨name, -, rfl⟩ := List.mem_map.1 huse
    exact isFirst_leastInText text name
  · obtain ⟨found, hfound, rfl⟩ := structural_eq_ok_iff.1 huses
    obtain ⟨kept, hkept, hrank⟩ := exists_ranks_of hname
    rw [textual, hrank, hrank]
    refine Rank.le_ofUse (isFirst_leastInText text kept) (isFirst_least _ kept) ?_
    rintro offset ⟨opened, huse, heq⟩
    obtain ⟨statement, hstatement, -, node, hnode, hofNode⟩ := (mem_flatten_iff hfound).1 huse
    obtain ⟨hnodeOpens, -, range, hrange, rfl⟩ := ofNode_eq_some_iff.1 hofNode
    exact hopens statement hstatement node opened (Json.mem_walk_iff.1 hnode) hnodeOpens kept hkept heq
      range hrange

/-! ### A title within a title bar -/

open Rule (cssStatement cssDeclaration)

/-- The text of a title, a title bar, and a title in a title bar. -/
def titleBarText : Text :=
  "const Title = css``;\nconst TitleBar = css``;\n<TitleBar><Title /></TitleBar>;\n".toList

/-- Its statements. -/
def titleBarBody : List Json :=
  [cssStatement "Title" ⟨0, 20⟩ [], cssStatement "TitleBar" ⟨21, 44⟩ [],
    .obj [("type", .str "ExpressionStatement"), ("range", .arr [.int 45, .int 76]),
      ("expression", elementAt "TitleBar" 45 [elementAt "Title" 55 []])]]

/-- Its declarations. -/
def titleBarDeclarations : Collection :=
  [cssDeclaration "Title" 0 ⟨0, 20⟩ [], cssDeclaration "TitleBar" 1 ⟨21, 44⟩ []]

/-- Each element of the tree starts where the text has one. -/
theorem opensInText_titleBar : ∀ statement ∈ titleBarBody, ∀ node opened, statement.Within node →
    Opens node opened → ∀ name ∈ titleBarDeclarations.names, (opened == name) = true →
      ∀ range, node.range = .ok range → OpensInText titleBarText name range.start := by
  intro statement hstatement node opened hnode hopens name hname heq range hrange
  have hfound : titleBarBody.mapM (ofStatement titleBarDeclarations.names []) =
      .ok [[], [], [(.text "TitleBar", 45), (.text "Title", 55)]] := by cbv
  have hranges : titleBarBody.mapM Json.range = .ok [⟨0, 20⟩, ⟨21, 44⟩, ⟨45, 76⟩] := rfl
  obtain ⟨whole, -, hwhole⟩ := exists_mem_of_mapM hranges hstatement
  have huse : (opened, range.start) ∈ [(Name.text "TitleBar", (45 : Int)), (.text "Title", 55)] :=
    (mem_flatten_iff hfound).2 ⟨statement, hstatement, ⟨whole, hwhole, List.not_mem_nil⟩, node,
      Json.mem_walk_iff.2 hnode, ofNode_eq_some_iff.2 ⟨hopens,
        List.contains_iff_exists_mem_beq.2 ⟨name, hname, heq⟩, range, hrange, rfl⟩⟩
  rcases List.mem_cons.1 huse with huse | huse
  · obtain ⟨rfl, hstart⟩ := Prod.mk.inj huse
    rw [Name.eq_text_of_beq (PartialEquivBEq.symm heq), hstart]
    exact ⟨'>', by simp, 45, rfl, List.isPrefixOf_iff_prefix.1 rfl⟩
  · obtain ⟨rfl, hstart⟩ := Prod.mk.inj (List.mem_singleton.1 huse)
    rw [Name.eq_text_of_beq (PartialEquivBEq.symm heq), hstart]
    exact ⟨' ', by simp, 55, rfl, List.isPrefixOf_iff_prefix.1 rfl⟩

/-- The text and the tree agree on the title, whose name starts the name of the title bar. -/
theorem textual_first_titleBar :
    let uses : FirstUses := [(.text "Title", some 55), (.text "TitleBar", some 45)]
    structural titleBarBody titleBarDeclarations = .ok uses ∧
      textual titleBarText titleBarDeclarations = uses ∧
      IsFirst (OpensInText titleBarText (.text "Title")) (some 55) ∧
      ((textual titleBarText titleBarDeclarations).ranks.of (.text "Title")).le
        (uses.ranks.of (.text "Title")) = true := by
  intro uses
  have huses : structural titleBarBody titleBarDeclarations = .ok uses := by cbv
  have htextual : textual titleBarText titleBarDeclarations = uses := by cbv
  have htracked : Name.text "Title" ∈ titleBarDeclarations.names := List.mem_cons_self ..
  obtain ⟨-, hfirst, hle⟩ := textual_first titleBarText titleBarDeclarations
  have hfound := hfirst (.text "Title", some 55) (htextual ▸ List.mem_cons_self ..)
  exact ⟨huses, htextual, hfound,
    hle titleBarBody uses huses opensInText_titleBar (.text "Title") htracked⟩

end FirstUses
end UsageOrder
