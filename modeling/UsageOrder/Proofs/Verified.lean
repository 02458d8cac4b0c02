import UsageOrder.Proofs.ElementUses

/-!
# What the comparison of a tree with its text makes sure of

The comparison goes through every statement with the walk, and looks at the identifiers that are
introduced at any depth (`Introduces`).  What is collected is found by fixed members instead, in a
statement or in what it exports.  The walk comes by there as well (`HoldsVariables.within`), so a
declaration that is collected has been compared in the statement that it is taken from
(`Source.fits_of_verify`).

Of a tree whose offsets are whole numbers (`Source.Measured`) the comparison decides whether it fits
the text (`Source.Mismatch`), and nothing else can go wrong (`Source.verify_covers`).
-/

namespace UsageOrder

/-! ### Places in a text -/

/-- A pattern is the piece of a text that starts at an offset. -/
def Text.Holds (text pattern : Text) (offset : Int) : Prop :=
  ∃ front back, text = front ++ (pattern ++ back) ∧ (front.length : Int) = offset

theorem Text.standsAt_iff {text pattern : Text} {offset : Int} (h : 0 ≤ offset) :
    Text.standsAt pattern text offset = true ↔ text.Holds pattern offset := by
  obtain ⟨place, rfl⟩ := Int.eq_ofNat_of_zero_le h
  have hclamp : Text.clamp text.length place = min place text.length := by
    rw [Text.clamp, if_neg (Int.not_lt.2 h), Int.toNat_natCast]
  rw [Text.standsAt, Text.since, hclamp, Bool.and_eq_true, decide_eq_true_iff,
    List.isPrefixOf_iff_prefix, Int.ofNat_le]
  constructor
  · rintro ⟨hle, back, hback⟩
    rw [Nat.min_eq_left hle] at hback
    refine ⟨text.take place, back, ?_, by rw [List.length_take, Nat.min_eq_left hle]⟩
    rw [hback, List.take_append_drop]
  · rintro ⟨front, back, rfl, hfront⟩
    obtain rfl := Int.ofNat.inj hfront
    have hle : front.length ≤ (front ++ (pattern ++ back)).length := by simp
    refine ⟨hle, back, ?_⟩
    rw [Nat.min_eq_left hle, List.drop_left]

/-! ### Ranges -/

namespace Json

variable {node value : Json} {start stop : Int}

/-- An object has whole numbers for its offsets, as a pair or apart. -/
inductive Spans (node : Json) (start stop : Int) : Prop
  | pair (range : node.get? "range" = some (.arr [.int start, .int stop]))
  | ends (none : node.get? "range" = none) (first : node.get? "start" = some (.int start))
      (last : node.get? "end" = some (.int stop))

theorem mentions_of_get? {key other : String} (h : node.get? key = some value) :
    node.mentions other = .ok (node.get? other).isSome := by
  cases node with
  | obj members => rfl
  | _ => exact absurd h (by simp [get?])

theorem Spans.range (h : node.Spans start stop) : node.range = .ok ⟨start, stop⟩ := by
  cases h with
  | pair hrange =>
    rw [Json.range, mentions_of_get? hrange, hrange]
    simp only [Option.isSome_some, bind, Except.bind, if_true, require_eq_ok_iff.2 hrange]
    rfl
  | ends hnone hfirst hlast =>
    rw [Json.range, mentionsEnds, mentions_of_get? hfirst, mentions_of_get? hfirst,
      mentions_of_get? hfirst, hnone, hfirst, hlast]
    simp only [Option.isSome_none, Option.isSome_some, bind, Except.bind, Bool.false_eq_true,
      if_false, if_true, require_eq_ok_iff.2 hfirst, require_eq_ok_iff.2 hlast]
    rfl

theorem get?_of_kind {key : String} (h : node.getD key = value) (hkind : value.kind ≠ .other) :
    node.get? key = some value := by
  subst h
  exact get?_of_isNode (isNode_of_kind hkind)

/-- What has a range is seen to have one. -/
theorem hasRange_of_range {range : Range} (h : node.range = .ok range) : node.hasRange = .ok true := by
  obtain ⟨there, hthere, h⟩ := bind_eq_ok_iff.1 h
  refine bind_eq_ok_iff.2 ⟨there, hthere, ?_⟩
  cases there with
  | true => rfl
  | false =>
    obtain ⟨apart, hapart, h⟩ := bind_eq_ok_iff.1 h
    cases apart with
    | true => exact hapart
    | false => exact absurd h (by simp)

end Json

/-! ### Declared identifiers -/

/-- A node introduces an identifier: it is a declarator whose target is one. -/
structure Introduces (node identifier : Json) : Prop where
  declarator : node.kind = .variableDeclarator
  target : node.get? "id" = some identifier
  kind : identifier.kind = .identifier

/-- **The walk of a statement comes by the declarator** of what it declares or exports. -/
theorem HoldsVariables.within {statement declaration declarator : Json}
    (h : HoldsVariables statement declaration)
    (hsole : declaration.get? "declarations" = some (.arr [declarator]))
    (hkind : declarator.kind = .variableDeclarator) : statement.Within declarator := by
  have hchild : declarator ∈ declaration.children :=
    Json.mem_children_of_mem_items hsole (by decide) (List.mem_singleton_self declarator)
      (Json.isNode_of_kind (by rw [hkind]; simp))
  cases h with
  | plain => exact .single hchild
  | exported _ hmember hvariables =>
    have hinner : declaration ∈ statement.children :=
      Json.mem_children_of_isNode hmember (by decide)
        (Json.isNode_of_kind (by rw [hvariables]; simp))
    exact .head hinner (.single hchild)

namespace Source

variable {source : Source} {node identifier statement : Json} {name : String} {start stop : Int}

/-! ### The comparison of one node -/

/-- An identifier with a range is looked for in the text. -/
theorem verifyDeclarator_of_introduces (h : Introduces node identifier) {range : Range}
    (hrange : identifier.range = .ok range) :
    source.verifyDeclarator node = (identifier.require "name" >>= fun name =>
      match name with
      | .str name =>
        if Text.standsAt name.toList source.text range.start then .ok ()
        else .error (.tree (.nameNotAt source.label name range.start))
      | _ => .error .unsuitable) := by
  have hranged := Json.hasRange_of_range hrange
  simp only [verifyDeclarator, Json.getD_of_get? h.target, h.declarator, h.kind, hranged, hrange,
    ne_eq, not_true_eq_false, if_false, bind, Except.bind, Bool.not_true, Bool.false_eq_true]
  rfl

/-- Nothing is compared in a node that introduces no identifier with a range. -/
theorem verifyDeclarator_of_forall
    (h : ∀ identifier, Introduces node identifier → identifier.hasRange = .ok false) :
    source.verifyDeclarator node = .ok () := by
  rw [verifyDeclarator]
  by_cases hdeclarator : node.kind = .variableDeclarator
  · by_cases hkind : (node.getD "id").kind = .identifier
    · have htarget := Json.get?_of_kind rfl (ne_of_eq_of_ne hkind (by simp))
      simp only [hdeclarator, hkind, h _ ⟨hdeclarator, htarget, hkind⟩]
      rfl
    · simp only [hdeclarator, ne_eq, not_true_eq_false, if_false, if_pos hkind]
      rfl
  · simp only [ne_eq, if_pos hdeclarator]
    rfl

/-- **A comparison that succeeds has found the identifier at its offset.** -/
theorem standsAt_of_verifyDeclarator (h : source.verifyDeclarator node = .ok ())
    (hintroduces : Introduces node identifier) {range : Range} (hrange : identifier.range = .ok range) :
    ∃ name, identifier.get? "name" = some (.str name) ∧
      Text.standsAt name.toList source.text range.start = true := by
  rw [verifyDeclarator_of_introduces hintroduces hrange] at h
  obtain ⟨value, hvalue, h⟩ := bind_eq_ok_iff.1 h
  cases value with
  | str name =>
    dsimp only at h
    split_ifs at h with hstands
    exact ⟨name, Json.require_eq_ok_iff.1 hvalue, hstands⟩
  | _ => exact absurd h (by simp)

/-- A statement that has been compared ends inside the text, and all its nodes have been compared. -/
theorem verifyStatement_eq_ok_iff : source.verifyStatement statement = .ok () ↔
    ∃ range, statement.range = .ok range ∧ range.stop ≤ source.text.length ∧
      ∀ node, statement.Within node → source.verifyDeclarator node = .ok () := by
  rw [verifyStatement, bind_eq_ok_iff]
  refine exists_congr fun range => and_congr_right fun _ => ?_
  simp only [← Json.mem_walk_iff, ← forM_eq_ok_iff, ← Int.not_lt]
  split_ifs with hpast <;> simp [hpast]

theorem verify_eq_ok_iff : source.verify = .ok () ↔ ∀ statement ∈ source.body,
    ∃ range, statement.range = .ok range ∧ range.stop ≤ source.text.length ∧
      ∀ node, statement.Within node → source.verifyDeclarator node = .ok () := by
  rw [verify, forM_eq_ok_iff]
  simp only [verifyStatement_eq_ok_iff]

/-! ### Trees that fit their text -/

/-- A tree whose offsets can be compared with a text: its statements are objects with whole numbers
for offsets, and an identifier that is introduced with a range has a text for its name and whole
numbers for offsets, the first of which is not negative. -/
structure Measured (source : Source) : Prop where
  statements : ∀ statement ∈ source.body, ∃ start stop, statement.Spans start stop
  identifiers : ∀ statement ∈ source.body, ∀ node identifier, statement.Within node →
    Introduces node identifier → identifier.hasRange = .ok true →
      ∃ name start stop, identifier.get? "name" = some (.str name) ∧
        identifier.Spans start stop ∧ 0 ≤ start

/-- **A tree does not fit the text:** a statement ends past the text, or an identifier that is
introduced at any depth of a statement does not stand at its offset. -/
inductive Mismatch (source : Source) : Prop
  | past {statement : Json} (mem : statement ∈ source.body) {start stop : Int}
      (spans : statement.Spans start stop) (past : source.text.length < stop)
  | misplaced {statement : Json} (mem : statement ∈ source.body) {node identifier : Json}
      (within : statement.Within node) (introduces : Introduces node identifier) {name : String}
      (named : identifier.get? "name" = some (.str name)) {start stop : Int}
      (spans : identifier.Spans start stop) (misplaced : ¬ source.text.Holds name.toList start)

/-- Where offsets are whole numbers, a node is compared with a fault only if it is misplaced. -/
theorem Measured.misplaced_of_error (h : source.Measured) (hmem : statement ∈ source.body)
    (hwithin : statement.Within node) {fault : Fault}
    (hfault : source.verifyDeclarator node = .error fault) :
    source.Mismatch ∧ ∃ cause, fault = .tree cause := by
  by_cases hnone : ∀ identifier, Introduces node identifier → identifier.hasRange = .ok false
  · exact absurd (hfault.symm.trans (verifyDeclarator_of_forall hnone)) (by simp)
  · push Not at hnone
    obtain ⟨identifier, hintroduces, hranged⟩ := hnone
    obtain ⟨there, hthere⟩ := Json.hasRange_of_isNode
      (Json.isNode_of_kind (ne_of_eq_of_ne hintroduces.kind (by simp)))
    cases there with
    | false => exact absurd hthere hranged
    | true =>
      obtain ⟨name, start, stop, hname, hspans, hstart⟩ :=
        h.identifiers statement hmem node identifier hwithin hintroduces hthere
      rw [verifyDeclarator_of_introduces hintroduces hspans.range, Json.require_eq_ok_iff.2 hname]
        at hfault
      simp only [bind, Except.bind] at hfault
      split_ifs at hfault with hstands
      refine ⟨.misplaced hmem hwithin hintroduces hname hspans ?_, _, (Except.error.inj hfault).symm⟩
      rwa [← Text.standsAt_iff hstart]

/-- Where offsets are whole numbers, the only faults are those of a tree that does not fit. -/
theorem Measured.mismatch_of_error (h : source.Measured) {fault : Fault}
    (hfault : source.verify = .error fault) : source.Mismatch ∧ ∃ cause, fault = .tree cause := by
  obtain ⟨statement, hmem, hfault⟩ := exists_mem_of_forM_error hfault
  obtain ⟨start, stop, hspans⟩ := h.statements statement hmem
  rw [verifyStatement, hspans.range] at hfault
  simp only [bind, Except.bind] at hfault
  split_ifs at hfault with hpast
  · exact ⟨.past hmem hspans hpast, _, (Except.error.inj hfault).symm⟩
  · obtain ⟨node, hnode, hfault⟩ := exists_mem_of_forM_error hfault
    exact h.misplaced_of_error hmem (Json.mem_walk_iff.1 hnode) hfault

/-- A tree that does not fit is not passed. -/
theorem Mismatch.verify_ne_ok (h : source.Mismatch) (hmeasured : source.Measured) :
    source.verify ≠ .ok () := by
  intro hok
  rw [verify_eq_ok_iff] at hok
  cases h with
  | past hmem hspans hpast =>
    obtain ⟨range, hrange, hstop, -⟩ := hok _ hmem
    obtain rfl := Except.ok.inj (hspans.range.symm.trans hrange)
    exact absurd hpast (Int.not_lt.2 hstop)
  | misplaced hmem hwithin hintroduces hname hspans hmisplaced =>
    obtain ⟨_, -, -, hnodes⟩ := hok _ hmem
    obtain ⟨found, hfound, hstands⟩ :=
      standsAt_of_verifyDeclarator (hnodes _ hwithin) hintroduces hspans.range
    obtain ⟨other, start', stop', -, hspans', hstart⟩ := hmeasured.identifiers _ hmem _ _ hwithin
      hintroduces (Json.hasRange_of_range hspans.range)
    obtain ⟨rfl, -⟩ := Range.mk.inj (Except.ok.inj (hspans.range.symm.trans hspans'.range))
    obtain rfl := Json.str.inj (Option.some.inj (hname.symm.trans hfound))
    exact hmisplaced ((Text.standsAt_iff hstart).1 hstands)

/-! ### What is collected -/

/-- **A declaration fits the text:** it ends inside the text, and if the statement that it is taken
from, the first one for its name, declares or exports it by a proper declarator, the text has its name
where its identifier starts. -/
structure Fits (source : Source) (markers : List Json) (declaration : Declaration) : Prop where
  inside : declaration.range.stop ≤ source.text.length
  placed : ∃ index statement held declarator, FirstAt markers source.body index ∧
    source.body[index]? = some statement ∧ TakenFrom markers statement declaration ∧
    HoldsVariables statement held ∧ held.get? "declarations" = some (.arr [declarator]) ∧
    declarator.getD "id" = declaration.anchor ∧ declarator.getD "init" = declaration.initializer ∧
    (declarator.kind = .variableDeclarator → ∀ range, declaration.anchor.range = .ok range →
      0 ≤ range.start →
        ∃ name, declaration.name = .text name ∧ source.text.Holds name.toList range.start)

/-- **What is collected from a tree that was passed fits the text.** -/
theorem fits_of_verify (h : source.verify = .ok ()) {markers : List Json} {collection : Collection}
    (hcollection : Collection.ofStatements markers source.body = .ok collection)
    {declaration : Declaration} (hmem : declaration ∈ collection) :
    source.Fits markers declaration := by
  obtain ⟨indices, hgathered⟩ := Collection.ofStatements_gathered hcollection
  obtain ⟨index, hfirst, statement, hindex, htaken⟩ :=
    exists_mem_of_forall₂ hgathered.taken.flip hmem
  have hstatement := List.mem_of_getElem? hindex
  obtain ⟨range, hrange, hstop, hnodes⟩ := verify_eq_ok_iff.1 h statement hstatement
  obtain rfl := Except.ok.inj (htaken.ranged.symm.trans hrange)
  obtain ⟨held, declarator, hholds, hsole, hid, hinit⟩ := htaken.held.declarator
  refine ⟨hstop, index, statement, held, declarator, (hgathered.firsts index).1 hfirst, hindex, htaken,
    hholds, hsole, hid, hinit, fun hkind place hplace hstart => ?_⟩
  have hidentifier : declaration.anchor.kind = .identifier := htaken.held.identifier
  have htarget := Json.get?_of_kind hid (ne_of_eq_of_ne hidentifier (by simp))
  -- The walk of the statement has come by the declarator.
  obtain ⟨name, hname, hstands⟩ := standsAt_of_verifyDeclarator
    (hnodes declarator (hholds.within hsole hkind)) ⟨hkind, htarget, hidentifier⟩ hplace
  obtain ⟨value, hvalue, hnamed⟩ := htaken.named
  obtain rfl := Option.some.inj (hname.symm.trans hvalue)
  exact ⟨name, (Except.ok.inj hnamed).symm, (Text.standsAt_iff hstart).1 hstands⟩

/-- **What the comparison makes sure of.**  After it every declaration that is collected, with any
markers, fits the text; and a tree whose offsets are whole numbers is refused exactly when it does not
fit the text, and else passed. -/
theorem verify_covers (source : Source) :
    (source.verify = .ok () → ∀ markers collection,
      Collection.ofStatements markers source.body = .ok collection →
        ∀ declaration ∈ collection, source.Fits markers declaration) ∧
    (source.Measured → ((∃ cause, source.verify = .error (.tree cause)) ↔ source.Mismatch) ∧
      (source.verify = .ok () ↔ ¬ source.Mismatch)) := by
  refine ⟨fun h markers collection hcollection declaration => fits_of_verify h hcollection,
    fun hmeasured => ?_⟩
  cases hverify : source.verify with
  | ok =>
    have hfits : ¬ source.Mismatch := fun hmismatch => hmismatch.verify_ne_ok hmeasured hverify
    exact ⟨iff_of_false (by simp) hfits, iff_of_true rfl hfits⟩
  | error fault =>
    obtain ⟨hmismatch, cause, rfl⟩ := hmeasured.mismatch_of_error hverify
    exact ⟨iff_of_true ⟨cause, rfl⟩ hmismatch, iff_of_false (by simp) (not_not.2 hmismatch)⟩

/-- A statement that exports a title. -/
def exportedTitleStatement : Json :=
  Collection.exportStatement ⟨0, 27⟩ (Rule.cssStatement "Title" ⟨7, 27⟩ [])

/-- The declaration of the title that is exported. -/
def exportedTitleDeclaration : Declaration :=
  { Rule.cssDeclaration "Title" 0 ⟨7, 27⟩ [] with range := ⟨0, 27⟩ }

/-- A text with the tree of that statement. -/
def exportedTitle (text : String) : Source := ⟨none, text.toList, [exportedTitleStatement]⟩

theorem measured_exportedTitle (text : String) : (exportedTitle text).Measured where
  statements statement hmem := by
    obtain rfl := List.mem_singleton.1 hmem
    exact ⟨0, 27, .pair rfl⟩
  identifiers statement hmem node identifier hwithin hintroduces _ := by
    obtain rfl := List.mem_singleton.1 hmem
    -- Among the nodes of the walk there is one declarator.
    have htargets : (exportedTitleStatement.walk.filter
        fun node => decide (node.kind = .variableDeclarator)).map (Json.get? "id") =
          [some (Rule.identifierAt "Title" 13)] := by cbv
    have hdeclarator : node ∈ exportedTitleStatement.walk.filter
        fun node => decide (node.kind = .variableDeclarator) :=
      List.mem_filter.2 ⟨Json.mem_walk_iff.2 hwithin, decide_eq_true hintroduces.declarator⟩
    have htarget : node.get? "id" ∈ [some (Rule.identifierAt "Title" 13)] :=
      htargets ▸ List.mem_map_of_mem hdeclarator
    rw [List.mem_singleton, hintroduces.target] at htarget
    obtain rfl := Option.some.inj htarget
    exact ⟨"Title", 13, 18, rfl, .pair rfl, by decide⟩

/-- The title that is exported fits the text it was parsed from.  Another text of the same length is
refused, as the title is not there. -/
theorem verify_covers_exportedTitle :
    (exportedTitle "export const Title = css``;").verify = .ok () ∧
      Collection.ofStatements (Styled.defaultMarkers.map Json.str)
        (exportedTitle "export const Title = css``;").body = .ok [exportedTitleDeclaration] ∧
      (exportedTitle "export const Title = css``;").Fits (Styled.defaultMarkers.map Json.str)
        exportedTitleDeclaration ∧
      (exportedTitle "export const Theme = css``;").Measured ∧
      (exportedTitle "export const Theme = css``;").Mismatch ∧
      (exportedTitle "export const Theme = css``;").verify =
        .error (.tree (.nameNotAt "content" "Title" 13)) := by
  have hown : (exportedTitle "export const Title = css``;").verify = .ok () := by cbv
  have hother : (exportedTitle "export const Theme = css``;").verify =
    .error (.tree (.nameNotAt "content" "Title" 13)) := by cbv
  have hcollection : Collection.ofStatements (Styled.defaultMarkers.map Json.str)
      (exportedTitle "export const Title = css``;").body = .ok [exportedTitleDeclaration] := rfl
  have hmeasured := measured_exportedTitle "export const Theme = css``;"
  exact ⟨hown, hcollection,
    (verify_covers _).1 hown _ _ hcollection _ (List.mem_singleton_self _), hmeasured,
    ((verify_covers _).2 hmeasured).1.1 ⟨_, hother⟩, hother⟩

end Source
end UsageOrder
