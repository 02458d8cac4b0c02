import Mathlib.Data.List.DropRight
import UsageOrder.Proofs.Fixes
import UsageOrder.Styled.Declaration

/-!
# A text as the blocks of its declarations

A layout is a text in pieces, of which some are the blocks of declarations.  `Layout.cut` cuts a
text at its declarations.  `Layout.moveBehind` moves the block of one declaration behind that of
another one as a fix does it, told without offsets: what stood between the two loses the white space
around it and comes first.

| operation | its text | its owners |
|---|---|---|
| `cut` | the part that is cut (`text_cut`) | the declarations (`owners_cut`) |
| `trim` | the text without outer white space (`text_trim`) | the same (`owners_trim`) |
| `spliced` | what `Edit.moveAfter` puts (`text_spliced`) | those between, then the two |

A block keeps the text of its declaration through all of this, but for white space at its ends
(`Holds.mendAll`).
-/

namespace UsageOrder

namespace Text

theorem stripRight_cons (c : Char) (text : Text) :
    stripRight (c :: text) =
      if text.stripRight.isEmpty && isBlank c then [] else c :: text.stripRight := by
  have hreverse : text.stripRight.isEmpty = (text.reverse.dropWhile isBlank).isEmpty := by
    rw [stripRight, List.isEmpty_reverse]
  rw [hreverse, stripRight, stripRight, List.reverse_cons, List.dropWhile_append]
  cases hempty : (text.reverse.dropWhile isBlank).isEmpty with
  | true =>
    rw [List.isEmpty_iff.1 hempty]
    cases hblank : isBlank c <;> simp [hblank]
  | false => simp

/-- The order in which white space is taken off the two ends does not matter. -/
theorem stripLeft_stripRight (text : Text) :
    stripLeft (stripRight text) = stripRight (stripLeft text) := by
  induction text with
  | nil => rfl
  | cons c text ih =>
    cases hblank : isBlank c with
    | true =>
      have hleft : stripLeft (c :: text) = stripLeft text := List.dropWhile_cons_of_pos hblank
      rw [hleft, ← ih, stripRight_cons, hblank, Bool.and_true]
      split_ifs with hempty
      · rw [List.isEmpty_iff.1 hempty]
      · exact List.dropWhile_cons_of_pos hblank
    | false =>
      have hneg : ¬ isBlank c = true := Bool.eq_false_iff.1 hblank
      have hleft : stripLeft (c :: text) = c :: text := List.dropWhile_cons_of_neg hneg
      rw [hleft, stripRight_cons, hblank, Bool.and_false, if_neg Bool.false_ne_true]
      exact List.dropWhile_cons_of_neg hneg

theorem strip_stripLeft (text : Text) : text.stripLeft.strip = text.strip := by
  rw [strip, strip]
  exact congrArg stripRight (List.dropWhile_idempotent ..)

theorem strip_stripRight (text : Text) : text.stripRight.strip = text.strip := by
  rw [strip, stripLeft_stripRight, strip]
  exact List.rdropWhile_idempotent ..

end Text

/-- A piece of a text, and the declaration whose block it is if it is one. -/
structure Segment where
  owner : Option Declaration
  text : Text

/-- A text in pieces. -/
abbrev Layout := List Segment

namespace Segment

/-- Whether a segment is not the block of a declaration with a name. -/
def differs (name : Name) (segment : Segment) : Bool :=
  !segment.owner.any fun declaration => declaration.name == name

/-- A segment that is not a block. -/
def plain (text : Text) : Segment := ⟨none, text⟩

/-- The block of a declaration in a text. -/
def block (text : Text) (declaration : Declaration) : Segment :=
  ⟨some declaration, text.slice declaration.range.start declaration.range.stop⟩

theorem not_differs_block (text : Text) (declaration : Declaration) :
    ¬ (block text declaration).differs declaration.name = true := by
  simp [differs, block]

/-- If a segment is the block of a declaration, it holds the text of that declaration, up to outer
white space. -/
def Holds (source : Text) (segment : Segment) : Prop :=
  ∀ declaration, segment.owner = some declaration →
    segment.text.strip = (block source declaration).text.strip

theorem holds_plain (source text : Text) : (plain text).Holds source := by
  intro declaration howner
  exact absurd howner (by simp [plain])

theorem holds_block (source : Text) (declaration : Declaration) :
    (block source declaration).Holds source := by
  intro other howner
  rw [Option.some.inj howner]

theorem Holds.of_strip {source : Text} {segment whole : Segment} (h : whole.Holds source)
    (howner : segment.owner = whole.owner) (htext : segment.text.strip = whole.text.strip) :
    segment.Holds source :=
  fun declaration hdeclaration => htext.trans (h declaration (howner.symm.trans hdeclaration))

end Segment

namespace Layout

/-- The text that is in pieces. -/
def text (layout : Layout) : Text := layout.flatMap Segment.text

/-- The declarations in the order of their blocks. -/
def owners (layout : Layout) : List Declaration := layout.filterMap Segment.owner

/-- A text between two offsets, cut at the declarations there. -/
def cut (text : Text) (stop : Int) : Int → List Declaration → Layout
  | start, [] => [.plain (text.slice start stop)]
  | start, declaration :: declarations =>
    .plain (text.slice start declaration.range.start) :: .block text declaration ::
      cut text stop declaration.range.stop declarations

/-- A layout without the white space at its start. -/
def trimLeft : Layout → Layout
  | [] => []
  | segment :: layout =>
    let text := segment.text.stripLeft
    ⟨segment.owner, text⟩ :: if text.isEmpty then trimLeft layout else layout

/-- A layout read backwards. -/
def mirror (layout : Layout) : Layout :=
  (layout.map fun segment => ⟨segment.owner, segment.text.reverse⟩).reverse

/-- A layout without the white space at both ends; a segment may be left empty. -/
def trim (layout : Layout) : Layout := mirror (trimLeft (mirror (trimLeft layout)))

/-- What a move makes of a block, the reference behind which it is moved and what is between. -/
def spliced (separator : Text) (between : Layout) (reference moved : Segment) : Layout :=
  between.trim ++ (if between.trim.text.isEmpty then [] else [.plain separator]) ++
    [reference, .plain separator, moved]

/-- Moves the block of one declaration behind that of another one further on. -/
def moveBehind (separator : Text) (name reference : Name) (layout : Layout) : Layout :=
  match layout.dropWhile (Segment.differs name) with
  | [] => layout
  | moved :: behind =>
    match behind.dropWhile (Segment.differs reference) with
    | [] => layout
    | target :: rest =>
      layout.takeWhile (Segment.differs name) ++
        (spliced separator (behind.takeWhile (Segment.differs reference)) target moved ++ rest)

/-- Moves the block of the reported declaration behind that of its predecessor. -/
def mend (separator : Text) (diagnostic : Diagnostic) (layout : Layout) : Layout :=
  match diagnostic.predecessor with
  | none => layout
  | some reference => layout.moveBehind separator diagnostic.name reference

/-- Mends a layout for some diagnostics, the last one first. -/
def mendAll (separator : Text) (diagnostics : List Diagnostic) (layout : Layout) : Layout :=
  diagnostics.foldr (mend separator) layout

/-! ### Texts and owners -/

@[simp] theorem text_nil : text [] = [] := rfl

@[simp] theorem text_cons (segment : Segment) (layout : Layout) :
    text (segment :: layout) = segment.text ++ text layout := rfl

@[simp] theorem text_append (front rest : Layout) :
    text (front ++ rest) = text front ++ text rest :=
  List.flatMap_append

@[simp] theorem owners_nil : owners [] = [] := rfl

@[simp] theorem owners_plain (text : Text) (layout : Layout) :
    owners (.plain text :: layout) = owners layout := rfl

@[simp] theorem owners_block (text : Text) (declaration : Declaration) (layout : Layout) :
    owners (.block text declaration :: layout) = declaration :: owners layout := rfl

@[simp] theorem owners_append (front rest : Layout) :
    owners (front ++ rest) = owners front ++ owners rest :=
  List.filterMap_append

theorem owners_cut (text : Text) (start stop : Int) (declarations : List Declaration) :
    (cut text stop start declarations).owners = declarations := by
  induction declarations generalizing start with
  | nil => rfl
  | cons declaration declarations ih => rw [cut, owners_plain, owners_block, ih]

theorem text_cut {text : Text} {start stop : Int} {declarations : List Declaration}
    (hstart : 0 ≤ start) (hstop : stop ≤ text.length)
    (h : Range.InOrder stop start (declarations.map Declaration.range)) :
    (cut text stop start declarations).text = text.slice start stop := by
  induction declarations generalizing start with
  | nil => simp [cut, Segment.plain]
  | cons declaration declarations ih =>
    obtain ⟨hbefore, hrange, hrest⟩ := h
    have hle := hrest.le
    rw [cut, text_cons, text_cons, ih (by omega) hrest]
    simp only [Segment.plain, Segment.block]
    rw [Text.slice_append_slice (by omega) hrange hle hstop,
      Text.slice_append_slice hstart hbefore (by omega) hstop]

theorem cut_append (text : Text) (start stop : Int) (front : List Declaration)
    (declaration : Declaration) (rest : List Declaration) :
    cut text stop start (front ++ declaration :: rest) =
      cut text declaration.range.start start front ++
        .block text declaration :: cut text stop declaration.range.stop rest := by
  induction front generalizing start with
  | nil => rfl
  | cons first front ih =>
    rw [List.cons_append, cut, ih, cut]
    rfl

/-! ### White space -/

theorem text_trimLeft (layout : Layout) : layout.trimLeft.text = layout.text.stripLeft := by
  induction layout with
  | nil => rfl
  | cons segment layout ih =>
    have hstrip : Text.stripLeft (segment.text ++ text layout) =
        if segment.text.stripLeft.isEmpty then (text layout).stripLeft
        else segment.text.stripLeft ++ text layout := List.dropWhile_append
    rw [trimLeft, text_cons, text_cons, hstrip]
    by_cases hblank : segment.text.stripLeft.isEmpty = true
    · rw [if_pos hblank, if_pos hblank, List.isEmpty_iff.1 hblank, List.nil_append, ih]
    · rw [if_neg hblank, if_neg hblank]

theorem text_mirror (layout : Layout) : layout.mirror.text = layout.text.reverse := by
  induction layout with
  | nil => rfl
  | cons segment layout ih =>
    have hmirror : mirror (segment :: layout) =
        mirror layout ++ [⟨segment.owner, segment.text.reverse⟩] := by
      simp [mirror]
    rw [hmirror, text_append, ih, text_cons, text_cons, text_nil, List.reverse_append,
      List.append_nil]

theorem text_trim (layout : Layout) : layout.trim.text = layout.text.strip := by
  rw [trim, text_mirror, text_trimLeft, text_mirror, text_trimLeft]
  rfl

theorem owners_trimLeft (layout : Layout) : layout.trimLeft.owners = layout.owners := by
  induction layout with
  | nil => rfl
  | cons segment layout ih =>
    rw [trimLeft]
    simp only [owners, List.filterMap_cons] at ih ⊢
    split_ifs
    · rw [ih]
    · rfl

theorem owners_mirror (layout : Layout) : layout.mirror.owners = layout.owners.reverse := by
  rw [owners, mirror, List.filterMap_reverse, List.filterMap_map]
  rfl

theorem owners_trim (layout : Layout) : layout.trim.owners = layout.owners := by
  rw [trim, owners_mirror, owners_trimLeft, owners_mirror, owners_trimLeft, List.reverse_reverse]

/-! ### Moves -/

/-- The text of a move is what the fix puts. -/
theorem text_spliced {source separator : Text} {between : Layout} {moved reference : Declaration}
    (hbetween : between.text = source.slice moved.range.stop reference.range.start) :
    (spliced separator between (.block source reference) (.block source moved)).text =
      (Edit.moveAfter source moved.range reference.range separator).text := by
  rw [spliced, text_append, text_append, text_trim, hbetween, Edit.moveAfter]
  simp only
  split_ifs with hempty
  · rw [List.isEmpty_iff.1 hempty]
    simp [Text.join, Segment.block, Segment.plain, List.intercalate_cons_cons]
  · simp [Text.join, Segment.block, Segment.plain, List.intercalate_cons_cons]

theorem owners_spliced (source separator : Text) (between : Layout)
    (moved reference : Declaration) :
    (spliced separator between (.block source reference) (.block source moved)).owners =
      between.owners ++ [reference, moved] := by
  rw [spliced, owners_append, owners_append, owners_trim]
  split_ifs <;> simp

theorem differs_of_owners {layout : Layout} {name : Name}
    (h : ∀ declaration ∈ layout.owners, (declaration.name == name) = false) :
    ∀ segment ∈ layout, segment.differs name = true := by
  intro segment hsegment
  rw [Segment.differs]
  cases howner : segment.owner with
  | none => rfl
  | some declaration =>
    rw [Option.any_some, h declaration (List.mem_filterMap.2 ⟨segment, hsegment, howner⟩)]
    rfl

/-- **What a move does:** the block and what is between it and the reference change their places. -/
theorem moveBehind_block {source separator : Text} {front between rest : Layout}
    {moved reference : Declaration}
    (hfront : ∀ declaration ∈ front.owners, (declaration.name == moved.name) = false)
    (hbetween : ∀ declaration ∈ between.owners, (declaration.name == reference.name) = false) :
    moveBehind separator moved.name reference.name
        (front ++ .block source moved :: (between ++ .block source reference :: rest)) =
      front ++ (spliced separator between (.block source reference) (.block source moved) ++
        rest) := by
  have hmoved := Segment.not_differs_block source moved
  have hreference := Segment.not_differs_block source reference
  unfold moveBehind
  rw [List.dropWhile_append_of_pos (differs_of_owners hfront), List.dropWhile_cons_of_neg hmoved,
    List.takeWhile_append_of_pos (differs_of_owners hfront), List.takeWhile_cons_of_neg hmoved]
  simp only
  rw [List.dropWhile_append_of_pos (differs_of_owners hbetween),
    List.dropWhile_cons_of_neg hreference,
    List.takeWhile_append_of_pos (differs_of_owners hbetween),
    List.takeWhile_cons_of_neg hreference, List.append_nil, List.append_nil]

/-- A move leaves alone what stands in front of the block that is moved. -/
theorem moveBehind_append {separator : Text} {name reference : Name} {front : Layout}
    (h : ∀ declaration ∈ front.owners, (declaration.name == name) = false) (layout : Layout) :
    moveBehind separator name reference (front ++ layout) =
      front ++ moveBehind separator name reference layout := by
  unfold moveBehind
  rw [List.dropWhile_append_of_pos (differs_of_owners h),
    List.takeWhile_append_of_pos (differs_of_owners h)]
  split
  · rfl
  · split
    · rfl
    · rw [List.append_assoc]

theorem mendAll_append {separator : Text} {diagnostics : List Diagnostic} {front : Layout}
    (h : ∀ diagnostic ∈ diagnostics, ∀ declaration ∈ front.owners,
      (declaration.name == diagnostic.name) = false) (layout : Layout) :
    mendAll separator diagnostics (front ++ layout) =
      front ++ mendAll separator diagnostics layout := by
  induction diagnostics with
  | nil => rfl
  | cons diagnostic diagnostics ih =>
    have hstep : ∀ layout, mendAll separator (diagnostic :: diagnostics) layout =
        mend separator diagnostic (mendAll separator diagnostics layout) := fun _ => rfl
    rw [hstep, hstep, ih fun other hother => h other (List.mem_cons_of_mem _ hother), mend, mend]
    cases diagnostic.predecessor with
    | none => rfl
    | some reference => exact moveBehind_append (h diagnostic (List.mem_cons_self ..)) _

/-! ### What the blocks hold -/

/-- Every block of a layout holds the text of its declaration, up to outer white space. -/
def Holds (source : Text) (layout : Layout) : Prop := ∀ segment ∈ layout, segment.Holds source

variable {source separator : Text} {layout : Layout}

theorem holds_cut (source : Text) (start stop : Int) (declarations : List Declaration) :
    (cut source stop start declarations).Holds source := by
  induction declarations generalizing start with
  | nil => exact List.forall_mem_singleton.2 (Segment.holds_plain source _)
  | cons declaration declarations ih =>
    rw [cut, Holds, List.forall_mem_cons, List.forall_mem_cons]
    exact ⟨Segment.holds_plain source _, Segment.holds_block source declaration, ih _⟩

/-- Each segment of a trimmed layout is one of the layout with white space taken off. -/
theorem exists_mem_of_mem_trimLeft {segment : Segment} (h : segment ∈ layout.trimLeft) :
    ∃ whole ∈ layout, segment.owner = whole.owner ∧
      (segment.text = whole.text ∨ segment.text = whole.text.stripLeft) := by
  induction layout with
  | nil => exact absurd h List.not_mem_nil
  | cons first layout ih =>
    rw [trimLeft] at h
    rcases List.mem_cons.1 h with rfl | h
    · exact ⟨first, List.mem_cons_self .., rfl, Or.inr rfl⟩
    · split_ifs at h
      · obtain ⟨whole, hmem, hwhole⟩ := ih h
        exact ⟨whole, List.mem_cons_of_mem _ hmem, hwhole⟩
      · exact ⟨segment, List.mem_cons_of_mem _ h, rfl, Or.inl rfl⟩

theorem mem_mirror_iff {segment : Segment} :
    segment ∈ layout.mirror ↔ ∃ whole ∈ layout, ⟨whole.owner, whole.text.reverse⟩ = segment := by
  rw [mirror, List.mem_reverse, List.mem_map]

theorem Holds.trim (h : layout.Holds source) : layout.trim.Holds source := by
  have hleft : layout.trimLeft.Holds source := by
    intro segment hsegment
    obtain ⟨whole, hwhole, howner, htext⟩ := exists_mem_of_mem_trimLeft hsegment
    refine (h whole hwhole).of_strip howner ?_
    rcases htext with htext | htext
    · rw [htext]
    · rw [htext, Text.strip_stripLeft]
  intro segment hsegment
  obtain ⟨trimmed, htrimmed, rfl⟩ := mem_mirror_iff.1 hsegment
  obtain ⟨mirrored, hmirrored, howner, htext⟩ := exists_mem_of_mem_trimLeft htrimmed
  obtain ⟨whole, hwhole, rfl⟩ := mem_mirror_iff.1 hmirrored
  refine (hleft whole hwhole).of_strip howner ?_
  -- Taking white space off the start of the mirror image takes it off the end.
  rcases htext with htext | htext
  · rw [htext, List.reverse_reverse]
  · rw [htext]
    exact Text.strip_stripRight whole.text

theorem Holds.moveBehind (h : layout.Holds source) (name reference : Name) :
    (layout.moveBehind separator name reference).Holds source := by
  unfold Layout.moveBehind
  split
  · exact h
  · rename_i moved behind hmoved
    have hbehind : ∀ segment ∈ moved :: behind, segment.Holds source := fun segment hsegment =>
      h segment ((List.dropWhile_sublist _).subset (hmoved ▸ hsegment))
    obtain ⟨hblock, hbehind⟩ := List.forall_mem_cons.1 hbehind
    split
    · exact h
    · rename_i target rest htarget
      have hrest : ∀ segment ∈ target :: rest, segment.Holds source := fun segment hsegment =>
        hbehind segment ((List.dropWhile_sublist _).subset (htarget ▸ hsegment))
      obtain ⟨hreference, hrest⟩ := List.forall_mem_cons.1 hrest
      have hbetween : Holds source (behind.takeWhile (Segment.differs reference)) :=
        fun segment hsegment => hbehind segment ((List.takeWhile_sublist _).subset hsegment)
      have hseparator := Segment.holds_plain source separator
      rw [Holds, List.forall_mem_append, List.forall_mem_append, spliced, List.forall_mem_append,
        List.forall_mem_append]
      refine ⟨fun segment hsegment => h segment ((List.takeWhile_sublist _).subset hsegment),
        ⟨⟨hbetween.trim, ?_⟩, by simp [hreference, hseparator, hblock]⟩, hrest⟩
      split_ifs <;> simp [hseparator]

theorem Holds.mendAll (h : layout.Holds source) (diagnostics : List Diagnostic) :
    (layout.mendAll separator diagnostics).Holds source := by
  induction diagnostics with
  | nil => exact h
  | cons diagnostic diagnostics ih =>
    rw [Layout.mendAll, List.foldr_cons, mend]
    cases diagnostic.predecessor with
    | none => exact ih
    | some reference => exact ih.moveBehind diagnostic.name reference

end Layout
end UsageOrder
