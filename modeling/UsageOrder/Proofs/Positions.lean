import Mathlib.Algebra.GroupWithZero.Nat
import UsageOrder.Proofs.Fixes
import UsageOrder.Proofs.Pieces
import UsageOrder.Text.Position

/-!
# Positions and offsets

A text is its lines with a line feed between each two of them.  A position lies in a text when its
line is one of these and its column is that of a character of the line or the one behind the last
(`Position.LiesIn`).  The offset of a position counts the lines in front of it, with one line feed
each, and the characters in front of its column (`Text.offsetAt`).

Every offset in a text is the offset of a position that lies in it (`exists_offsetAt`).  The text in
front of that offset is the earlier lines with their line feeds and then a part of the line without
one, so the position of the offset is that position again (`position_offsetAt`).  Of two positions
the one that comes first has the smaller offset (`offsetAt_lt`).  The main statement is
`position_recovers`.
-/

namespace UsageOrder

namespace Text

/-- The lines of a text. -/
def lines (text : Text) : List Text := text.pieces '\n'

/-- The offset of a position: the lengths of the lines in front of its own, with one line feed each,
and the characters in front of its column. -/
def offsetAt (text : Text) (position : Position) : Int :=
  (((text.lines.take (position.line - 1).toNat).map fun line => line.length + 1).sum : Nat) +
    (position.column - 1)

end Text

namespace Position

/-- **A position lies in a text:** on one of its lines, at a character or behind the last one. -/
structure LiesIn (position : Position) (text : Text) : Prop where
  line_pos : 1 ≤ position.line
  line_le : position.line ≤ text.lines.length
  column_pos : 1 ≤ position.column
  column_le : ∀ line ∈ text.lines[(position.line - 1).toNat]?, position.column ≤ line.length + 1

/-- A position comes before another one: by its line, then by its column. -/
def Before (position other : Position) : Prop :=
  position.line < other.line ∨ position.line = other.line ∧ position.column < other.column

theorem before_total {position other : Position} (hne : position ≠ other) :
    position.Before other ∨ other.Before position := by
  obtain ⟨line, column⟩ := position
  obtain ⟨line', column'⟩ := other
  unfold Before
  have hdiffer : line ≠ line' ∨ column ≠ column' := by
    by_contra h
    push Not at h
    exact hne (by rw [h.1, h.2])
  dsimp only
  omega

theorem liesIn_iff {position : Position} {text : Text} :
    position.LiesIn text ↔ ∃ number line column, text.lines[number]? = some line ∧
      column ≤ line.length ∧ position = ⟨(number : Nat) + 1, (column : Nat) + 1⟩ := by
  constructor
  · intro h
    obtain ⟨hline, hlast, hcolumn, hend⟩ := h
    have hlt : (position.line - 1).toNat < text.lines.length := by omega
    have hget := List.getElem?_eq_getElem hlt
    have hle := hend _ hget
    refine ⟨_, _, (position.column - 1).toNat, hget, by omega, ?_⟩
    rw [Int.toNat_of_nonneg (by omega), Int.toNat_of_nonneg (by omega)]
    simp
  · rintro ⟨number, line, column, hget, hle, rfl⟩
    have hlt : number < text.lines.length := (List.getElem?_eq_some_iff.1 hget).1
    have hnumber : ((number : Int) + 1 - 1).toNat = number := by omega
    constructor
    case column_le =>
      intro line' hline'
      rw [hnumber, hget] at hline'
      obtain rfl := Option.mem_some_iff.1 hline'
      dsimp only
      omega
    all_goals
      dsimp only
      omega

end Position

namespace Text

/-! ### The lines in front of another one -/

/-- The lines in front of one with a number, each with the line feed behind it. -/
def ahead (lines : List Text) (number : Nat) : Text := (lines.take number).flatMap (· ++ ['\n'])

theorem ahead_zero (lines : List Text) : ahead lines 0 = [] := rfl

theorem ahead_succ {lines : List Text} {number : Nat} {line : Text}
    (h : lines[number]? = some line) :
    ahead lines (number + 1) = ahead lines number ++ line ++ ['\n'] := by
  simp [ahead, List.take_add_one, h]

theorem length_ahead (lines : List Text) (number : Nat) :
    (ahead lines number).length =
      ((lines.take number).map fun line => line.length + 1).sum := by
  simp [ahead, List.length_flatMap]

theorem length_ahead_mono (lines : List Text) {number later : Nat} (h : number ≤ later) :
    (ahead lines number).length ≤ (ahead lines later).length := by
  obtain ⟨more, rfl⟩ := Nat.exists_eq_add_of_le h
  rw [ahead, ahead, List.take_add, List.flatMap_append, List.length_append]
  omega

/-- A later line starts behind the line and its line feed. -/
theorem length_ahead_lt {lines : List Text} {number later : Nat} {line : Text}
    (h : lines[number]? = some line) (hlt : number < later) :
    (ahead lines number).length + line.length < (ahead lines later).length := by
  have hmono := length_ahead_mono lines hlt
  rw [Nat.succ_eq_add_one, ahead_succ h] at hmono
  simp only [List.length_append, List.length_singleton] at hmono
  omega

/-- Every line in front has one line feed. -/
theorem count_ahead {lines : List Text} (hfeed : ∀ line ∈ lines, '\n' ∉ line) {number : Nat}
    (h : number ≤ lines.length) : (ahead lines number).count '\n' = number := by
  induction number with
  | zero => rfl
  | succ number ih =>
    have hget := List.getElem?_eq_getElem h
    have hline := List.count_eq_zero.2 (hfeed _ (List.mem_of_getElem? hget))
    rw [ahead_succ hget, List.count_append, List.count_append, ih (Nat.le_of_succ_le h), hline]
    rfl

/-- A line stands behind the lines in front of it. -/
theorem intercalate_eq_ahead {lines : List Text} {number : Nat} {line : Text}
    (h : lines[number]? = some line) :
    ∃ rest, ['\n'].intercalate lines = ahead lines number ++ line ++ rest := by
  induction lines generalizing number with
  | nil => simp at h
  | cons first lines ih =>
    cases number with
    | zero =>
      obtain rfl : first = line := by simpa using h
      cases lines with
      | nil => exact ⟨[], by simp [ahead]⟩
      | cons second lines =>
        refine ⟨['\n'] ++ ['\n'].intercalate (second :: lines), ?_⟩
        rw [List.intercalate_cons_cons, ahead_zero, List.nil_append, List.append_assoc]
    | succ number =>
      rw [List.getElem?_cons_succ] at h
      obtain ⟨rest, hrest⟩ := ih h
      refine ⟨rest, ?_⟩
      rw [List.intercalate_cons_of_ne_nil (by rintro rfl; simp at h), hrest]
      simp [ahead]

/-- Every offset is in a line or behind its last character. -/
theorem exists_line {lines : List Text} (hlines : lines ≠ []) {offset : Nat}
    (h : offset ≤ (['\n'].intercalate lines).length) :
    ∃ number line column, lines[number]? = some line ∧ column ≤ line.length ∧
      offset = (ahead lines number).length + column := by
  induction lines generalizing offset with
  | nil => exact absurd rfl hlines
  | cons first lines ih =>
    by_cases hfirst : offset ≤ first.length
    · exact ⟨0, first, offset, rfl, hfirst, by simp [ahead]⟩
    cases lines with
    | nil =>
      rw [List.intercalate_singleton] at h
      exact absurd h hfirst
    | cons second lines =>
      rw [List.intercalate_cons_cons] at h
      simp only [List.length_append, List.length_singleton] at h
      have hrest : offset - first.length - 1 ≤ (['\n'].intercalate (second :: lines)).length := by
        omega
      obtain ⟨number, line, column, hget, hle, heq⟩ := ih (List.cons_ne_nil _ _) hrest
      refine ⟨number + 1, line, column, hget, hle, ?_⟩
      have hahead : ahead (first :: second :: lines) (number + 1) =
          first ++ ['\n'] ++ ahead (second :: lines) number := by
        simp [ahead]
      rw [hahead]
      simp only [List.length_append, List.length_singleton]
      omega

/-! ### The position of an offset -/

/-- The line of an offset starts behind the last line feed in front of the offset. -/
theorem takeWhile_reverse_append {front part : Text} (hfront : ∀ c ∈ front.getLast?, c = '\n')
    (hpart : '\n' ∉ part) :
    (front ++ part).reverse.takeWhile (· ≠ '\n') = part.reverse := by
  have hall : ∀ c ∈ part.reverse, decide (c ≠ '\n') = true := by
    intro c hc
    rw [decide_eq_true_iff]
    rintro rfl
    exact hpart (List.mem_reverse.1 hc)
  rw [List.reverse_append, List.takeWhile_append_of_pos hall]
  rcases List.eq_nil_or_concat' front with rfl | ⟨front, c, rfl⟩
  · simp
  · have hc := hfront c (by simp)
    simp [hc]

/-- Behind lines with their line feeds and a part of the next line, the line feeds and the length of
the part tell the position. -/
theorem position_append {front part : Text} (hfront : ∀ c ∈ front.getLast?, c = '\n')
    (hpart : '\n' ∉ part) (rest : Text) :
    Text.position (front ++ part ++ rest) (front ++ part).length =
      ⟨front.count '\n' + 1, part.length + 1⟩ := by
  have hupTo : Text.upTo (front ++ part ++ rest) (front ++ part).length = front ++ part := by
    rw [upTo_append _ (by omega) le_rfl, upTo, clamp_eq_toNat (by omega) le_rfl,
      Int.toNat_natCast, List.take_length]
  have hcount : (front ++ part).count '\n' = front.count '\n' := by
    rw [List.count_append, List.count_eq_zero.2 hpart, Nat.add_zero]
  rw [position, lineFeeds, lineStart, hupTo, takeWhile_reverse_append hfront hpart, hcount,
    List.length_append, List.length_reverse, Nat.add_sub_cancel]
  have hcolumn : ((front.length + part.length : Nat) : Int) - front.length + 1 =
      part.length + 1 := by
    omega
  rw [hcolumn]

theorem getLast?_ahead {lines : List Text} {number : Nat} (h : number ≤ lines.length) :
    ∀ c ∈ (ahead lines number).getLast?, c = '\n' := by
  cases number with
  | zero => simp [ahead]
  | succ number =>
    rw [ahead_succ (List.getElem?_eq_getElem h)]
    simp

theorem lines_ne_nil (text : Text) : text.lines ≠ [] := pieces_ne_nil '\n' text

theorem intercalate_lines (text : Text) : ['\n'].intercalate text.lines = text :=
  intercalate_pieces '\n' text

theorem offsetAt_mk (text : Text) (number column : Nat) :
    text.offsetAt ⟨number + 1, column + 1⟩ = (ahead text.lines number).length + column := by
  rw [length_ahead, offsetAt]
  simp

/-- Every offset in a text is the offset of a position that lies in it. -/
theorem exists_offsetAt {text : Text} {offset : Int} (hstart : 0 ≤ offset)
    (hstop : offset ≤ text.length) :
    ∃ position : Position, position.LiesIn text ∧ text.offsetAt position = offset := by
  have hle : offset.toNat ≤ (['\n'].intercalate text.lines).length := by
    rw [intercalate_lines]
    omega
  obtain ⟨number, line, column, hget, hcolumn, heq⟩ := exists_line text.lines_ne_nil hle
  refine ⟨⟨number + 1, column + 1⟩,
    Position.liesIn_iff.2 ⟨number, line, column, hget, hcolumn, rfl⟩, ?_⟩
  rw [offsetAt_mk]
  omega

/-- **The position of the offset of a position is that position.** -/
theorem position_offsetAt {text : Text} {position : Position} (h : position.LiesIn text) :
    text.position (text.offsetAt position) = position := by
  obtain ⟨number, line, column, hget, hcolumn, rfl⟩ := Position.liesIn_iff.1 h
  obtain ⟨rest, htext⟩ := intercalate_eq_ahead hget
  have hnumber : number ≤ text.lines.length := (List.getElem?_eq_some_iff.1 hget).1.le
  have hfeed : ∀ line ∈ text.lines, '\n' ∉ line := fun line => mark_not_mem_of_mem_pieces
  have hpart : '\n' ∉ line.take column :=
    fun hmem => hfeed line (List.mem_of_getElem? hget) (List.mem_of_mem_take hmem)
  -- The text is the earlier lines, the characters in front of the column, and the rest.
  have hsplit : text =
      ahead text.lines number ++ line.take column ++ (line.drop column ++ rest) := by
    rw [← List.append_assoc, List.append_assoc (ahead _ _), List.take_append_drop, ← htext,
      intercalate_lines]
  have hposition := position_append (getLast?_ahead hnumber) hpart (line.drop column ++ rest)
  rw [← hsplit, count_ahead hfeed hnumber, List.length_append, List.length_take,
    Nat.min_eq_left hcolumn] at hposition
  rw [offsetAt_mk, ← Int.natCast_add, hposition]

/-- **A position that comes before another one has a smaller offset.** -/
theorem offsetAt_lt {text : Text} {position other : Position} (h : position.LiesIn text)
    (h' : other.LiesIn text) (hbefore : position.Before other) :
    text.offsetAt position < text.offsetAt other := by
  obtain ⟨number, line, column, hget, hcolumn, rfl⟩ := Position.liesIn_iff.1 h
  obtain ⟨number', line', column', hget', hcolumn', rfl⟩ := Position.liesIn_iff.1 h'
  rw [offsetAt_mk, offsetAt_mk]
  rcases hbefore with hline | ⟨hline, hlt⟩
  · dsimp only at hline
    have hlater := length_ahead_lt hget (show number < number' by omega)
    omega
  · dsimp only at hline hlt
    obtain rfl : number = number' := by omega
    omega

/-- **Positions and offsets tell each other.**  The position of an offset lies in the text, and its
offset is the one it was found for.  A later offset has a later position, and no other offset has
the same one. -/
theorem position_recovers (text : Text) {offset : Int} (hstart : 0 ≤ offset)
    (hstop : offset ≤ text.length) :
    (text.position offset).LiesIn text ∧ text.offsetAt (text.position offset) = offset ∧
      (∀ later : Int, offset < later → later ≤ text.length →
        (text.position offset).Before (text.position later)) ∧
      ∀ other : Int, 0 ≤ other → other ≤ text.length →
        text.position other = text.position offset → other = offset := by
  -- An offset in the text is that of its own position.
  have hback : ∀ offset : Int, 0 ≤ offset → offset ≤ text.length →
      (text.position offset).LiesIn text ∧ text.offsetAt (text.position offset) = offset := by
    intro offset hstart hstop
    obtain ⟨position, hlies, rfl⟩ := exists_offsetAt hstart hstop
    rw [position_offsetAt hlies]
    exact ⟨hlies, rfl⟩
  obtain ⟨hlies, hoffset⟩ := hback offset hstart hstop
  refine ⟨hlies, hoffset, fun later hlt hlater => ?_, fun other hother hend heq => ?_⟩
  · obtain ⟨hlies', hoffset'⟩ := hback later (by omega) hlater
    have hne : text.position offset ≠ text.position later := by
      intro heq
      rw [← heq] at hoffset'
      omega
    rcases Position.before_total hne with hbefore | hbefore
    · exact hbefore
    · have hless := offsetAt_lt hlies' hlies hbefore
      omega
  · obtain ⟨-, hoffset'⟩ := hback other hother hend
    rw [← hoffset', heq, hoffset]

/-- The start of an empty line, between the two line feeds and in front of the end of the text. -/
theorem position_recovers_emptyLine :
    let text : Text := ['a', '\n', '\n', 'b']
    (0 : Int) ≤ 2 ∧ (2 : Int) ≤ text.length ∧ text.lines = [['a'], [], ['b']] ∧
      text.position 2 = ⟨2, 1⟩ ∧ (text.position 2).LiesIn text ∧ text.offsetAt ⟨2, 1⟩ = 2 ∧
      (text.position 2).Before (text.position 4) ∧ text.position 1 ≠ text.position 2 := by
  intro text
  have hstart : (0 : Int) ≤ 2 := by decide
  have hstop : (2 : Int) ≤ text.length := by decide
  obtain ⟨hlies, hoffset, hlater, hsame⟩ := position_recovers text hstart hstop
  have hposition : text.position 2 = ⟨2, 1⟩ := by decide
  refine ⟨hstart, hstop, by decide, hposition, hlies, hposition ▸ hoffset,
    hlater 4 (by decide) (by decide), fun heq => ?_⟩
  exact absurd (hsame 1 (by decide) (by decide) heq) (by decide)

end Text
end UsageOrder
