import UsageOrder.Text.Basic
import UsageOrder.Tree.Range

/-!
# Edits of a text

An edit puts a text in the place of what stands between two offsets.  `Edit.moveAfter` is the edit
that moves one range to just behind another one: what stood between the two comes first, without the
white space around it, then the reference, then what is moved.
-/

namespace UsageOrder

/-- The replacement of what stands between two offsets. -/
structure Edit where
  start : Int
  stop : Int
  text : Text
deriving DecidableEq, Repr

namespace Edit

/-- The text after an edit. -/
def apply (edit : Edit) (source : Text) : Text :=
  source.upTo edit.start ++ edit.text ++ source.since edit.stop

/-- Whether two edits have a character in common. -/
def overlaps (edit other : Edit) : Bool :=
  decide (edit.start < other.stop ∧ other.start < edit.stop)

/-- Whether an edit does not come after another one: by its start, then by its end. -/
def le (edit other : Edit) : Bool :=
  decide (edit.start < other.start ∨ (edit.start = other.start ∧ edit.stop ≤ other.stop))

/-- The edit that moves one range to just behind another one. -/
def moveAfter (text : Text) (moved reference : Range) (separator : Text) : Edit :=
  let between := (text.slice moved.stop reference.start).strip
  let blocks := [text.slice reference.start reference.stop, text.slice moved.start moved.stop]
  { start := moved.start
    stop := reference.stop
    text := Text.join separator (if between.isEmpty then blocks else between :: blocks) }

end Edit
end UsageOrder
