import UsageOrder.Text.Basic

/-!
# Lines and columns

Line and column count from one, and a line feed is the only line end.  The column of an offset is
its distance from the start of its line, so an offset past the end of the text lies on the last line
and a negative offset has a column of its own sign.
-/

namespace UsageOrder

/-- A line and a column, both counted from one. -/
structure Position where
  line : Int
  column : Int
deriving DecidableEq, Repr, Inhabited

namespace Text

/-- The number of line feeds in front of an offset. -/
def lineFeeds (text : Text) (offset : Int) : Nat := (text.upTo offset).count '\n'

/-- The offset at which the line of an offset starts. -/
def lineStart (text : Text) (offset : Int) : Nat :=
  (text.upTo offset).length - ((text.upTo offset).reverse.takeWhile (· ≠ '\n')).length

/-- The position of an offset. -/
def position (text : Text) (offset : Int) : Position where
  line := text.lineFeeds offset + 1
  column := offset - text.lineStart offset + 1

end Text
end UsageOrder
