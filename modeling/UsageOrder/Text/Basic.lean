/-!
# Text and its offsets

A text is a list of code points, and an offset counts code points.  An offset may be negative, in
which case it counts from the end, and an offset outside the text stands for the nearer end of it.

| operation | rule |
|---|---|
| `Text.clamp` | the place in the text that an offset stands for |
| `Text.slice` | the part between two offsets, empty when they are in the wrong order |
| `Text.strip` | what is left without the white space at both ends |
| `Text.offsetOf?` | the least offset at which a pattern stands |
| `Text.le` | the order of texts by their code points |
| `Text.unifyLineEnds` | every line end becomes one line feed |
-/

namespace UsageOrder

/-- A text as its code points. -/
abbrev Text := List Char

namespace Text

/-- The place in a list of the given length that an offset stands for. -/
def clamp (length : Nat) (offset : Int) : Nat :=
  if offset < 0 then (length + offset).toNat else min offset.toNat length

/-- The part of a text in front of an offset. -/
def upTo (text : Text) (offset : Int) : Text := text.take (clamp text.length offset)

/-- The part of a text from an offset on. -/
def since (text : Text) (offset : Int) : Text := text.drop (clamp text.length offset)

/-- The part of a text between two offsets. -/
def slice (text : Text) (start stop : Int) : Text :=
  (text.take (clamp text.length stop)).drop (clamp text.length start)

/-- White space: the separators and the control characters that break or space out a text. -/
def isBlank (c : Char) : Bool :=
  let n := c.toNat
  (9 ≤ n && n ≤ 13) || (28 ≤ n && n ≤ 32) || n = 133 || n = 160 || n = 5760 ||
    (8192 ≤ n && n ≤ 8202) || n = 8232 || n = 8233 || n = 8239 || n = 8287 || n = 12288

/-- A text without the white space at its start. -/
def stripLeft (text : Text) : Text := text.dropWhile isBlank

/-- A text without the white space at its end. -/
def stripRight (text : Text) : Text := (text.reverse.dropWhile isBlank).reverse

/-- A text without the white space at both ends. -/
def strip (text : Text) : Text := stripRight (stripLeft text)

/-- The least offset at which the text continues with the pattern. -/
def offsetOf? (pattern : Text) : Text → Option Nat
  | [] => if pattern.isEmpty then some 0 else none
  | c :: rest =>
    if pattern.isPrefixOf (c :: rest) then some 0 else (offsetOf? pattern rest).map (· + 1)

/-- Whether the text continues with the pattern at an offset; nothing stands past the end. -/
def standsAt (pattern text : Text) (offset : Int) : Bool :=
  decide (offset ≤ text.length) && pattern.isPrefixOf (text.since offset)

/-- Every line end, be it a carriage return, a line feed or the pair of them, becomes one line
feed. -/
def unifyLineEnds : Text → Text
  | '\r' :: '\n' :: rest => '\n' :: unifyLineEnds rest
  | c :: rest => (if c = '\r' then '\n' else c) :: unifyLineEnds rest
  | [] => []

/-- Whether a text does not come after another one: by the first code point in which they differ, a
text coming after those it starts with. -/
def le : Text → Text → Bool
  | [], _ => true
  | _ :: _, [] => false
  | a :: as, b :: bs => if a = b then le as bs else decide (a.toNat < b.toNat)

/-- The pieces of a text between the occurrences of one character. -/
def pieces (mark : Char) : Text → List Text
  | [] => [[]]
  | c :: rest =>
    if c = mark then [] :: pieces mark rest
    else match pieces mark rest with
      | [] => [[c]]
      | piece :: pieces => (c :: piece) :: pieces

/-- Pieces with a separator between each two neighbours. -/
def join (separator : Text) (pieces : List Text) : Text := separator.intercalate pieces

end Text
end UsageOrder
