import UsageOrder.Text.Basic

/-!
# Digits and whole numbers in text

Every script's decimal digits count as digits.  They come in runs of ten, so a table of the zeros
is enough.  Some other characters are digits without being decimal ones (superscripts, circled
digits): `isDigit` takes them in, and `readInt?` does not.

A whole number is written with white space around it, a sign, and digits with single underscores
between them; leading zeros are allowed.
-/

namespace UsageOrder
namespace Text

/-- The zeros of the scripts that have decimal digits; the other nine digits follow each. -/
def decimalZeros : List Nat := [
  48, 1632, 1776, 1984, 2406, 2534, 2662, 2790, 2918, 3046, 3174, 3302, 3430, 3558, 3664, 3792,
  3872, 4160, 4240, 6112, 6160, 6470, 6608, 6784, 6800, 6992, 7088, 7232, 7248, 42528, 43216,
  43264, 43472, 43504, 43600, 44016, 65296, 66720, 68912, 69734, 69872, 69942, 70096, 70384,
  70736, 70864, 71248, 71360, 71472, 71904, 72016, 72784, 73040, 73120, 92768, 92864, 93008,
  120782, 120792, 120802, 120812, 120822, 123200, 123632, 125264, 130032]

/-- Digits that are not decimal: superscripts, subscripts, circled and other special digits. -/
def otherDigits : List (Nat × Nat) := [
  (178, 179), (185, 185), (4969, 4977), (6618, 6618), (8304, 8304), (8308, 8313), (8320, 8329),
  (9312, 9320), (9332, 9340), (9352, 9360), (9450, 9450), (9461, 9469), (9471, 9471),
  (10102, 10110), (10112, 10120), (10122, 10130), (68160, 68163), (69216, 69224), (69714, 69722),
  (127232, 127242)]

/-- The value of a decimal digit. -/
def digitValue? (c : Char) : Option Nat :=
  (decimalZeros.find? fun z => decide (z ≤ c.toNat ∧ c.toNat < z + 10)).map
    fun z => c.toNat - z

/-- Whether a character is a digit of any sort. -/
def isDigit (c : Char) : Bool :=
  (digitValue? c).isSome ||
    otherDigits.any fun range => decide (range.1 ≤ c.toNat ∧ c.toNat ≤ range.2)

/-- The most digits a written number may have. -/
def maxDigits : Nat := 4300

/-- The values of the digits of a text in which single underscores may stand between digits. -/
def digitValues? : Text → Option (List Nat)
  | [] => none
  | [c] => (digitValue? c).map ([·])
  | c :: '_' :: rest => do
    let value ← digitValue? c
    let values ← digitValues? rest
    some (value :: values)
  | c :: rest => do
    let value ← digitValue? c
    let values ← digitValues? rest
    some (value :: values)

/-- The number that a list of digit values stands for. -/
def ofDigits (values : List Nat) : Nat := values.foldl (fun n d => 10 * n + d) 0

/-- The natural number that a text of digits stands for. -/
def readNat? (text : Text) : Option Nat := do
  let values ← digitValues? text
  if values.length ≤ maxDigits then some (ofDigits values) else none

/-- White space around a number: the separators of records, groups and files are none. -/
def isSpacing (c : Char) : Bool := isBlank c && !(28 ≤ c.toNat && c.toNat ≤ 31)

/-- A text without the white space around a number. -/
def stripSpacing (text : Text) : Text :=
  ((text.dropWhile isSpacing).reverse.dropWhile isSpacing).reverse

/-- The whole number that a text stands for. -/
def readInt? (text : Text) : Option Int :=
  match stripSpacing text with
  | '+' :: rest => (readNat? rest).map fun n => (n : Int)
  | '-' :: rest => (readNat? rest).map fun n => -(n : Int)
  | rest => (readNat? rest).map fun n => (n : Int)

end Text
end UsageOrder
