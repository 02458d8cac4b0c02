import UsageOrder.Json.Reader
import UsageOrder.Yaml.Scalar.Date

/-!
# Kinds of scalars

A scalar that is written without quotes and without a tag is of the first of these kinds that it has
the form of, and a text if it has none of the forms.

| kind | forms |
|---|---|
| null | nothing, `~`, `null` in three spellings |
| truth value | `yes`, `no`, `true`, `false`, `on`, `off` in three spellings each |
| whole number | decimal, `0b`, `0x`, a leading zero for octal, sixties with colons; underscores anywhere |
| floating point number | a point with digits on one side, an exponent with a sign, sixties, `.inf`, `.nan` |
| date | four, two and two digits with hyphens, or a date with a time |
| merge key, default key | `<<`, `=` |

A tag may give a scalar another kind than its form has, so the value of a scalar of a kind is told
for every text.  A date is kept as the text that shows it.
-/

namespace UsageOrder
namespace Yaml

/-- What a node stands for. -/
inductive Kind where
  | null
  | bool
  | int
  | real
  | date
  | text
  | list
  | mapping
  /-- A list of single pairs. -/
  | pairs
  /-- A mapping of which only the keys count. -/
  | set
  /-- The key under which other mappings are merged in. -/
  | mergeKey
  /-- The key for a default value. -/
  | defaultKey
  | unknown
deriving DecidableEq, Repr

/-- The three spellings of a word: small, capitalised, in capitals. -/
def spellings (small capitalised capitals : String) : List Text :=
  [small.toList, capitalised.toList, capitals.toList]

/-- The spellings of null. -/
def nullWords : List Text := [] :: ['~'] :: spellings "null" "Null" "NULL"

/-- The words for true. -/
def trueWords : List Text := ["yes".toList, "true".toList, "on".toList]

/-- The words for false. -/
def falseWords : List Text := ["no".toList, "false".toList, "off".toList]

/-- The spellings of the truth values. -/
def boolWords : List Text :=
  spellings "yes" "Yes" "YES" ++ spellings "true" "True" "TRUE" ++ spellings "on" "On" "ON" ++
    spellings "no" "No" "NO" ++ spellings "false" "False" "FALSE" ++ spellings "off" "Off" "OFF"

/-- A sign at the start of a text, and the rest. -/
def spanSign : Text → Bool × Text
  | '-' :: rest => (true, rest)
  | '+' :: rest => (false, rest)
  | rest => (false, rest)

/-- Whether a text has at least one character and every one is as given. -/
def allOf (p : Char → Bool) (text : Text) : Bool := !text.isEmpty && text.all p

/-- Whether a character is a digit or an underscore. -/
def isNumeral (c : Char) : Bool := c.isDigit || c = '_'

/-- Whether a text is a digit up to five and a digit, or a single digit. -/
def isSixtieth : Text → Bool
  | [d] => d.isDigit
  | [e, d] => decide ('0' ≤ e ∧ e ≤ '5') && d.isDigit
  | _ => false

/-- Whether a text starts with a digit and goes on with digits and underscores. -/
def isNumber : Text → Bool
  | d :: rest => d.isDigit && rest.all isNumeral
  | [] => false

/-- Whether a text has the form of a whole number. -/
def isIntForm (text : Text) : Bool :=
  match (spanSign text).2 with
  | ['0'] => true
  | '0' :: 'b' :: rest => allOf (fun c => c = '0' || c = '1' || c = '_') rest
  | '0' :: 'x' :: rest => allOf (fun c => (Json.hexValue? c).isSome || c = '_') rest
  | '0' :: rest => allOf (fun c => decide ('0' ≤ c ∧ c ≤ '7') || c = '_') rest
  | text =>
    match text.pieces ':' with
    | first :: rest => isNumber first && rest.all isSixtieth
    | [] => false

/-- Whether a text is an exponent or nothing. -/
def isExponent : Text → Bool
  | [] => true
  | mark :: sign :: rest =>
    (mark = 'e' || mark = 'E') && (sign = '+' || sign = '-') && allOf Char.isDigit rest
  | _ => false

/-- Whether a text is a point, digits and underscores, and an exponent or nothing. -/
def isFraction (text : Text) : Bool :=
  match text with
  | '.' :: rest => isExponent (rest.dropWhile isNumeral)
  | _ => false

/-- Whether a text is a number in sixties the last of which has a fraction. -/
def isSixtiesReal (text : Text) : Bool :=
  match text.pieces ':' with
  | first :: second :: rest =>
    let last := (second :: rest).getLastD []
    isNumber first && (second :: rest).dropLast.all isSixtieth &&
      isSixtieth (last.takeWhile (· ≠ '.')) && last.contains '.' &&
      ((last.dropWhile (· ≠ '.')).drop 1).all isNumeral
  | _ => false

/-- Whether a text has the form of a floating point number. -/
def isRealForm (text : Text) : Bool :=
  let unsigned := (spanSign text).2
  (spellings ".inf" ".Inf" ".INF").contains unsigned ||
    (spellings ".nan" ".NaN" ".NAN").contains text ||
    (unsigned.head?.any Char.isDigit && isFraction (unsigned.dropWhile isNumeral)) ||
    (match text with
      | '.' :: d :: _ => d.isDigit && isFraction text
      | _ => false) ||
    isSixtiesReal unsigned

/-- Whether a text has the form of a date. -/
def isDateForm (text : Text) : Bool :=
  (Moment.parse? text).any fun moment => moment.padded || moment.time.isSome

/-- The kind that a text without quotes and without a tag has the form of. -/
def Kind.ofForm (text : Text) : Kind :=
  if nullWords.contains text then .null
  else if boolWords.contains text then .bool
  else if isIntForm text then .int
  else if isRealForm text then .real
  else if isDateForm text then .date
  else if text = ['<', '<'] then .mergeKey
  else if text = ['='] then .defaultKey
  else if text = ['!'] || text = ['&'] || text = ['*'] then .unknown
  else .text

/-- Whether a text without quotes would be read as that text. -/
def readsAsText (text : Text) : Bool := decide (Kind.ofForm text = .text)

/-! ### Values -/

/-- The truth value that a text spells, in letters of any case. -/
def boolValue? (text : Text) : Option Bool :=
  let small := text.map Char.toLower
  if trueWords.contains small then some true
  else if falseWords.contains small then some false
  else none

/-- The number that some digits stand for in a base up to sixteen. -/
def baseValue? (base : Nat) (digits : Text) : Option Nat :=
  match digits.mapM Json.hexValue? with
  | some values =>
    if values.isEmpty || values.any fun d => decide (base ≤ d) then none
    else some (values.foldl (fun n d => base * n + d) 0)
  | none => none

/-- The number that some parts stand for, each of them sixty times the next one. -/
def sixtiesValue (parts : List Int) : Int := parts.foldl (fun n part => 60 * n + part) 0

/-- The size of a whole number without its sign and without underscores. -/
def sizeValue? (text : Text) : Option Int :=
  match text with
  | [] => none
  | ['0'] => some 0
  | '0' :: 'b' :: rest => (baseValue? 2 rest).map Int.ofNat
  | '0' :: 'x' :: rest => (baseValue? 16 rest).map Int.ofNat
  | '0' :: 'o' :: rest => (baseValue? 8 rest).map Int.ofNat
  | '0' :: rest => (baseValue? 8 ('0' :: rest)).map Int.ofNat
  | text =>
    if text.contains ':' then ((text.pieces ':').mapM Text.readInt?).map sixtiesValue
    else Text.readInt? text

/-- The whole number that a text stands for. -/
def intValue? (text : Text) : Option Int :=
  let (negative, rest) := spanSign (text.filter (· ≠ '_'))
  (sizeValue? rest).map fun n => if negative then -n else n

/-- The exponent that a text consists of, zero if it is empty. -/
def exponentValue? (text : Text) : Option Int :=
  match text with
  | [] => some 0
  | mark :: rest =>
    if mark = 'e' then
      let (negative, ds) := spanSign rest
      if allOf Char.isDigit ds then
        some (if negative then -(Moment.number ds : Int) else Moment.number ds)
      else none
    else none

/-- The floating point number that a decimal without a sign stands for. -/
def decimalValue? (text : Text) : Option Binary64 :=
  let whole := text.takeWhile Char.isDigit
  let rest := text.dropWhile Char.isDigit
  let (fraction, rest) := Moment.spanFraction rest
  if whole.isEmpty && fraction.isEmpty then none
  else
    (exponentValue? rest).map fun e =>
      .ofDecimal false (Moment.number (whole ++ fraction)) (e - fraction.length)

/-- The number that some parts stand for, the least one first, each of them worth sixty times the
one before it; products and sums are rounded one by one. -/
def sixtiesReal? (sum : Binary64) (unit : Nat) : List Binary64 → Option Binary64
  | [] => some sum
  | part :: parts =>
    match Binary64.ofRatio false unit 1 with
    | .infinite _ => none
    | worth => sixtiesReal? (sum.plus (part.times worth)) (60 * unit) parts

/-- The words for values without digits. -/
def realWords : List (Text × Binary64) := [
  (".inf".toList, .infinite false), (".nan".toList, .nan), ("inf".toList, .infinite false),
  ("infinity".toList, .infinite false), ("nan".toList, .nan)]

/-- The floating point number that a text stands for. -/
def realValue? (text : Text) : Option Binary64 :=
  let (negative, rest) := spanSign ((text.filter (· ≠ '_')).map Char.toLower)
  let size :=
    match realWords.lookup rest with
    | some x => some x
    | none =>
      if rest.contains ':' then do
        let parts ← (rest.pieces ':').mapM decimalValue?
        sixtiesReal? (.finite false 0 0) 1 parts.reverse
      else decimalValue? (Text.stripSpacing rest)
  size.map fun x => if negative then x.negated else x

/-- The value of a scalar of a kind. -/
def scalarValue? (kind : Kind) (text : Text) : Option Json :=
  match kind with
  | .null => some .null
  | .bool => (boolValue? text).map Json.bool
  | .int => (intValue? text).map Json.int
  | .real => (realValue? text).map Json.real
  | .date => ((Moment.parse? text).bind Moment.shown?).map fun shown => .str (String.ofList shown)
  | .text => some (.str (String.ofList text))
  | _ => none

end Yaml
end UsageOrder
