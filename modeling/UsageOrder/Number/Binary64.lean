/-!
# Binary floating point numbers, exactly

A number of the 64-bit binary format is held as a sign, a whole mantissa and a power of two, so
that reading and writing it are computations with whole numbers.

| rule | definition |
|---|---|
| a decimal is read as the nearest number, a tie going to the even mantissa | `ofDecimal` |
| a number is written with the fewest digits that read back, the nearest such | `digits` |
| positional notation for decimal exponents from -4 to 15, else an exponent of two digits or more | `render` |
-/

namespace UsageOrder

/-- A number of the 64-bit binary format: `(-1)^negative · mantissa · 2^exponent`, an infinity, or
the value that is no number. -/
inductive Binary64 where
  | finite (negative : Bool) (mantissa : Nat) (exponent : Int)
  | infinite (negative : Bool)
  | nan
deriving DecidableEq, Repr, Inhabited

namespace Binary64

/-- The number of decimal digits of a positive number. -/
def digitCount (n : Nat) : Nat := (Nat.toDigits 10 n).length

/-- A power of two. -/
def twoTo (n : Nat) : Nat := Nat.pow 2 n

/-- A power of ten. -/
def tenTo (n : Nat) : Nat := Nat.pow 10 n

/-- The quotient of two whole numbers, rounded to the nearest one and to the even one at a tie. -/
def roundDiv (numerator denominator : Nat) : Nat :=
  let q := numerator / denominator
  let twice := 2 * (numerator % denominator)
  if twice < denominator then q
  else if denominator < twice then q + 1
  else if q % 2 = 0 then q else q + 1

/-- The nearest number to the positive quotient `numerator / denominator`. -/
def ofRatio (negative : Bool) (numerator denominator : Nat) : Binary64 :=
  let guess : Int := (numerator.log2 : Int) - denominator.log2 - 53
  let scaled (q : Int) : Nat × Nat :=
    if q < 0 then (numerator * twoTo (-q).toNat, denominator)
    else (numerator, denominator * twoTo q.toNat)
  let low := scaled guess
  let fitting := if low.1 / low.2 < twoTo 53 then guess else guess + 1
  let exponent := if fitting < -1074 then -1074 else fitting
  let ratio := scaled exponent
  let mantissa := roundDiv ratio.1 ratio.2
  let (mantissa, exponent) :=
    if mantissa = twoTo 53 then (twoTo 52, exponent + 1) else (mantissa, exponent)
  if 971 < exponent then .infinite negative else .finite negative mantissa exponent

/-- The nearest number to `(-1)^negative · mantissa · 10^exponent`. -/
def ofDecimal (negative : Bool) (mantissa : Nat) (exponent : Int) : Binary64 :=
  if mantissa = 0 then .finite negative 0 0
  else
    let magnitude := digitCount mantissa + exponent
    if 310 < magnitude then .infinite negative
    else if magnitude < -330 then .finite negative 0 0
    else if exponent < 0 then ofRatio negative mantissa (tenTo (-exponent).toNat)
    else ofRatio negative (mantissa * tenTo exponent.toNat) 1

/-- The exact value of a finite number. -/
def toRat? : Binary64 → Option Rat
  | .finite negative mantissa exponent =>
    let signed : Int := if negative then -mantissa else mantissa
    some (mkRat (signed * twoTo exponent.toNat) (twoTo (-exponent).toNat))
  | _ => none

/-- A finite number cut to a whole one, toward zero. -/
def truncate? : Binary64 → Option Int
  | .finite negative mantissa exponent =>
    let size : Nat :=
      if exponent < 0 then mantissa / twoTo (-exponent).toNat else mantissa * twoTo exponent.toNat
    some (if negative then -size else size)
  | _ => none

/-- Whether the number is one of the two zeros. -/
def isZero : Binary64 → Bool
  | .finite _ mantissa _ => mantissa == 0
  | _ => false

/-- The nearest number to an exact value that is not negative. -/
def ofSize (size : Rat) : Binary64 :=
  if size.num = 0 then .finite false 0 0 else ofRatio false size.num.natAbs size.den

/-- The rounded sum of two numbers that are not negative. -/
def plus (x y : Binary64) : Binary64 :=
  match x.toRat?, y.toRat? with
  | some a, some b => ofSize (a + b)
  | _, _ => .infinite false

/-- The rounded product of two numbers that are not negative, the second one not being zero. -/
def times (x y : Binary64) : Binary64 :=
  match x.toRat?, y.toRat? with
  | some a, some b => ofSize (a * b)
  | _, _ => .infinite false

/-- The number with the other sign. -/
def negated : Binary64 → Binary64
  | .finite negative mantissa exponent => .finite (!negative) mantissa exponent
  | .infinite negative => .infinite (!negative)
  | .nan => .nan

/-- The two neighbours of a size on the grid of `10^unit`, the nearer one first. -/
def neighbours (mantissa : Nat) (exponent unit : Int) : List Nat :=
  let numerator := mantissa * twoTo exponent.toNat * tenTo (-unit).toNat
  let denominator := twoTo (-exponent).toNat * tenTo unit.toNat
  let floor := numerator / denominator
  let twice := 2 * (numerator % denominator)
  if twice < denominator ∨ (twice = denominator ∧ floor % 2 = 0) then [floor, floor + 1]
  else [floor + 1, floor]

/-- The decimal exponent of the leading digit of a positive size. -/
def leading (mantissa : Nat) (exponent : Int) : Int :=
  let numerator := mantissa * twoTo exponent.toNat
  let denominator := twoTo (-exponent).toNat
  if denominator ≤ numerator then digitCount (numerator / denominator) - 1
  else
    let shift := digitCount denominator - digitCount numerator
    if denominator ≤ numerator * tenTo shift then -shift else -shift - 1

/-- The fewest digits that read back as the given positive number, with the exponent of their last
digit. -/
def digits (mantissa : Nat) (exponent : Int) : Nat × Int :=
  let value := Binary64.finite false mantissa exponent
  let top := leading mantissa exponent
  let tries := (List.range 17).flatMap fun (n : Nat) =>
    (neighbours mantissa exponent (top - n)).map fun d => (d, top - n)
  (tries.find? fun t => decide (ofDecimal false t.1 t.2 = value)).getD (0, 0)

/-- Drops the zeros at the end of a digit string, all but the first digit. -/
def trimZeros (ds : List Char) : List Char :=
  match (ds.reverse.dropWhile (· = '0')).reverse with
  | [] => ['0']
  | rest => rest

/-- The text of a finite positive size whose digits are `ds` with the leading one at `10^point`. -/
def layout (ds : List Char) (point : Int) : List Char :=
  if -4 ≤ point ∧ point < 16 then
    if point < 0 then
      '0' :: '.' :: List.replicate (-point - 1).toNat '0' ++ ds
    else
      let whole := (point + 1).toNat
      let padded := ds ++ List.replicate (whole - ds.length) '0'
      let fraction := padded.drop whole
      padded.take whole ++ '.' :: (if fraction.isEmpty then ['0'] else fraction)
  else
    let fraction := if ds.length ≤ 1 then [] else '.' :: ds.drop 1
    let size := Nat.toDigits 10 point.natAbs
    ds.take 1 ++ fraction ++ 'e' :: (if point < 0 then '-' else '+') ::
      (if size.length < 2 then '0' :: size else size)

/-- The text of a number: the fewest digits that read back, positional for decimal exponents from
-4 to 15, and the given words for the values that have no digits. -/
def render (infinity noNumber : String) : Binary64 → String
  | .nan => noNumber
  | .infinite negative => (if negative then "-" else "") ++ infinity
  | .finite negative mantissa exponent =>
    let body :=
      if mantissa = 0 then "0.0"
      else
        let (size, unit) := digits mantissa exponent
        let all := Nat.toDigits 10 size
        String.ofList (layout (trimZeros all) (unit + all.length - 1))
    (if negative then "-" else "") ++ body

end Binary64
end UsageOrder
