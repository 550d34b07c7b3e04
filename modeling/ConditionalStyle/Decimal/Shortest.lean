import ConditionalStyle.Decimal.Nearest

/-!
# The shortest text of a double

A finite double is written with the fewest decimal digits that read back as it, and among those
with the digits nearest to it.

## Main definitions

* `Rounding`: the reals that read back as a double.
* `shortest`: the digits and the decimal exponent of the text.
* `render`: the text itself.
-/

namespace ConditionalStyle.Decimal

/-- The reals that read back as a positive double `value / unit`: those from `low / unit` to
`high / unit`, the two ends included or not. -/
structure Rounding where
  value : Nat
  low : Nat
  high : Nat
  unit : Nat
  closed : Bool
deriving DecidableEq, Repr

/-- The reals that read back as `mantissa · 2 ^ exponent`. Below the least mantissa of a binade the
doubles are twice as dense; an even mantissa wins both ties. -/
def Rounding.of (mantissa : Nat) (exponent : Int) : Rounding :=
  let below := if mantissa == Nat.pow 2 52 && leastExponent < exponent then 1 else 2
  let factor := Nat.pow 2 (exponent - 2).toNat
  { value := 4 * mantissa * factor
    low := (4 * mantissa - below) * factor
    high := (4 * mantissa + 2) * factor
    unit := Nat.pow 2 (2 - exponent).toNat
    closed := mantissa % 2 == 0 }

/-- The greatest `e` with `10 ^ e ≤ num / den`, for positive numbers. -/
def decimalExponent (num den : Nat) : Int :=
  if den ≤ num then digitCount (num / den) - 1
  else -(digitCount ((den - 1) / num) : Int)

/-- Whether `candidate · 10 ^ place` reads back as the double. -/
def Rounding.accepts (r : Rounding) (place : Int) (candidate : Nat) : Bool :=
  let (c, s) := scale 10 place (candidate * r.unit) 1
  if r.closed then r.low * s ≤ c && c ≤ r.high * s
  else r.low * s < c && c < r.high * s

/-- Of the two neighbours of the double on the grid of multiples of `10 ^ place`, the one that reads
back as it; if both do, the nearer, and in a tie the even one. -/
def Rounding.onGrid? (r : Rounding) (place : Int) : Option Nat :=
  let (num, den) := scale 10 (-place) r.value r.unit
  let below := num / den
  match r.accepts place below, r.accepts place (below + 1) with
  | true, true => some (roundHalfEven num den)
  | true, false => some below
  | false, true => some (below + 1)
  | false, false => none

/-- Tries grids of ever more digits: `count` digits first, at most `more` further ones. -/
def Rounding.search (r : Rounding) (top : Int) : (more count : Nat) → Nat × Int
  | 0, count => (r.value / r.unit, top - count + 1)
  | more + 1, count =>
    match r.onGrid? (top - count + 1) with
    | some digits => (digits, top - count + 1)
    | none => r.search top more (count + 1)

/-- A positive double `mantissa · 2 ^ exponent` as `digits · 10 ^ place`, with the fewest digits.
Seventeen always suffice. -/
def shortest (mantissa : Nat) (exponent : Int) : Nat × Int :=
  let r := Rounding.of mantissa exponent
  r.search (decimalExponent r.value r.unit) 17 1

/-- Drops zeros at the end of a list of digits, but not its first digit. -/
def dropZeros : List Char → List Char
  | [] => []
  | d :: ds => d :: (ds.reverse.dropWhile (· == '0')).reverse

/-- A positive number below ten, given by its digits, times a power of ten, in the notation with an
exponent: at least two digits of exponent and always a sign. -/
def exponential (digits : List Char) (exponent : Int) : List Char :=
  let mantissa := match digits with
    | [] => []
    | [d] => [d]
    | d :: ds => d :: '.' :: ds
  let power := Nat.toDigits 10 exponent.natAbs
  let padded := if power.length < 2 then '0' :: power else power
  mantissa ++ 'e' :: (if exponent < 0 then '-' else '+') :: padded

/-- The same number in positional notation. A whole number keeps one zero after the point. -/
def positional (digits : List Char) (exponent : Int) : List Char :=
  if exponent < 0 then
    '0' :: '.' :: List.replicate (exponent.natAbs - 1) '0' ++ digits
  else
    let whole := exponent.toNat + 1
    let padded := digits ++ List.replicate (whole - digits.length) '0'
    let fraction := padded.drop whole
    padded.take whole ++ '.' :: (if fraction.isEmpty then ['0'] else fraction)

/-- The text of a double. Numbers from `10 ^ -4` up to `10 ^ 16` are written positionally. -/
def render (x : Float) : String :=
  match shape x with
  | .nan => "nan"
  | .infinite negative => if negative then "-inf" else "inf"
  | .finite negative mantissa exponent =>
    let body :=
      if mantissa == 0 then ['0', '.', '0']
      else
        let (digits, place) := shortest mantissa exponent
        let ds := Nat.toDigits 10 digits
        let top := place + ds.length - 1
        if -4 ≤ top && top < 16 then positional (dropZeros ds) top
        else exponential (dropZeros ds) top
    String.ofList (if negative then '-' :: body else body)

end ConditionalStyle.Decimal
