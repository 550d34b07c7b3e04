import ConditionalStyle.Decimal.Length

/-!
# Double-precision numbers and the reals they stand for

A finite double is a mantissa times a power of two, and every non-negative rational has a nearest
double. Ties go to the even mantissa.

## Main definitions

* `Shape`, `shape`: a double taken apart.
* `nearestBits?`: the bits of the double nearest to a rational, unless it is too large.
* `ofInt?`, `ofScientific`: nearest doubles of integers and of decimals.
* `eqInt`: exact comparison of an integer with a double.
-/

namespace ConditionalStyle.Decimal

/-- A double taken apart: the finite ones are `± mantissa · 2 ^ exponent`. -/
inductive Shape where
  | nan
  | infinite (negative : Bool)
  | finite (negative : Bool) (mantissa : Nat) (exponent : Int)
deriving DecidableEq, Repr

/-- The exponent of the least positive double. -/
def leastExponent : Int := -1074

/-- Takes a double apart. A number of the lowest binade keeps its small mantissa. -/
def shape (x : Float) : Shape :=
  let bits := x.toBits.toNat
  let negative := bits / Nat.pow 2 63 == 1
  let exponent := bits / Nat.pow 2 52 % Nat.pow 2 11
  let fraction := bits % Nat.pow 2 52
  if exponent == 2047 then
    if fraction == 0 then .infinite negative else .nan
  else if exponent == 0 then .finite negative fraction leastExponent
  else .finite negative (fraction + Nat.pow 2 52) ((exponent : Int) - 1075)

/-- Multiplies the first number by `base ^ e`, or the second by `base ^ -e`, so that their quotient
is multiplied by `base ^ e`. -/
def scale (base : Nat) (e : Int) (num den : Nat) : Nat × Nat :=
  (num * Nat.pow base e.toNat, den * Nat.pow base (-e).toNat)

/-- The integer nearest to a quotient; a half goes to the even neighbour. -/
def roundHalfEven (num den : Nat) : Nat :=
  let q := num / den
  let r := num % den
  if 2 * r < den then q
  else if den < 2 * r then q + 1
  else if q % 2 == 0 then q else q + 1

/-- The greatest `e` with `2 ^ (e + 52) ≤ num / den`, for positive numbers. -/
def binadeExponent (num den : Nat) : Int :=
  let e : Int := (num.log2 : Int) - den.log2
  let (n, d) := scale 2 (-e) num den
  if d ≤ n then e - 52 else e - 53

/-- The bits of the double nearest to the quotient of two numbers, the second of them positive.
There are none if the quotient rounds to `2 ^ 1024` or more. -/
def nearestBits? (num den : Nat) : Option Nat :=
  if num == 0 then some 0
  else
    let e := max leastExponent (binadeExponent num den)
    let (n, d) := scale 2 (-e) num den
    let bits := (e - leastExponent).toNat * Nat.pow 2 52 + roundHalfEven n d
    if bits < 2047 * Nat.pow 2 52 then some bits else none

/-- The double with the given bits below the sign bit, and the given sign. -/
def ofMagnitude (negative : Bool) (bits : Nat) : Float :=
  Float.ofBits (UInt64.ofNat (if negative then bits + Nat.pow 2 63 else bits))

/-- Infinity with a sign. -/
def infinity (negative : Bool) : Float :=
  ofMagnitude negative (2047 * Nat.pow 2 52)

/-- The quiet not-a-number. -/
def notANumber : Float :=
  ofMagnitude false (2047 * Nat.pow 2 52 + Nat.pow 2 51)

/-- The double nearest to an integer, unless the integer is too large for one. -/
def ofInt? (n : Int) : Option Float :=
  (nearestBits? n.natAbs 1).map (ofMagnitude (n < 0))

/-- The double nearest to `± digits · 10 ^ exponent`. Numbers that are too large are infinite.
Exponents far outside the range of doubles are settled by the number of digits. -/
def ofScientific (negative : Bool) (digits : Nat) (exponent : Int) : Float :=
  let top := exponent + digitCount digits
  if digits == 0 || top < -330 then ofMagnitude negative 0
  else if 310 < top then infinity negative
  else
    let (n, d) := scale 10 exponent digits 1
    match nearestBits? n d with
    | some bits => ofMagnitude negative bits
    | none => infinity negative

/-- Whether an integer and a double are the same number. -/
def eqInt (n : Int) (x : Float) : Bool :=
  match shape x with
  | .finite negative mantissa exponent =>
    let (m, d) := scale 2 exponent mantissa 1
    (if negative then -(m : Int) else m) == n * d
  | _ => false

end ConditionalStyle.Decimal
