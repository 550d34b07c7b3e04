/-!
# How long an integer may be

The decimal texts of integers are read and written up to a certain length only.

## Main definitions

* `maxDigits`: the limit.
* `isWritable`: whether an integer is within it.
* `tooLongMessage`: the wording of the error beyond it.
-/

namespace ConditionalStyle.Decimal

/-- The most digits that the decimal text of an integer may have. -/
def maxDigits : Nat := 4300

/-- The number of decimal digits of a number; zero has one. -/
def digitCount (n : Nat) : Nat :=
  (Nat.toDigits 10 n).length

/-- Whether an integer has a decimal text. -/
def isWritable (n : Int) : Bool :=
  digitCount n.natAbs ≤ maxDigits

/-- The wording of the error for an integer that is too long. Where a text is read, the number of its
digits is known. -/
def tooLongMessage (limit : Nat) (digits? : Option Nat) : String :=
  let found := match digits? with
    | some digits => s!": value has {digits} digits"
    | none => ""
  s!"Exceeds the limit ({limit} digits) for integer string conversion" ++ found ++
    "; use sys.set_int_max_str_digits() to increase the limit"

end ConditionalStyle.Decimal
