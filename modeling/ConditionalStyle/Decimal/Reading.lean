import ConditionalStyle.Decimal.Nearest
import ConditionalStyle.Text.Blank
import ConditionalStyle.Text.Digit

/-!
# Reading numbers

Numbers in settings and assignments are read leniently: blanks around them, a sign, digits of any
script, and single underscores between digits.

## Main definitions

* `readInt?`: integers.
* `readFloat?`: decimals with or without an exponent, infinities and not-a-number.
-/

namespace ConditionalStyle.Decimal

open Text

/-- The blanks that may stand around a number: all but the four ASCII separators. -/
def isMargin (c : Char) : Bool :=
  isBlank c && !(0x1c ≤ c.toNat && c.toNat ≤ 0x1f)

/-- Takes a sign off the start of a text; no sign counts as plus. -/
def splitSign : List Char → Bool × List Char
  | '-' :: rest => (true, rest)
  | '+' :: rest => (false, rest)
  | cs => (false, cs)

/-- Drops the underscores of a text, if each of them stands between two digits. The character
before the text is given. -/
def dropUnderscores (before : Char) : List Char → Option (List Char)
  | [] => if before == '_' then none else some []
  | c :: rest =>
    if c == '_' then
      if isDigit before then dropUnderscores c rest else none
    else if before == '_' && !isDigit c then none
    else (dropUnderscores c rest).map (c :: ·)

/-- An integer: a sign and digits, though not too many of them. -/
def readInt? (s : String) : Option Int := do
  let (negative, body) := splitSign (trim isMargin s.toList)
  let digits ← dropUnderscores ' ' body
  if digits.isEmpty || maxDigits < digits.length || !digits.all isDigit then none
  else
    let n : Int := digitsValue digits
    return if negative then -n else n

/-- Whether a text spells an ASCII word, given in lower case, in any case. -/
def spells (word : String) (cs : List Char) : Bool :=
  cs.map Char.toLower == word.toList

/-- An exponent after its `e`, or nothing at all. -/
def readExponent? : List Char → Option Int
  | [] => some 0
  | e :: rest =>
    let (negative, digits) := splitSign rest
    if (e == 'e' || e == 'E') && !digits.isEmpty && digits.all isDigit then
      let n : Int := digitsValue digits
      some (if negative then -n else n)
    else none

/-- A decimal without sign: digits, at most one point among them, and perhaps an exponent. Gives the
number formed by all digits and the power of ten that it is multiplied with. -/
def readScientific? (cs : List Char) : Option (Nat × Int) := do
  let whole := cs.takeWhile isDigit
  let (fraction, rest) := match cs.dropWhile isDigit with
    | '.' :: rest => (rest.takeWhile isDigit, rest.dropWhile isDigit)
    | rest => ([], rest)
  if whole.isEmpty && fraction.isEmpty then none
  else
    let exponent ← readExponent? rest
    return (digitsValue (whole ++ fraction), exponent - fraction.length)

/-- A decimal, an infinity or not-a-number. -/
def readFloat? (s : String) : Option Float := do
  let (negative, body) := splitSign (trim isMargin s.toList)
  if spells "inf" body || spells "infinity" body then return infinity negative
  else if spells "nan" body then return notANumber
  else
    let body ← dropUnderscores ' ' body
    let (digits, exponent) ← readScientific? body
    return ofScientific negative digits exponent

end ConditionalStyle.Decimal
