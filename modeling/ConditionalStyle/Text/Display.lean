import ConditionalStyle.Text.Printable

/-!
# Displayed text

Messages show a text between quotes, with the characters that would not be seen spelled out.

## Main definitions

* `hexDigit`, `hex`: hexadecimal numbers of a fixed width.
* `display`: the quoted form of a text.
-/

namespace ConditionalStyle.Text

/-- The lower-case hexadecimal digit of a number below sixteen. -/
def hexDigit (n : Nat) : Char :=
  if n < 10 then Char.ofNat (0x30 + n) else Char.ofNat (0x57 + n)

/-- The last `width` hexadecimal digits of a number. -/
def hex : (width : Nat) → Nat → List Char
  | 0, _ => []
  | width + 1, n => hex width (n / 16) ++ [hexDigit (n % 16)]

/-- One character of a text shown between two marks `mark`. The backslash, the mark and the common
controls have short spellings; other characters that are not printable are spelled by their
number, with as few digits of two, four and eight as hold it. -/
def displayChar (mark c : Char) : List Char :=
  if c == '\\' || c == mark then ['\\', c]
  else if c == '\n' then ['\\', 'n']
  else if c == '\r' then ['\\', 'r']
  else if c == '\t' then ['\\', 't']
  else if isPrintable c then [c]
  else if c.toNat < 0x100 then '\\' :: 'x' :: hex 2 c.toNat
  else if c.toNat < 0x10000 then '\\' :: 'u' :: hex 4 c.toNat
  else '\\' :: 'U' :: hex 8 c.toNat

/-- The mark around a displayed text: an apostrophe, unless the text has apostrophes and no
double quote. -/
def displayMark (cs : List Char) : Char :=
  if cs.contains '\'' && !cs.contains '"' then '"' else '\''

/-- A text between quotes, with what would not be seen spelled out. -/
def display (s : String) : String :=
  let mark := displayMark s.toList
  String.ofList (mark :: s.toList.flatMap (displayChar mark) ++ [mark])

end ConditionalStyle.Text
