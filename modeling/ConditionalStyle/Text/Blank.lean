import ConditionalStyle.Text.CodePoint

/-!
# Blank characters

A blank is a character of white space: the ASCII blanks, the four ASCII separators, and the spaces
and line separators of Unicode. The zero-width characters and the byte-order mark are no blanks.

## Main definitions

* `blankRanges`, `isBlank`: the class.
* `strip`: a text without the blanks at both of its ends.
-/

namespace ConditionalStyle.Text

/-- All blanks. -/
def blankRanges : List (Nat × Nat) := [
    (0x9, 0xd), (0x1c, 0x20), (0x85, 0x85), (0xa0, 0xa0), (0x1680, 0x1680), (0x2000, 0x200a),
    (0x2028, 0x2029), (0x202f, 0x202f), (0x205f, 0x205f), (0x3000, 0x3000)]

/-- Characters of white space. -/
def isBlank (c : Char) : Bool :=
  inRanges blankRanges c

/-- Drops the characters of a class from both ends of a list. -/
def trim (p : Char → Bool) (cs : List Char) : List Char :=
  ((cs.dropWhile p).reverse.dropWhile p).reverse

/-- Drops the blanks at both ends of a text. -/
def strip (s : String) : String :=
  String.ofList (trim isBlank s.toList)

/-- Drops the blanks at the end of a text. -/
def stripEnd (s : String) : String :=
  String.ofList (s.toList.reverse.dropWhile isBlank).reverse

end ConditionalStyle.Text
