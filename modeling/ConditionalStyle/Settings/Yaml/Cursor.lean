/-!
# Places in a document

A document is read from left to right. Lines end at line feeds, at U+0085 and at the two Unicode
separators; the place of a character is its index, its line and its column.

## Main definitions

* `isSpace`, `isBreak`, `endsWord`, `isMarker`: what the next characters are.
* `Cursor`, `Cursor.advance`: what is left to read, and where.
-/

namespace ConditionalStyle.Settings.Yaml

/-- The blanks inside a line. -/
def isSpace (c : Char) : Bool :=
  c == ' ' || c == '\t'

/-- The characters that end a line. -/
def isBreak (c : Char) : Bool :=
  c == '\n' || c.toNat == 0x85 || c.toNat == 0x2028 || c.toNat == 0x2029

/-- What a line end counts as in a scalar. The two Unicode separators stand for themselves. -/
def lineBreak (c : Char) : Char :=
  if c.toNat == 0x85 then '\n' else c

/-- The characters that a document may hold. -/
def isAllowed (c : Char) : Bool :=
  let n := c.toNat
  n == 0x9 || n == 0xa || (0x20 ≤ n && n ≤ 0x7e) || n == 0x85 || (0xa0 ≤ n && n ≤ 0xfffd)
    || 0x10000 ≤ n

/-- Whether nothing, a blank or a line end comes next. -/
def endsWord : List Char → Bool
  | [] => true
  | c :: _ => isSpace c || isBreak c

/-- Whether a line that starts here is a marker of documents: three equal characters. -/
def isMarker (c : Char) (cs : List Char) : Bool :=
  cs.take 3 == [c, c, c] && endsWord (cs.drop 3)

/-- Whether a line that starts here separates documents. -/
def isSeparator (cs : List Char) : Bool :=
  isMarker '-' cs || isMarker '.' cs

/-- What is left of a document, and the place of its first character. -/
structure Cursor where
  rest : List Char
  index : Nat
  line : Nat
  column : Nat

namespace Cursor

/-- The start of a text. -/
def start (cs : List Char) : Cursor := ⟨cs, 0, 0, 0⟩

/-- The place after a character. A byte order mark takes no column. -/
def step (c : Cursor) (x : Char) : Cursor :=
  if isBreak x then ⟨c.rest.tail, c.index + 1, c.line + 1, 0⟩
  else ⟨c.rest.tail, c.index + 1, c.line, if x.toNat == 0xfeff then c.column else c.column + 1⟩

/-- The place after so many characters. -/
def advance (n : Nat) (c : Cursor) : Cursor :=
  (c.rest.take n).foldl step c

/-- The place where only the given end of the text is left. -/
def moveTo (rest : List Char) (c : Cursor) : Cursor :=
  c.advance (c.rest.length - rest.length)

end Cursor

end ConditionalStyle.Settings.Yaml
