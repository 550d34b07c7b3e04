import ConditionalStyle.Settings.Yaml.Cursor
import ConditionalStyle.Settings.Yaml.Fault
import ConditionalStyle.Text.Literal
import ConditionalStyle.Text.Scan

/-!
# Scalars in a document

A scalar is plain or stands between quotes. Both may go on over several lines: one line end with the
blanks around it counts as a space, and of several all but the first count. A line that separates
documents cannot be part of a scalar.

Scalars in quotes are given by code points, since their escapes can name surrogates.

## Main definitions

* `Scalar`: a scalar by its spelling.
* `quoted`: a scalar after its opening quote.
* `plain`: a plain scalar.
-/

namespace ConditionalStyle.Settings.Yaml

open Text

/-- A scalar by its spelling. -/
inductive Scalar where
  | plain (text : List Char)
  | quoted (codes : List Nat)
deriving DecidableEq, Repr

/-- What is left of a text after a part of it, which may be empty. -/
abbrev Rest (cs : List Char) := { rest : List Char // rest.length ≤ cs.length }

/-- What line ends in a row stand for: the first one and those after it. -/
def foldBreaks (first : Char) (others : List Char) : List Char :=
  if first != '\n' then first :: others
  else if others.isEmpty then [' ']
  else others

/-! ### Quotes -/

/-- The line ends at the start of a line inside quotes, with the blanks around them. -/
def quotedBreaks (cs : List Char) : Except Fault (List Char × Rest cs) :=
  if isSeparator cs then .error .malformed
  else
    match h : cs.dropWhile isSpace with
    | [] => .ok ([], ⟨[], Nat.zero_le _⟩)
    | c :: rest =>
      have hr : rest.length < cs.length := by
        have := (List.dropWhile_sublist isSpace (l := cs)).length_le
        rw [h, List.length_cons] at this
        omega
      if isBreak c then
        match quotedBreaks rest with
        | .error e => .error e
        | .ok (breaks, ⟨r, h₁⟩) => .ok (lineBreak c :: breaks, ⟨r, by omega⟩)
      else .ok ([], ⟨c :: rest, hr⟩)
termination_by cs.length

/-- What a line end inside quotes stands for, together with the line ends after it. -/
def quotedLineEnd (c : Char) (cs : List Char) : Except Fault (List Char × Rest cs) :=
  match quotedBreaks cs with
  | .error e => .error e
  | .ok (breaks, r) => .ok (foldBreaks (lineBreak c) breaks, r)

/-- What blanks inside quotes stand for: themselves, unless the line ends after them. -/
def quotedGap (c : Char) (cs : List Char) : Except Fault (List Char × Rest cs) :=
  if isBreak c then quotedLineEnd c cs
  else
    match h : cs.dropWhile isSpace with
    | [] => .error .malformed
    | d :: rest =>
      have hr : rest.length < cs.length := by
        have := (List.dropWhile_sublist isSpace (l := cs)).length_le
        rw [h, List.length_cons] at this
        omega
      if isBreak d then
        match quotedLineEnd d rest with
        | .error e => .error e
        | .ok (gap, ⟨r, h₁⟩) => .ok (gap, ⟨r, by omega⟩)
      else .ok (c :: cs.takeWhile isSpace, ⟨d :: rest, hr⟩)

/-- What a letter after a backslash stands for. -/
def escapeLetter? (c : Char) : Option Nat :=
  [('0', 0x0), ('a', 0x7), ('b', 0x8), ('t', 0x9), ('\t', 0x9), ('n', 0xa), ('v', 0xb), ('f', 0xc),
    ('r', 0xd), ('e', 0x1b), (' ', 0x20), ('"', 0x22), ('/', 0x2f), ('\\', 0x5c), ('N', 0x85),
    ('_', 0xa0), ('L', 0x2028), ('P', 0x2029)].lookup c

/-- How many hexadecimal digits follow a letter after a backslash. -/
def escapeWidth? (c : Char) : Option Nat :=
  [('x', 2), ('u', 4), ('U', 8)].lookup c

/-- The number that hexadecimal digits spell. -/
def hexNumber? (cs : List Char) : Option Nat :=
  cs.foldlM (fun n c => (hexValue? c).map (16 * n + ·)) 0

/-- The code point of a number, surrogates included. -/
def codePoint (n : Nat) : Except Fault Nat :=
  if n < 0x110000 then .ok n
  else if n < 0x80000000 then .error .noCharacter
  else .error .hugeCharacter

/-- What follows a backslash, and the code points that both stand for. A line end after a backslash
counts for nothing. -/
def escaped (cs : List Char) : Except Fault (List Nat × Rest cs) :=
  match cs with
  | [] => .error .malformed
  | c :: rest =>
    match escapeLetter? c, escapeWidth? c with
    | some n, _ => .ok ([n], ⟨rest, Nat.le_succ _⟩)
    | none, some width =>
      match hexNumber? (rest.take width) with
      | some n =>
        if (rest.take width).length < width then .error .malformed
        else
          match codePoint n with
          | .error e => .error e
          | .ok n => .ok ([n], ⟨rest.drop width, by
              simp only [List.length_drop, List.length_cons]; omega⟩)
      | none => .error .malformed
    | none, none =>
      if isBreak c then
        match quotedBreaks rest with
        | .error e => .error e
        | .ok (breaks, ⟨r, h⟩) => .ok (breaks.map Char.toNat, ⟨r, Nat.le_succ_of_le h⟩)
      else .error .malformed

/-- A scalar after its opening quote, up to and with the closing one. In single quotes a quote is
written twice and nothing is escaped. -/
def quoted (double : Bool) (cs : List Char) : Except Fault (List Nat × Rest cs) :=
  match cs with
  | [] => .error .malformed
  | c :: rest =>
    if c == '"' && double then .ok ([], ⟨rest, Nat.le_succ _⟩)
    else if c == '\'' && !double then
      match rest with
      | '\'' :: rest =>
        match quoted double rest with
        | .error e => .error e
        | .ok (codes, ⟨r, h⟩) =>
          .ok (c.toNat :: codes, ⟨r, Nat.le_succ_of_le (Nat.le_succ_of_le h)⟩)
      | rest => .ok ([], ⟨rest, Nat.le_succ _⟩)
    else if c == '\\' && double then
      match escaped rest with
      | .error e => .error e
      | .ok (codes, ⟨r, h⟩) =>
        match quoted double r with
        | .error e => .error e
        | .ok (more, ⟨r₁, h₁⟩) =>
          .ok (codes ++ more, ⟨r₁, Nat.le_succ_of_le (Nat.le_trans h₁ h)⟩)
    else if isSpace c || isBreak c then
      match quotedGap c rest with
      | .error e => .error e
      | .ok (gap, ⟨r, h⟩) =>
        match quoted double r with
        | .error e => .error e
        | .ok (more, ⟨r₁, h₁⟩) =>
          .ok (gap.map Char.toNat ++ more, ⟨r₁, Nat.le_succ_of_le (Nat.le_trans h₁ h)⟩)
    else
      match quoted double rest with
      | .error e => .error e
      | .ok (codes, ⟨r, h⟩) => .ok (c.toNat :: codes, ⟨r, Nat.le_succ_of_le h⟩)
termination_by cs.length

/-! ### Plain scalars -/

/-- The characters that structure flow collections. -/
def isFlowMark (c : Char) : Bool :=
  [',', '[', ']', '{', '}'].contains c

/-- How many characters a plain scalar has before the next blank. A colon ends it if nothing or a
blank follows, and a mark of a flow collection ends it inside one. -/
def plainLength (flow : Bool) : List Char → Nat
  | [] => 0
  | c :: rest =>
    if isSpace c || isBreak c || (c == ':' && endsWord rest) || (flow && isFlowMark c) then 0
    else plainLength flow rest + 1

/-- What stands between two parts of a plain scalar. -/
structure PlainGap (cs : List Char) where
  /-- What it counts as in the scalar; nothing, if the scalar ends before it. -/
  text : List Char
  rest : Rest cs
  /-- Whether a line ends in it. -/
  broken : Bool
  /-- The column after it, if a line ends in it. -/
  column : Nat

/-- The line ends at the start of a line inside a plain scalar, with the spaces around them: those
line ends, what is left, the column there, and whether a separator of documents came up. -/
def plainBreaks (cs : List Char) : List Char × Rest cs × Nat × Bool :=
  if isSeparator cs then ([], ⟨cs, Nat.le_refl _⟩, 0, true)
  else
    match h : cs.dropWhile (· == ' ') with
    | [] => ([], ⟨[], Nat.zero_le _⟩, cs.length, false)
    | c :: rest =>
      have hr : rest.length < cs.length := by
        have := (List.dropWhile_sublist (· == ' ') (l := cs)).length_le
        rw [h, List.length_cons] at this
        omega
      if isBreak c then
        match plainBreaks rest with
        | (breaks, ⟨r, h₁⟩, column, separated) =>
          (lineBreak c :: breaks, ⟨r, by omega⟩, column, separated)
      else ([], ⟨c :: rest, hr⟩, runLength (· == ' ') cs, false)
termination_by cs.length

/-- What follows a part of a plain scalar. Tabs are no part of it. -/
def plainGap (cs : List Char) : PlainGap cs :=
  let spaces := cs.takeWhile (· == ' ')
  match h : cs.dropWhile (· == ' ') with
  | [] => ⟨spaces, ⟨[], Nat.zero_le _⟩, false, 0⟩
  | c :: rest =>
    have hr : rest.length < cs.length := by
      have := (List.dropWhile_sublist (· == ' ') (l := cs)).length_le
      rw [h, List.length_cons] at this
      omega
    if isBreak c then
      match plainBreaks rest with
      | (breaks, ⟨r, h₁⟩, column, separated) =>
        ⟨if separated then [] else foldBreaks (lineBreak c) breaks, ⟨r, by omega⟩, true, column⟩
    else ⟨spaces, ⟨c :: rest, hr⟩, false, 0⟩

/-- A plain scalar, or its further parts, whose lines after the first must reach the column `indent`
outside of flow collections: its text, what is left after it and the gap that follows, and whether
a line ends in that gap; `broken` says so for the gap before. A comment ends it. -/
def plain (flow : Bool) (indent : Int) (broken : Bool) (cs : List Char) :
    List Char × Rest cs × Bool :=
  if cs.head? == some '#' then ([], ⟨cs, Nat.le_refl _⟩, broken)
  else if hn : plainLength flow cs = 0 then ([], ⟨cs, Nat.le_refl _⟩, broken)
  else
    let n := plainLength flow cs
    let gap := plainGap (cs.drop n)
    have hg : gap.rest.val.length ≤ cs.length - n := by
      simpa only [List.length_drop] using gap.rest.property
    have hd : gap.rest.val.length < cs.length := by
      have : 0 < cs.length := by
        cases cs with
        | nil => simp [plainLength] at hn
        | cons => simp
      omega
    if gap.text.isEmpty || (!flow && gap.broken && gap.column < indent) then
      (cs.take n, ⟨gap.rest.val, Nat.le_of_lt hd⟩, gap.broken)
    else
      match plain flow indent gap.broken gap.rest.val with
      | (more, ⟨r, h₁⟩, broken) =>
        let text := if more.isEmpty then cs.take n else cs.take n ++ gap.text ++ more
        (text, ⟨r, by omega⟩, broken)
termination_by cs.length

end ConditionalStyle.Settings.Yaml
