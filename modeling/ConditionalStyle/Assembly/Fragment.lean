/-!
# Fragments of an expression

A compiled expression is put together from fragments: parentheses, operators, string literals and
text taken over as it is. An empty literal that is only a term of a sum is dead: it can be dropped
with one of its neighbours. Such literals are dropped while fragments are appended, by looking at
the last two that were kept.

Lists of fragments in this module are in the order *newest first*.

## Main definitions

* `Part`, `Fragment`.
* `keep`: appends a fragment to those kept, dropping a dead literal.
* `prune`: the fragments kept of those that were appended.
* `joinText?`: the text of fragments.
-/

namespace ConditionalStyle.Assembly

/-- The kinds of fragments. -/
inductive Part where
  /-- The parenthesis that opens the whole or a branch. -/
  | opening
  /-- The parenthesis that closes the whole or a branch. -/
  | closing
  /-- Between a condition and the body of its branch. -/
  | question
  /-- Between a branch and its alternative. -/
  | colon
  /-- The sum of two groups. -/
  | groupBreak
  /-- The sum of two terms of a group. -/
  | plus
  /-- A string literal. -/
  | literal
  /-- The literal of the empty string. -/
  | empty
  /-- A text taken over as it is. -/
  | raw
deriving DecidableEq, Repr

namespace Part

/-- The text that a part always has. The last three parts have texts of their own; theirs here are
names. -/
def text : Part → String
  | .opening => "("
  | .closing => ")"
  | .question => ") ? ("
  | .colon => " : "
  | .groupBreak => ") + ("
  | .plus => " + "
  | .literal => "literal"
  | .empty => "empty"
  | .raw => "raw"

/-- Whether a part separates two terms. -/
def isSeparator : Part → Bool
  | .groupBreak | .plus => true
  | _ => false

/-- Whether terms start after a part. -/
def isOpener : Part → Bool
  | .opening | .question => true
  | _ => false

end Part

/-- A part with its text. A condition that was never given leaves a fragment without text. -/
structure Fragment where
  part : Part
  text : Option String
deriving DecidableEq, Repr

namespace Fragment

/-- The fragment of a part with the text that the part always has. -/
def fixed (p : Part) : Fragment := ⟨p, some p.text⟩

/-- The literal of the empty string. -/
def emptyLiteral : String := "\"\""

/-- The fragment of a literal. -/
def literal (quoted : String) : Fragment :=
  ⟨if quoted == emptyLiteral then .empty else .literal, some quoted⟩

/-- A text taken over as it is. -/
def raw (text : Option String) : Fragment := ⟨.raw, text⟩

end Fragment

/-- Appends a fragment to those kept. If the last one kept is an empty literal that is not the first,
it may be dead:

* between two separators it goes with one of them, and a group break stays rather than a plus;
* between a separator and a closing parenthesis it goes with the separator;
* between an opening parenthesis and a separator it goes with the separator. -/
def keep (f : Fragment) : List Fragment → List Fragment
  | last :: previous :: older =>
    if last.part == .empty then
      if previous.part.isSeparator && f.part.isSeparator then
        if previous.part == .plus && f.part == .groupBreak then f :: older else previous :: older
      else if previous.part.isSeparator && f.part == .closing then f :: older
      else if previous.part.isOpener && f.part.isSeparator then previous :: older
      else f :: last :: previous :: older
    else f :: last :: previous :: older
  | kept => f :: kept

/-- The fragments kept of those that were appended. -/
def prune : List Fragment → List Fragment
  | [] => []
  | f :: earlier => keep f (prune earlier)

/-- The number of fragments of a part. -/
def count (p : Part) (fs : List Fragment) : Nat :=
  fs.countP (·.part == p)

/-- The text of fragments, given newest first. There is none if one of them has no text. -/
def joinText? (fs : List Fragment) : Option String :=
  (fs.reverse.mapM Fragment.text).map String.join

end ConditionalStyle.Assembly
