/-!
# Sixteen-bit code units

A code point from U+10000 on is a pair of surrogates, a high one and a low one. A sequence of
units spells a text when all its surrogates come in such pairs.

## Main definitions

* `CodePoint`: a character, or half of a pair by itself.
* `unitsOf`: the units of a code point.
* `pairUnits`: the text that units spell, or the first surrogate that has no partner.
-/

namespace ConditionalStyle.Text

/-- A code point: a character, or half of a pair that stands by itself. -/
inductive CodePoint where
  | char (c : Char)
  | half (index : Fin 0x800)
deriving DecidableEq, Repr

/-- The number of a code point. -/
def CodePoint.toNat : CodePoint → Nat
  | .char c => c.toNat
  | .half i => 0xd800 + i

/-- The code points of a text, all of them characters. -/
def codePoints (s : String) : List CodePoint :=
  s.toList.map .char

/-- The first half of a pair. -/
def isHighSurrogate (u : Nat) : Bool :=
  0xd800 ≤ u && u < 0xdc00

/-- The second half of a pair. -/
def isLowSurrogate (u : Nat) : Bool :=
  0xdc00 ≤ u && u < 0xe000

/-- The units of a code point. A surrogate is a unit by itself. -/
def unitsOf (n : Nat) : List Nat :=
  if n < 0x10000 then [n]
  else [0xd800 + (n - 0x10000) / 0x400, 0xdc00 + (n - 0x10000) % 0x400]

/-- Why a surrogate has no partner. -/
inductive UnpairedCause where
  /-- A low surrogate with no high one before it. -/
  | low
  /-- A high surrogate followed by something else than a low one. -/
  | high
  /-- A high surrogate at the end. -/
  | last
deriving DecidableEq, Repr

/-- The wording of a cause. -/
def UnpairedCause.message : UnpairedCause → String
  | .low => "illegal encoding"
  | .high => "illegal UTF-16 surrogate"
  | .last => "unexpected end of data"

/-- A surrogate without a partner, and its index among the units. -/
structure Unpaired where
  cause : UnpairedCause
  index : Nat
deriving DecidableEq, Repr

/-- The wording counts bytes, two for each unit and two for the mark that precedes them. -/
def Unpaired.message (u : Unpaired) : String :=
  let start := 2 + 2 * u.index
  s!"'utf-16-le' codec can't decode bytes in position {start}-{start + 1}: " ++ u.cause.message

/-- The characters that units spell, the first unit having the given index. -/
def pairUnits : (index : Nat) → List Nat → Except Unpaired (List Char)
  | _, [] => .ok []
  | i, [u] =>
    if isHighSurrogate u then .error ⟨.last, i⟩
    else if isLowSurrogate u then .error ⟨.low, i⟩
    else .ok [Char.ofNat u]
  | i, u :: v :: rest =>
    if isHighSurrogate u then
      if isLowSurrogate v then do
        let cs ← pairUnits (i + 2) rest
        return Char.ofNat (0x10000 + (u - 0xd800) * 0x400 + (v - 0xdc00)) :: cs
      else .error ⟨.high, i⟩
    else if isLowSurrogate u then .error ⟨.low, i⟩
    else do
      let cs ← pairUnits (i + 1) (v :: rest)
      return Char.ofNat u :: cs

end ConditionalStyle.Text
