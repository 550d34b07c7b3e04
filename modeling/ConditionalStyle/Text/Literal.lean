import ConditionalStyle.Text.Display
import ConditionalStyle.Text.Utf16

/-!
# String literals

String literals of the expression language stand between double quotes. A backslash starts an
escape: one letter, or `u` with four hexadecimal digits that name a sixteen-bit unit.

## Main definitions

* `escape`, `quote`: the body and the whole of the literal that spells a text.
* `spellings`: the code points that a literal's body spells.
* `decode`: the text that a literal's body spells, where the body may hold halves of pairs.
* `unescape`: the same for a body that is a text.
-/

namespace ConditionalStyle.Text

/-- The letter that stands for a character after a backslash, where escaping uses one. -/
def escapeLetter? : Char → Option Char
  | '\\' => some '\\'
  | '"' => some '"'
  | '\x08' => some 'b'
  | '\t' => some 't'
  | '\n' => some 'n'
  | '\x0c' => some 'f'
  | '\r' => some 'r'
  | _ => none

/-- Controls and the two Unicode line separators are written by number. -/
def isNumbered (c : Char) : Bool :=
  c.toNat < 0x20 || c.toNat == 0x7f || c.toNat == 0x2028 || c.toNat == 0x2029

/-- One character of a literal's body. -/
def escapeChar (c : Char) : List Char :=
  match escapeLetter? c with
  | some letter => ['\\', letter]
  | none => if isNumbered c then '\\' :: 'u' :: hex 4 c.toNat else [c]

/-- The body of the literal that spells a text. -/
def escape (s : String) : String :=
  String.ofList (s.toList.flatMap escapeChar)

/-- The literal that spells a text. -/
def quote (s : String) : String :=
  "\"" ++ escape s ++ "\""

/-- The character that a letter stands for after a backslash. -/
def letterChar? : Char → Option Char
  | '\\' => some '\\'
  | '"' => some '"'
  | '\'' => some '\''
  | 'b' => some '\x08'
  | 't' => some '\t'
  | 'n' => some '\n'
  | 'f' => some '\x0c'
  | 'r' => some '\r'
  | '0' => some '\x00'
  | _ => none

/-- The value of a hexadecimal digit in either case. -/
def hexValue? (c : Char) : Option Nat :=
  if '0' ≤ c && c ≤ '9' then some (c.toNat - 0x30)
  else if 'a' ≤ c && c ≤ 'f' then some (c.toNat - 0x57)
  else if 'A' ≤ c && c ≤ 'F' then some (c.toNat - 0x37)
  else none

/-- The same for a code point. Half of a pair is no digit. -/
def CodePoint.hexValue? : CodePoint → Option Nat
  | .char c => Text.hexValue? c
  | .half _ => none

/-- The number that four hexadecimal digits at the start of a body spell, and the rest. -/
def hex4? : List CodePoint → Option (Nat × List CodePoint)
  | a :: b :: c :: d :: rest => do
    let a ← a.hexValue?
    let b ← b.hexValue?
    let c ← c.hexValue?
    let d ← d.hexValue?
    return (((a * 16 + b) * 16 + c) * 16 + d, rest)
  | _ => none

/-- What is wrong with a literal's body. Positions count its code points from zero. -/
inductive LiteralError where
  | danglingBackslash
  | invalidUnicode (position : Nat)
  | invalidEscape (letter : CodePoint) (position : Nat)
  | unpaired (surrogate : Unpaired)
deriving DecidableEq, Repr

/-- A code point in messages. Half of a pair, which no text can hold, is spelled by its number. -/
def CodePoint.shown : CodePoint → String
  | .char c => c.toString
  | .half i => String.ofList ('\\' :: 'u' :: hex 4 (0xd800 + i))

/-- The wording of an error. -/
def LiteralError.message : LiteralError → String
  | .danglingBackslash => "Dangling backslash in string literal"
  | .invalidUnicode p => s!"Invalid unicode escape at position {p}"
  | .invalidEscape c p => s!"Invalid escape sequence '\\{c.shown}' at position {p}"
  | .unpaired u => u.message

theorem length_of_hex4? {cs : List CodePoint} {n : Nat} {rest : List CodePoint}
    (h : hex4? cs = some (n, rest)) : cs.length = rest.length + 4 := by
  match cs with
  | a :: b :: c :: d :: tail =>
    simp only [hex4?, Option.bind_eq_bind, Option.bind_eq_some_iff, Option.pure_def,
      Option.some.injEq, Prod.mk.injEq] at h
    obtain ⟨_, _, _, _, _, _, _, _, _, rfl⟩ := h
    rfl
  | [] | [_] | [_, _] | [_, _, _] => simp [hex4?] at h

/-- The code points, surrogates among them, that a literal's body spells. The first code point of
the body has the given position. -/
def spellings (position : Nat) : List CodePoint → Except LiteralError (List Nat)
  | [] => .ok []
  | .char '\\' :: [] => .error .danglingBackslash
  | .char '\\' :: .half i :: _ => .error (.invalidEscape (.half i) position)
  | .char '\\' :: .char code :: rest =>
    match letterChar? code with
    | some c => do
      let ns ← spellings (position + 2) rest
      return c.toNat :: ns
    | none =>
      if code == 'u' then
        match h : hex4? rest with
        | some (n, rest') => do
          let ns ← spellings (position + 6) rest'
          return n :: ns
        | none => .error (.invalidUnicode position)
      else .error (.invalidEscape (.char code) position)
  | p :: rest => do
    let ns ← spellings (position + 1) rest
    return p.toNat :: ns
termination_by cs => cs.length
decreasing_by
  all_goals simp_wf
  all_goals try have := length_of_hex4? h
  all_goals omega

/-- The text that a literal's body spells. Faults of spelling are found before surrogates are
paired. -/
def decode (body : List CodePoint) : Except LiteralError String := do
  let ns ← spellings 0 body
  match pairUnits 0 (ns.flatMap unitsOf) with
  | .ok cs => return String.ofList cs
  | .error u => throw (.unpaired u)

/-- The text that a literal's body spells, if the body is a text. -/
def unescape (body : String) : Except LiteralError String :=
  decode (codePoints body)

end ConditionalStyle.Text
