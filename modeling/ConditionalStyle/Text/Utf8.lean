import ConditionalStyle.Text.Display

/-!
# Eight-bit code units

A source file is a sequence of bytes that spells a text in UTF-8. Bytes that spell none are
reported with the place of the first bad sequence and the reason it is bad.

## Main definitions

* `decodeUtf8`: the text that bytes spell.
* `unifyNewlines`: the three line ends of source files as one.
-/

namespace ConditionalStyle.Text

/-- Why bytes are no text. -/
inductive ByteCause where
  /-- No sequence starts with this byte. -/
  | start
  /-- A sequence goes on with a byte that cannot stand there. -/
  | continuation
  /-- The bytes end inside a sequence. -/
  | unfinished
deriving DecidableEq, Repr

/-- The wording of a cause. -/
def ByteCause.message : ByteCause → String
  | .start => "invalid start byte"
  | .continuation => "invalid continuation byte"
  | .unfinished => "unexpected end of data"

/-- A bad sequence: its first byte, the position of that byte, and how many bytes it has. -/
structure ByteFault where
  cause : ByteCause
  byte : Nat
  position : Nat
  size : Nat
deriving DecidableEq, Repr

/-- A sequence of one byte is shown by that byte, a longer one by the positions of its ends. -/
def ByteFault.message (f : ByteFault) : String :=
  let place :=
    if f.size ≤ 1 then s!"byte 0x{String.ofList (hex 2 f.byte)} in position {f.position}"
    else s!"bytes in position {f.position}-{f.position + f.size - 1}"
  s!"'utf-8' codec can't decode {place}: " ++ f.cause.message

/-- Whether a byte goes on with a sequence. -/
def isContinuation (b : Nat) : Bool :=
  0x80 ≤ b && b < 0xc0

/-- How many bytes follow the first byte of a sequence, and the least and the greatest byte that
may come second. -/
def sequenceOf? (b : Nat) : Option (Nat × Nat × Nat) :=
  if b < 0x80 then some (0, 0, 0)
  else if b < 0xc2 then none
  else if b < 0xe0 then some (1, 0x80, 0xbf)
  else if b == 0xe0 then some (2, 0xa0, 0xbf)
  else if b == 0xed then some (2, 0x80, 0x9f)
  else if b < 0xf0 then some (2, 0x80, 0xbf)
  else if b == 0xf0 then some (3, 0x90, 0xbf)
  else if b < 0xf4 then some (3, 0x80, 0xbf)
  else if b == 0xf4 then some (3, 0x80, 0x8f)
  else none

/-- The bits of the first byte that belong to the code point. -/
def leadBits (b following : Nat) : Nat :=
  match following with
  | 0 => b
  | 1 => b % 0x20
  | 2 => b % 0x10
  | _ => b % 0x08

/-- Reads the bytes of a sequence after its first, of which `seen` have been read. The least and the
greatest byte that may come next are given; later ones are any continuation. Returns the code
point and the rest, or the cause and the number of bytes that belong to the bad sequence. -/
def continueSequence (code seen : Nat) : (following lo hi : Nat) → List Nat →
    Except (ByteCause × Nat) (Nat × List Nat)
  | 0, _, _, rest => .ok (code, rest)
  | _ + 1, _, _, [] => .error (.unfinished, seen)
  | n + 1, lo, hi, b :: rest =>
    if lo ≤ b && b ≤ hi then continueSequence (code * 0x40 + b % 0x40) (seen + 1) n 0x80 0xbf rest
    else .error (.continuation, seen)

theorem length_of_continueSequence {code seen following lo hi : Nat} {bs : List Nat} {n : Nat}
    {rest : List Nat} (h : continueSequence code seen following lo hi bs = .ok (n, rest)) :
    rest.length ≤ bs.length := by
  induction following generalizing code seen lo hi bs with
  | zero => simp [continueSequence] at h; simp [h]
  | succ k ih =>
    match bs with
    | [] => simp [continueSequence] at h
    | b :: bs =>
      simp only [continueSequence] at h
      split at h
      · have := ih h
        simp only [List.length_cons]
        omega
      · simp at h

/-- The characters that bytes spell, the first byte having the given position. -/
def decodeBytes (position : Nat) : List Nat → Except ByteFault (List Char)
  | [] => .ok []
  | b :: rest =>
    match sequenceOf? b with
    | none => .error ⟨.start, b, position, 1⟩
    | some (following, lo, hi) =>
      match h : continueSequence (leadBits b following) 1 following lo hi rest with
      | .error (cause, size) => .error ⟨cause, b, position, size⟩
      | .ok (code, rest') => do
        let cs ← decodeBytes (position + following + 1) rest'
        return Char.ofNat code :: cs
termination_by bs => bs.length
decreasing_by
  have := length_of_continueSequence h
  simp only [List.length_cons]
  omega

/-- The text that bytes spell. -/
def decodeUtf8 (bytes : List UInt8) : Except ByteFault String := do
  let cs ← decodeBytes 0 (bytes.map UInt8.toNat)
  return String.ofList cs

/-- A carriage return, with or without a line feed after it, is a line feed. -/
def unifyNewlineChars : List Char → List Char
  | [] => []
  | '\r' :: '\n' :: rest => '\n' :: unifyNewlineChars rest
  | c :: rest => (if c == '\r' then '\n' else c) :: unifyNewlineChars rest

/-- A text with the three line ends of source files made one. -/
def unifyNewlines (s : String) : String :=
  String.ofList (unifyNewlineChars s.toList)

end ConditionalStyle.Text
