/-!
# Lengths of lexemes

A lexeme at the start of a text is given by the number of its characters. The two kinds of lexeme
that both languages share are runs of one class and quoted strings.

## Main definitions

* `runLength`: the length of the longest run of a class.
* `quotedLength?`: the length of a string up to its closing quote.
-/

namespace ConditionalStyle.Text

/-- How many characters of a class a text starts with. -/
def runLength (p : Char → Bool) (cs : List Char) : Nat :=
  (cs.takeWhile p).length

/-- The length of what follows an opening quote up to and with the closing one. A backslash takes
the next character with it. A line feed ends the search, but after a backslash it is taken if
`continued`. -/
def quotedRest? (mark : Char) (continued : Bool) : List Char → Option Nat
  | [] => none
  | [c] => if c == mark then some 1 else none
  | c :: d :: rest =>
    if c == mark then some 1
    else if c == '\\' then
      if d == '\n' && !continued then none
      else (quotedRest? mark continued rest).map (· + 2)
    else if c == '\n' then none
    else (quotedRest? mark continued (d :: rest)).map (· + 1)

/-- The length of the string that a text starts with, both quotes included. -/
def quotedLength? (mark : Char) (continued : Bool) : List Char → Option Nat
  | [] => none
  | c :: rest => if c == mark then (quotedRest? mark continued rest).map (· + 1) else none

theorem pos_of_quotedLength? {mark : Char} {continued : Bool} {cs : List Char} {n : Nat}
    (h : quotedLength? mark continued cs = some n) : 0 < n := by
  match cs with
  | [] => simp [quotedLength?] at h
  | c :: rest =>
    simp only [quotedLength?] at h
    split at h
    · obtain ⟨m, _, rfl⟩ := Option.map_eq_some_iff.1 h
      exact Nat.succ_pos m
    · simp at h

end ConditionalStyle.Text
