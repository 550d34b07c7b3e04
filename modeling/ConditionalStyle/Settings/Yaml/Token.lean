import ConditionalStyle.Settings.Yaml.Scalar

/-!
# Tokens of a document

A document is cut into scalars, marks and the bounds of block collections, which its indentation
gives. Whether a node is a key shows only when a colon follows it. Until then it is pending; a colon
splices the mark of the key in before it.

The tokens of a document that cannot be cut up end with its fault. So a fault of form that comes
earlier in the document is found first.

## Main definitions

* `Token`.
* `Pending`: a node that may turn out to be a key.
* `Scanner`: the state of a scan.
* `scan`: the tokens of a document.
-/

namespace ConditionalStyle.Settings.Yaml

open Text

/-- The tokens. -/
inductive Token where
  | documentStart
  | documentEnd
  | blockSequence
  | blockMapping
  | blockEnd
  | flowSequence
  | flowSequenceEnd
  | flowMapping
  | flowMappingEnd
  | blockEntry
  | flowEntry
  | key
  | value
  | scalar (scalar : Scalar)
  | failed (fault : Fault)
deriving DecidableEq, Repr

/-- A node that may turn out to be a key: the level of flow collections it is in, the number of
tokens before it, whether it has to be a key, and its place. -/
structure Pending where
  level : Nat
  number : Nat
  required : Bool
  index : Nat
  line : Nat
  column : Nat

/-- The state of a scan. -/
structure Scanner where
  cursor : Cursor
  /-- For each open flow collection, the innermost first, whether it is a sequence. -/
  flow : List Bool
  /-- The column of the innermost block collection. -/
  indent : Int
  /-- The columns of the block collections around it. -/
  outer : List Int
  /-- Whether a key may start here. -/
  keyAllowed : Bool
  pending : List Pending
  /-- The tokens so far, newest first. -/
  tokens : List Token

namespace Scanner

/-- The start of a scan. -/
def start (cs : List Char) : Scanner := ⟨.start cs, [], -1, [], true, [], []⟩

/-- The number of open flow collections. -/
def level (s : Scanner) : Nat := s.flow.length

/-- Whether a flow collection is open. -/
def inFlow (s : Scanner) : Bool := !s.flow.isEmpty

/-- Adds a token. -/
def push (t : Token) (s : Scanner) : Scanner :=
  { s with tokens := t :: s.tokens }

/-- Takes so many characters as a token. -/
def take (n : Nat) (t : Token) (s : Scanner) : Scanner :=
  { s.push t with cursor := s.cursor.advance n }

/-! ### Pending keys -/

/-- The longest text that a key in one line may have. -/
def keyLimit : Nat := 1024

/-- Whether a pending node can still be a key: in the same line, and not too far back. -/
def isFresh (s : Scanner) (p : Pending) : Bool :=
  p.line == s.cursor.line && s.cursor.index - p.index ≤ keyLimit

/-- Gives up pending nodes, none of which may be required to be a key. -/
def giveUp (which : Pending → Bool) (s : Scanner) : Except Fault Scanner :=
  if s.pending.any fun p => which p && p.required then .error .malformed
  else .ok { s with pending := s.pending.filter (!which ·) }

/-- Gives up the pending node of the current level. -/
def giveUpCurrent (s : Scanner) : Except Fault Scanner :=
  s.giveUp (·.level == s.level)

/-- Notes that the next token may be a key, if one may start here. In the column of a block
collection it has to be one. -/
def mayBeKey (s : Scanner) : Except Fault Scanner := do
  if s.keyAllowed then
    let s ← s.giveUpCurrent
    let required := !s.inFlow && s.indent == s.cursor.column
    let p := ⟨s.level, s.tokens.length, required, s.cursor.index, s.cursor.line, s.cursor.column⟩
    return { s with pending := p :: s.pending }
  else return s

/-! ### Indentation -/

/-- Closes the block collections whose column lies to the right of the given one. -/
def closeBlocks (column indent : Int) (outer : List Int) (tokens : List Token) :
    Int × List Int × List Token :=
  match outer with
  | [] => (indent, [], tokens)
  | o :: outer =>
    if column < indent then closeBlocks column o outer (.blockEnd :: tokens)
    else (indent, o :: outer, tokens)

/-- Closes block collections down to a column. In flow collections indentation does not count. -/
def unwind (column : Int) (s : Scanner) : Scanner :=
  if s.inFlow then s
  else
    let (indent, outer, tokens) := closeBlocks column s.indent s.outer s.tokens
    { s with indent := indent, outer := outer, tokens := tokens }

/-- Opens a block collection in a column, if the innermost one lies to the left of it. -/
def openBlock (column : Nat) (s : Scanner) : Scanner × Bool :=
  if s.indent < column then ({ s with indent := column, outer := s.indent :: s.outer }, true)
  else (s, false)

/-- Opens a block collection at the current place. -/
def openHere (t : Token) (s : Scanner) : Scanner :=
  match s.openBlock s.cursor.column with
  | (s, true) => s.push t
  | (s, false) => s

/-! ### Marks -/

/-- A marker of documents. It closes all block collections. -/
def fetchMarker (t : Token) (s : Scanner) : Except Fault Scanner := do
  let s ← (s.unwind (-1)).giveUpCurrent
  return { s with keyAllowed := false }.take 3 t

/-- The start of a flow collection, which may be a key as a whole. -/
def fetchFlowStart (isSequence : Bool) (t : Token) (s : Scanner) : Except Fault Scanner := do
  let s ← s.mayBeKey
  return { s with flow := isSequence :: s.flow, keyAllowed := true }.take 1 t

/-- The end of a flow collection. -/
def fetchFlowEnd (t : Token) (s : Scanner) : Except Fault Scanner := do
  let s ← s.giveUpCurrent
  return { s with flow := s.flow.tail, keyAllowed := false }.take 1 t

/-- The comma of a flow collection. -/
def fetchFlowEntry (s : Scanner) : Except Fault Scanner := do
  let s ← s.giveUpCurrent
  return { s with keyAllowed := true }.take 1 .flowEntry

/-- The dash of an item. -/
def fetchBlockEntry (s : Scanner) : Except Fault Scanner := do
  if !s.inFlow && !s.keyAllowed then throw .malformed
  let s := if s.inFlow then s else s.openHere .blockSequence
  let s ← s.giveUpCurrent
  return { s with keyAllowed := true }.take 1 .blockEntry

/-- The question mark of a key. -/
def fetchKey (s : Scanner) : Except Fault Scanner := do
  if !s.inFlow && !s.keyAllowed then throw .malformed
  let s := if s.inFlow then s else s.openHere .blockMapping
  let s ← s.giveUpCurrent
  return { s with keyAllowed := !s.inFlow }.take 1 .key

/-- Splices tokens in before the token of a number. -/
def splice (number : Nat) (new : List Token) (s : Scanner) : Scanner :=
  let later := s.tokens.length - number
  { s with tokens := s.tokens.take later ++ new.reverse ++ s.tokens.drop later }

/-- The colon of a value. A pending node becomes its key; otherwise the value has a key of its own
mark, or none. -/
def fetchValue (s : Scanner) : Except Fault Scanner := do
  match s.pending.find? (·.level == s.level) with
  | some p =>
    let s := { s with pending := s.pending.filter (·.level != s.level), keyAllowed := false }
    let (s, opened) := if s.inFlow then (s, false) else s.openBlock p.column
    return (s.splice p.number (if opened then [.blockMapping, .key] else [.key])).take 1 .value
  | none =>
    if !s.inFlow && !s.keyAllowed then throw .malformed
    let s := if s.inFlow then s else s.openHere .blockMapping
    return { s with keyAllowed := !s.inFlow }.take 1 .value

/-! ### Scalars -/

/-- A scalar in quotes. -/
def fetchQuoted (double : Bool) (s : Scanner) : Except Fault Scanner := do
  let s ← s.mayBeKey
  let (codes, rest) ← quoted double s.cursor.rest.tail
  let s := { s with cursor := s.cursor.moveTo rest.val, keyAllowed := false }
  return s.push (.scalar (.quoted codes))

/-- A plain scalar. A key may follow it if its line ends. -/
def fetchPlain (s : Scanner) : Except Fault Scanner := do
  let s ← s.mayBeKey
  let (text, rest, broken) := plain s.inFlow (s.indent + 1) false s.cursor.rest
  let s := { s with cursor := s.cursor.moveTo rest.val, keyAllowed := broken }
  return s.push (.scalar (.plain text))

/-! ### Characters -/

/-- The characters that no plain scalar starts with by itself. -/
def isIndicator (c : Char) : Bool :=
  isFlowMark c || ['-', '?', ':', '#', '&', '*', '!', '|', '>', '\'', '"', '%', '@'].contains c
    || c.toNat == 0x60

/-- Whether a plain scalar starts with a character, given what follows it. A dash needs something
right after it; so do a question mark and a colon, the first of them only in block style. -/
def startsPlain (flow : Bool) (c : Char) (rest : List Char) : Bool :=
  if isSpace c || isBreak c then false
  else if !isIndicator c then true
  else if c == ':' && flow then !(rest.head?.map isSpace).getD false
  else !endsWord rest && (c == '-' || (!flow && (c == '?' || c == ':')))

/-- Whether a colon is the mark of a value, given what follows it. In flow mappings it always is, but
right after another such mark that has not been dealt with it needs a blank; in flow sequences and
in block style it needs one anyway. `waiting` says that tokens have not been dealt with, since a
node among them is pending. -/
def isValueMark (s : Scanner) (waiting : Bool) (rest : List Char) : Bool :=
  match s.flow with
  | false :: _ => endsWord rest || !(waiting && s.tokens.head? == some .value)
  | _ => endsWord rest

/-- The token that starts with the next character. -/
def fetch (waiting : Bool) (c : Char) (rest : List Char) (s : Scanner) : Except Fault Scanner :=
  let atStart := s.cursor.column == 0
  if atStart && c == '%' then .error .malformed
  else if atStart && isMarker '-' (c :: rest) then s.fetchMarker .documentStart
  else if atStart && isMarker '.' (c :: rest) then s.fetchMarker .documentEnd
  else if c == '[' then s.fetchFlowStart true .flowSequence
  else if c == '{' then s.fetchFlowStart false .flowMapping
  else if c == ']' then s.fetchFlowEnd .flowSequenceEnd
  else if c == '}' then s.fetchFlowEnd .flowMappingEnd
  else if c == ',' then s.fetchFlowEntry
  else if c == '-' && endsWord rest then s.fetchBlockEntry
  else if c == '?' && (s.inFlow || endsWord rest) then s.fetchKey
  else if c == ':' && s.isValueMark waiting rest then s.fetchValue
  else if c == '\'' then s.fetchQuoted false
  else if c == '"' then s.fetchQuoted true
  else if startsPlain s.inFlow c rest then s.fetchPlain
  else .error .malformed

/-! ### The scan -/

/-- How many characters stand before the next token: blanks, line ends and comments. A tab counts as
a blank inside flow collections only. -/
def gapLength (flow comment : Bool) : List Char → Nat
  | [] => 0
  | c :: rest =>
    if isBreak c then gapLength flow false rest + 1
    else if comment || c == ' ' || (flow && c == '\t') then gapLength flow comment rest + 1
    else if c == '#' then gapLength flow true rest + 1
    else 0

/-- Goes on to the next token. Outside of flow collections a new line allows a key, and its column
closes block collections. -/
def skipGap (s : Scanner) : Except Fault Scanner := do
  let n := gapLength s.inFlow false s.cursor.rest
  let broken := !s.inFlow && (s.cursor.rest.take n).any isBreak
  let s := { s with cursor := s.cursor.advance n, keyAllowed := s.keyAllowed || broken }
  let s ← s.giveUp (!s.isFresh ·)
  return s.unwind s.cursor.column

/-- The tokens, when nothing is left to read. -/
def finish (s : Scanner) : Except Fault (List Token) := do
  let s ← (s.unwind (-1)).giveUpCurrent
  return s.tokens.reverse

/-- The tokens so far and the fault that ends them. -/
def fail (s : Scanner) (f : Fault) : List Token :=
  (Token.failed f :: s.tokens).reverse

/-- The tokens of a document from a state on. -/
def run (s : Scanner) : List Token :=
  let waiting := s.pending.any s.isFresh
  match s.skipGap with
  | .error f => s.fail f
  | .ok s₁ =>
    match s₁.cursor.rest with
    | [] =>
      match s₁.finish with
      | .ok tokens => tokens
      | .error f => s₁.fail f
    | c :: rest =>
      match s₁.fetch waiting c rest with
      | .error f => s₁.fail f
      | .ok s₂ =>
        if s₂.cursor.rest.length < s.cursor.rest.length then run s₂ else s₁.fail .malformed
termination_by s.cursor.rest.length

end Scanner

/-- The tokens of a document. -/
def scan (cs : List Char) : List Token :=
  (Scanner.start cs).run

end ConditionalStyle.Settings.Yaml
