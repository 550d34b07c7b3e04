import ConditionalStyle.Settings.Yaml.Token

/-!
# Nodes of a document

The tokens of a document form scalars, sequences and mappings. Nodes may be missing wherever a mark
announces them; a missing node is an empty plain scalar. A text holds at most one document.

## Main definitions

* `Node`.
* `node`, `blockItems`, `blockEntries`, `flowItems`, `flowEntries`: the nodes that tokens form.
* `document`: the node of all tokens.
-/

namespace ConditionalStyle.Settings.Yaml

/-- A node of a document. -/
inductive Node where
  | scalar (scalar : Scalar)
  | sequence (items : List Node)
  | mapping (entries : List (Node × Node))

/-- What stands for a node that is missing. -/
def Node.missing : Node := .scalar (.plain [])

namespace Parser

/-- Fewer tokens than the given ones. -/
abbrev Shorter (ts : List Token) := { rest : List Token // rest.length < ts.length }

/-- At most as many tokens as the given ones. -/
abbrev Within (ts : List Token) := { rest : List Token // rest.length ≤ ts.length }

/-- What a reading function gives: something read and the tokens left. -/
abbrev Reading (α : Type) (ts : List Token) := Except Fault (α × Shorter ts)

/-- The same for a function that may take no token. -/
abbrev Continuing (α : Type) (ts : List Token) := Except Fault (α × Within ts)

/-- Tokens that cannot go on like this. If the scan failed here, its fault is the reason. -/
def refuse {α : Type} : List Token → Except Fault α
  | .failed f :: _ => .error f
  | _ => .error .malformed

/-- Whether one of the given tokens comes next. -/
def comesNext (which : List Token) (ts : List Token) : Bool :=
  match ts with
  | [] => false
  | t :: _ => which.contains t

/-- The tokens that may follow a mark of a block mapping whose node is missing. -/
def blockStops : List Token := [.key, .value, .blockEnd]

/-- A comma, or the end of a flow collection. -/
def flowStops (close : Token) : List Token := [.flowEntry, close]

mutual

/-- A node. Block collections are read only where `block` allows them, and a sequence in the column
of its key only where `indentless` does. -/
def node (block indentless : Bool) (ts : List Token) : Reading Node ts :=
  match ts with
  | .scalar s :: r => .ok (.scalar s, ⟨r, Nat.lt_succ_self _⟩)
  | .flowSequence :: r =>
    match flowItems true r with
    | .error e => .error e
    | .ok (items, ⟨r₁, h₁⟩) => .ok (.sequence items, ⟨r₁, Nat.lt_succ_of_le h₁⟩)
  | .flowMapping :: r =>
    match flowEntries true r with
    | .error e => .error e
    | .ok (entries, ⟨r₁, h₁⟩) => .ok (.mapping entries, ⟨r₁, Nat.lt_succ_of_le h₁⟩)
  | .blockSequence :: r =>
    if block then
      match blockItems false r with
      | .error e => .error e
      | .ok (items, ⟨r₁, h₁⟩) => .ok (.sequence items, ⟨r₁, Nat.lt_succ_of_le h₁⟩)
    else .error .malformed
  | .blockMapping :: r =>
    if block then
      match blockEntries r with
      | .error e => .error e
      | .ok (entries, ⟨r₁, h₁⟩) => .ok (.mapping entries, ⟨r₁, Nat.lt_succ_of_le h₁⟩)
    else .error .malformed
  | .blockEntry :: r =>
    if indentless then
      match optional (blockStops ++ [.blockEntry]) true false r with
      | .error e => .error e
      | .ok (item, ⟨r₁, h₁⟩) =>
        match blockItems true r₁ with
        | .error e => .error e
        | .ok (items, ⟨r₂, h₂⟩) =>
          .ok (.sequence (item :: items), ⟨r₂, Nat.lt_succ_of_le (Nat.le_trans h₂ h₁)⟩)
    else .error .malformed
  | ts => refuse ts
termination_by (ts.length, 0)

/-- A node, or a missing one if one of the given tokens comes next. -/
def optional (stops : List Token) (block indentless : Bool) (ts : List Token) :
    Continuing Node ts :=
  if comesNext stops ts then .ok (.missing, ⟨ts, Nat.le_refl _⟩)
  else
    match node block indentless ts with
    | .error e => .error e
    | .ok (n, ⟨r, h⟩) => .ok (n, ⟨r, Nat.le_of_lt h⟩)
termination_by (ts.length, 1)

/-- The node after the mark of a value; without the mark it is missing. -/
def valuePart (stops : List Token) (block : Bool) (ts : List Token) : Continuing Node ts :=
  match ts with
  | .value :: r =>
    match optional stops block block r with
    | .error e => .error e
    | .ok (n, ⟨r₁, h₁⟩) => .ok (n, ⟨r₁, Nat.le_succ_of_le h₁⟩)
  | ts => .ok (.missing, ⟨ts, Nat.le_refl _⟩)
termination_by (ts.length, 2)

/-- The items of a block sequence. One in the column of its key ends where no item follows, any other
at the end of its block. -/
def blockItems (indentless : Bool) (ts : List Token) : Continuing (List Node) ts :=
  match ts with
  | .blockEntry :: r =>
    let stops := if indentless then blockStops ++ [.blockEntry] else [.blockEntry, .blockEnd]
    match optional stops true false r with
    | .error e => .error e
    | .ok (item, ⟨r₁, h₁⟩) =>
      match blockItems indentless r₁ with
      | .error e => .error e
      | .ok (items, ⟨r₂, h₂⟩) =>
        .ok (item :: items, ⟨r₂, Nat.le_succ_of_le (Nat.le_trans h₂ h₁)⟩)
  | .blockEnd :: r =>
    if indentless then .ok ([], ⟨.blockEnd :: r, Nat.le_refl _⟩)
    else .ok ([], ⟨r, Nat.le_succ _⟩)
  | ts => if indentless then .ok ([], ⟨ts, Nat.le_refl _⟩) else refuse ts
termination_by (ts.length, 3)

/-- The entries of a block mapping up to its end. A value may have no key, and a key no value. -/
def blockEntries (ts : List Token) : Continuing (List (Node × Node)) ts :=
  match ts with
  | .key :: r =>
    match optional blockStops true true r with
    | .error e => .error e
    | .ok (k, ⟨r₁, h₁⟩) =>
      match valuePart blockStops true r₁ with
      | .error e => .error e
      | .ok (v, ⟨r₂, h₂⟩) =>
        match blockEntries r₂ with
        | .error e => .error e
        | .ok (entries, ⟨r₃, h₃⟩) =>
          .ok ((k, v) :: entries, ⟨r₃, by simp only [List.length_cons]; omega⟩)
  | .value :: r =>
    match optional blockStops true true r with
    | .error e => .error e
    | .ok (v, ⟨r₁, h₁⟩) =>
      match blockEntries r₁ with
      | .error e => .error e
      | .ok (entries, ⟨r₂, h₂⟩) =>
        .ok ((.missing, v) :: entries, ⟨r₂, by simp only [List.length_cons]; omega⟩)
  | .blockEnd :: r => .ok ([], ⟨r, Nat.le_succ _⟩)
  | ts => refuse ts
termination_by (ts.length, 3)

/-- The items of a flow sequence up to its end; before all but the first stands a comma. -/
def flowItems (first : Bool) (ts : List Token) : Continuing (List Node) ts :=
  match ts with
  | .flowSequenceEnd :: r => .ok ([], ⟨r, Nat.le_succ _⟩)
  | .flowEntry :: r =>
    if first then refuse ts
    else
      match flowItem r with
      | .error e => .error e
      | .ok (items, ⟨r₁, h₁⟩) => .ok (items, ⟨r₁, Nat.le_succ_of_le h₁⟩)
  | ts => if first then flowItem ts else refuse ts
termination_by (ts.length, 5)

/-- An item of a flow sequence and those after it. An entry with a key is a mapping of its own. -/
def flowItem (ts : List Token) : Continuing (List Node) ts :=
  let stops := flowStops .flowSequenceEnd
  match ts with
  | .flowSequenceEnd :: r => .ok ([], ⟨r, Nat.le_succ _⟩)
  | .key :: r =>
    match optional (.value :: stops) false false r with
    | .error e => .error e
    | .ok (k, ⟨r₁, h₁⟩) =>
      match valuePart stops false r₁ with
      | .error e => .error e
      | .ok (v, ⟨r₂, h₂⟩) =>
        match flowItems false r₂ with
        | .error e => .error e
        | .ok (items, ⟨r₃, h₃⟩) =>
          .ok (.mapping [(k, v)] :: items, ⟨r₃, by simp only [List.length_cons]; omega⟩)
  | ts =>
    match node false false ts with
    | .error e => .error e
    | .ok (n, ⟨r, h⟩) =>
      match flowItems false r with
      | .error e => .error e
      | .ok (items, ⟨r₁, h₁⟩) => .ok (n :: items, ⟨r₁, by omega⟩)
termination_by (ts.length, 4)

/-- The entries of a flow mapping up to its end; before all but the first stands a comma. -/
def flowEntries (first : Bool) (ts : List Token) : Continuing (List (Node × Node)) ts :=
  match ts with
  | .flowMappingEnd :: r => .ok ([], ⟨r, Nat.le_succ _⟩)
  | .flowEntry :: r =>
    if first then refuse ts
    else
      match flowPair r with
      | .error e => .error e
      | .ok (entries, ⟨r₁, h₁⟩) => .ok (entries, ⟨r₁, Nat.le_succ_of_le h₁⟩)
  | ts => if first then flowPair ts else refuse ts
termination_by (ts.length, 5)

/-- An entry of a flow mapping and those after it. A node alone is a key without value. -/
def flowPair (ts : List Token) : Continuing (List (Node × Node)) ts :=
  let stops := flowStops .flowMappingEnd
  match ts with
  | .flowMappingEnd :: r => .ok ([], ⟨r, Nat.le_succ _⟩)
  | .key :: r =>
    match optional (.value :: stops) false false r with
    | .error e => .error e
    | .ok (k, ⟨r₁, h₁⟩) =>
      match valuePart stops false r₁ with
      | .error e => .error e
      | .ok (v, ⟨r₂, h₂⟩) =>
        match flowEntries false r₂ with
        | .error e => .error e
        | .ok (entries, ⟨r₃, h₃⟩) =>
          .ok ((k, v) :: entries, ⟨r₃, by simp only [List.length_cons]; omega⟩)
  | .value :: r =>
    match optional stops false false r with
    | .error e => .error e
    | .ok (v, ⟨r₁, h₁⟩) =>
      match flowEntries false r₁ with
      | .error e => .error e
      | .ok (entries, ⟨r₂, h₂⟩) =>
        .ok ((.missing, v) :: entries, ⟨r₂, by simp only [List.length_cons]; omega⟩)
  | ts =>
    match node false false ts with
    | .error e => .error e
    | .ok (n, ⟨r, h⟩) =>
      match flowEntries false r with
      | .error e => .error e
      | .ok (entries, ⟨r₁, h₁⟩) => .ok ((n, .missing) :: entries, ⟨r₁, by omega⟩)
termination_by (ts.length, 4)

end

/-- Makes sure that no token is left but a marker of the document's end. -/
def atEnd : List Token → Except Fault Unit
  | [] => .ok ()
  | [.documentEnd] => .ok ()
  | .documentEnd :: ts => refuse ts
  | ts => refuse ts

/-- The node of a document after its start. -/
def content (node? : Option Node) (ts : List Token) : Except Fault (Option Node) :=
  match atEnd ts with
  | .error e => .error e
  | .ok () => .ok node?

end Parser

/-- The node that tokens form; no tokens form none. A document that is started by a marker may be
empty. -/
def document (ts : List Token) : Except Fault (Option Node) :=
  match ts with
  | [] => .ok none
  | .documentStart :: ts =>
    if ts.isEmpty || Parser.comesNext [.documentStart, .documentEnd] ts then
      Parser.content (some .missing) ts
    else
      match Parser.node true false ts with
      | .error e => .error e
      | .ok (n, r) => Parser.content (some n) r.val
  | ts =>
    match Parser.node true false ts with
    | .error e => .error e
    | .ok (n, r) => Parser.content (some n) r.val

end ConditionalStyle.Settings.Yaml
