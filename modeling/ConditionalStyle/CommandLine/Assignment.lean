import ConditionalStyle.Decimal.Reading
import ConditionalStyle.Value

/-!
# Assignments

Names get their values on the command line by assignments `NAME=VALUE`. A name with dots leads into
nested dictionaries, which are made as needed.

## Main definitions

* `readValue`: the value that a text stands for.
* `AssignmentError`: why assignments are refused.
* `Assignment.read`: a path and a value from a text.
* `assign`, `namespaceOf`: what assignments make of a namespace.
-/

namespace ConditionalStyle.CommandLine

/-- The value that a text stands for: a boolean, null, an integer or a double, blanks around it left
out of account; or else the text as it is. -/
def readValue (raw : String) : Value :=
  let text := Text.strip raw
  if text = "true" then .bool true
  else if text = "false" then .bool false
  else if text = "null" then .null
  else
    match Decimal.readInt? text with
    | some n => .int n
    | none =>
      match Decimal.readFloat? text with
      | some x => .float x
      | none => .text raw

/-- Why assignments are refused. -/
inductive AssignmentError where
  | noValue (item : String)
  | badName (item : String)
  /-- A part of a path is bound to something that is no dictionary. -/
  | conflict (part : String)
deriving DecidableEq, Repr

/-- The wording of an error. -/
def AssignmentError.message : AssignmentError → String
  | .noValue item => s!"Invalid --set format '{item}'. Expected 'NAME=VALUE'"
  | .badName item => s!"Invalid name in --set '{item}'"
  | .conflict part => s!"Conflicting --set for '{part}'"

/-- An assignment: the path of names, which has a last one, and the value. -/
structure Assignment where
  path : List String
  last : String
  value : Value

/-- The pieces of a text between dots. -/
def pieces (cs : List Char) : List (List Char) :=
  cs.splitOn '.'

/-- The assignment that a text states: the name ends at the first equals sign, and no part of it may
be blank. -/
def Assignment.read (item : String) : Except AssignmentError Assignment :=
  let name := item.toList.takeWhile (· != '=')
  match item.toList.drop name.length with
  | [] => .error (.noValue item)
  | _ :: raw =>
    let parts := (pieces name).map fun part => Text.strip (String.ofList part)
    if parts.any String.isEmpty then .error (.badName item)
    else .ok ⟨parts.dropLast, parts.getLast?.getD "", readValue (String.ofList raw)⟩

/-- Binds the end of a path to a value. The path leads through dictionaries only. -/
def assign (entries : List (Value × Value)) (path : List String) (last : String) (value : Value) :
    Except AssignmentError (List (Value × Value)) :=
  match path with
  | [] => .ok (Value.insert entries (.text last) value)
  | part :: rest =>
    match Value.lookup? entries part with
    | none => do
      let inner ← assign [] rest last value
      return Value.insert entries (.text part) (.dict inner)
    | some (.dict inner) => do
      let inner ← assign inner rest last value
      return Value.insert entries (.text part) (.dict inner)
    | some _ => .error (.conflict part)

/-- What an item makes of a namespace. -/
def assignItem (entries : List (Value × Value)) (item : String) :
    Except AssignmentError (List (Value × Value)) := do
  let a ← Assignment.read item
  assign entries a.path a.last a.value

/-- The namespace that items make, each on top of those before it. -/
def namespaceOf (items : List String) : Except AssignmentError (List (Value × Value)) :=
  items.foldlM assignItem []

end ConditionalStyle.CommandLine
