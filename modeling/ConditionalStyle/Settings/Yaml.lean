import ConditionalStyle.Settings.Yaml.Node
import ConditionalStyle.Settings.Yaml.Resolve

/-!
# Documents

Settings files are written in a part of YAML 1.2: block and flow mappings and sequences, plain and
quoted scalars, comments, and the markers around a document.

A document is scanned to tokens, the tokens form nodes, and the nodes stand for values. A fault of
form comes before any fault of a value. Among the faults of values the one nearest to the root comes
first, since a collection is built before what is in it.

## Main definitions

* `build`: the value of a node and the faults in it.
* `read`: the value of a document.
-/

namespace ConditionalStyle.Settings.Yaml

/-- Whether a value is a list or a mapping. -/
def isCollection : Value → Bool
  | .list _ | .dict _ => true
  | _ => false

/-- Whether a key is a list that holds a list or a mapping. Such a key cannot be looked up. -/
def isNested : Value → Bool
  | .list items => items.any isCollection
  | _ => false

/-- What is wrong with adding a key to entries. It must be one that can be looked up, and new. -/
def keyFault? (entries : List (Value × Value)) (key : Value) : Option Fault :=
  if isNested key then some .nestedKey
  else if entries.any fun e => e.1.same key then some .malformed
  else none

/-- The value of a scalar and its faults at a depth. -/
def buildScalar (depth : Nat) (s : Scalar) : Value × List (Nat × Fault) :=
  match s.value with
  | .ok v => (v, [])
  | .error f => (.null, [(depth, f)])

mutual

/-- The value of a node and the faults in it, each with the depth at which it comes up. What is in a
collection is one deeper, except inside keys, which are built in one go. -/
def build (inKey : Bool) (depth : Nat) : Node → Value × List (Nat × Fault)
  | .scalar s => buildScalar depth s
  | .sequence items =>
    let (values, faults) := buildItems inKey (if inKey then depth else depth + 1) items
    (.list values, faults)
  | .mapping entries =>
    let (entries, faults) := buildEntries inKey (if inKey then depth else depth + 1) [] entries
    (.dict entries, faults)

/-- The values of the items of a sequence. -/
def buildItems (inKey : Bool) (depth : Nat) : List Node → List Value × List (Nat × Fault)
  | [] => ([], [])
  | n :: ns =>
    let (value, faults) := build inKey depth n
    let (values, others) := buildItems inKey depth ns
    (value :: values, faults ++ others)

/-- The entries of a mapping, after those built before. A mapping is no key; an equals sign is one,
though it is no value. -/
def buildEntries (inKey : Bool) (depth : Nat) (done : List (Value × Value)) :
    List (Node × Node) → List (Value × Value) × List (Nat × Fault)
  | [] => (done, [])
  | (k, v) :: es =>
    let (key, keyFaults) := match k with
      | .scalar (.plain ['=']) => (.text "=", [])
      | .mapping _ =>
        let (key, faults) := build true depth k
        (key, faults ++ [(depth, .malformed)])
      | _ => build true depth k
    let (value, valueFaults) := build inKey depth v
    let adding := (keyFault? done key).toList.map fun f => (depth, f)
    let (entries, others) := buildEntries inKey depth (done ++ [(key, value)]) es
    (entries, keyFaults ++ valueFaults ++ adding ++ others)

end

/-- The fault nearest to the root, and among those the first. -/
def nearest? : List (Nat × Fault) → Option (Nat × Fault)
  | [] => none
  | f :: fs =>
    match nearest? fs with
    | none => some f
    | some g => some (if f.1 ≤ g.1 then f else g)

/-- The value of a node. -/
def Node.value (n : Node) : Except Fault Value :=
  let (value, faults) := build false 0 n
  match nearest? faults with
  | none => .ok value
  | some (_, fault) => .error fault

/-- A text without the byte order mark at its start. -/
def dropMark : List Char → List Char
  | [] => []
  | c :: cs => if c.toNat == 0xfeff then cs else c :: cs

/-- The value of a document. An empty text is null. -/
def read (s : String) : Except Fault Value :=
  if s.toList.all isAllowed then
    match document (scan (dropMark s.toList)) with
    | .error f => .error f
    | .ok none => .ok .null
    | .ok (some n) => n.value
  else .error .malformed

end ConditionalStyle.Settings.Yaml
