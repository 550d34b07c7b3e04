import ConditionalStyle.Decimal.Shortest
import ConditionalStyle.Text.Display

/-!
# Host values

The host that supplies names to expressions and settings to the compiler does so with dynamic
values: null, booleans, integers, doubles, texts, lists, dictionaries and objects. Of any other value
only its type and its looks are known.

## Main definitions

* `Value`: the values.
* `Value.display`, `Value.display?`: a value as messages show it, and whether they can.
* `Value.same`: equality of values.
* `Value.lookup?`, `Value.insert`: the entries of a dictionary.
-/

namespace ConditionalStyle

/-- A value of the host. A dictionary keeps its entries in the order of their first insertion. -/
inductive Value where
  | null
  | bool (value : Bool)
  | int (value : Int)
  | float (value : Float)
  | text (value : String)
  | list (items : List Value)
  | dict (entries : List (Value × Value))
  /-- Anything else that a host holds, be it a function, an instance of a class, or a list or a
  mapping that may change. Only the host knows what it is. -/
  | object (identity : Nat) (type : String)
  /-- A value that nothing can be done with but to show it and to see whether it is empty. -/
  | foreign (type shown : String) (empty : Bool)

instance : Inhabited Value := ⟨.null⟩

namespace Value

/-- The name of a value's type in messages. -/
def typeName : Value → String
  | .null => "NoneType"
  | .bool _ => "bool"
  | .int _ => "int"
  | .float _ => "float"
  | .text _ => "str"
  | .list _ => "list"
  | .dict _ => "dict"
  | .object _ type => type
  | .foreign type _ _ => type

/-- How messages show a list that is a key, given what they show of its items: in parentheses, with
a comma after a single item. -/
def inParentheses : List String → String
  | [item] => "(" ++ item ++ ",)"
  | items => "(" ++ ", ".intercalate items ++ ")"

mutual

/-- A value as messages show it: texts between quotes, lists in brackets, dictionaries in braces.
Objects show nothing but their type. -/
def display : Value → String
  | .null => "None"
  | .bool b => if b then "True" else "False"
  | .int n => toString n
  | .float x => Decimal.render x
  | .text s => Text.display s
  | .list vs => "[" ++ ", ".intercalate (displayItems vs) ++ "]"
  | .dict es => "\x7b" ++ ", ".intercalate (displayEntries es) ++ "\x7d"
  | .object _ type => "<" ++ type ++ ">"
  | .foreign _ shown _ => shown

/-- The items of a list as messages show them. -/
def displayItems : List Value → List String
  | [] => []
  | v :: vs => v.display :: displayItems vs

/-- The entries of a dictionary as messages show them. -/
def displayEntries : List (Value × Value) → List String
  | [] => []
  | (.list vs, v) :: es =>
    (inParentheses (displayItems vs) ++ ": " ++ v.display) :: displayEntries es
  | (k, v) :: es => (k.display ++ ": " ++ v.display) :: displayEntries es

end

mutual

/-- Whether messages can show a value. An integer that it holds may be too long to be written. -/
def isShowable : Value → Bool
  | .int n => Decimal.isWritable n
  | .list vs => areShowable vs
  | .dict es => areShowableEntries es
  | _ => true

/-- Whether messages can show the items of a list. -/
def areShowable : List Value → Bool
  | [] => true
  | v :: vs => v.isShowable && areShowable vs

/-- Whether messages can show the entries of a dictionary. -/
def areShowableEntries : List (Value × Value) → Bool
  | [] => true
  | (k, v) :: es => k.isShowable && v.isShowable && areShowableEntries es

end

/-- A value as messages show it, if they can. -/
def display? (v : Value) : Option String :=
  if v.isShowable then some v.display else none

/-- The number that a value counts as in comparisons; booleans are zero and one. -/
def integral? : Value → Option Int
  | .bool b => some (if b then 1 else 0)
  | .int n => some n
  | _ => none

/-- Equality of two values that hold no other values. Integers and doubles are compared as
numbers, without rounding. -/
def samePlain (a b : Value) : Bool :=
  match a.integral?, b.integral? with
  | some m, some n => m == n
  | some m, none => match b with
    | .float y => Decimal.eqInt m y
    | _ => false
  | none, some n => match a with
    | .float x => Decimal.eqInt n x
    | _ => false
  | none, none => match a, b with
    | .null, .null => true
    | .float x, .float y => x == y
    | .text s, .text t => s == t
    | .object i _, .object j _ => i == j
    | .foreign t s _, .foreign u r _ => t == u && s == r
    | _, _ => false

mutual

/-- Equality of two values: lists item by item, dictionaries by the entries they hold in whatever
order, objects by identity. A NaN is equal to nothing, also inside of lists and dictionaries. -/
def same : Value → Value → Bool
  | .list xs, .list ys => sameItems xs ys
  | .dict es, .dict fs => es.length == fs.length && sameEntries es fs
  | a, b => samePlain a b

/-- Equality of two lists. -/
def sameItems : List Value → List Value → Bool
  | [], [] => true
  | x :: xs, y :: ys => same x y && sameItems xs ys
  | _, _ => false

/-- Whether all entries of the first dictionary are entries of the second. -/
def sameEntries : List (Value × Value) → List (Value × Value) → Bool
  | [], _ => true
  | (k, v) :: es, fs =>
    (match fs.find? fun f => same k f.1 with
      | some f => same v f.2
      | none => false) && sameEntries es fs

end

/-- Whether a key of a dictionary is the given name. -/
def isKey (name : String) : Value → Bool
  | .text s => s == name
  | _ => false

theorem isKey_iff {name : String} {k : Value} : isKey name k = true ↔ k = .text name := by
  cases k <;> simp [isKey]

/-- The value of a name among the entries of a dictionary. -/
def lookup? (entries : List (Value × Value)) (name : String) : Option Value :=
  (entries.find? fun e => isKey name e.1).map (·.2)

theorem lookup?_cons (k v : Value) (entries : List (Value × Value)) (name : String) :
    lookup? ((k, v) :: entries) name =
      if isKey name k then some v else lookup? entries name := by
  rw [lookup?, List.find?_cons]
  cases isKey name k <;> rfl

/-- Sets a key to a value. A key that is there keeps its place. -/
def insert (entries : List (Value × Value)) (key value : Value) : List (Value × Value) :=
  match entries with
  | [] => [(key, value)]
  | (k, v) :: rest => if same k key then (k, value) :: rest else (k, v) :: insert rest key value

/-- Whether a value stands for nothing: null, false, zero, an empty text, list or dictionary. -/
def isFalsy : Value → Bool
  | .null => true
  | .bool b => !b
  | .int n => n == 0
  | .float x => x == 0
  | .text s => s.isEmpty
  | .list vs => vs.isEmpty
  | .dict es => es.isEmpty
  | .object .. => false
  | .foreign _ _ empty => empty

end Value

end ConditionalStyle
