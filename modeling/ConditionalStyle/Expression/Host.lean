import ConditionalStyle.Value

/-!
# What expressions ask of their host

An expression does some things by itself and leaves others to the host that its names come from:
members of anything but a dictionary, calls, and the texts and the equality of values that hold
others or that only the host knows. What the host does is no part of the language. It may keep a
state of its own, and it may fail.

## Main definitions

* `Query`, `Query.Answer`: what is asked, and the type of the answer.
* `Host`: what is answered, given all that was asked before.
* `Host.bare`: a host that offers nothing beyond the values themselves.
-/

namespace ConditionalStyle.Expression

/-- What an expression asks of its host. -/
inductive Query where
  /-- The member of a name, if there is one. -/
  | member (target : Value) (name : String)
  /-- The result of a call. -/
  | call (callee : Value) (args : List Value)
  /-- A value as texts absorb it. -/
  | text (value : Value)
  /-- Whether two values are equal or, negated, unequal; the host may answer with any value. -/
  | compare (negated : Bool) (left right : Value)

/-- The type of the answer to a query. -/
abbrev Query.Answer : Query → Type
  | .member .. => Option Value
  | .call .. => Value
  | .text _ => String
  | .compare .. => Value

/-- An exception that a host raises in place of an answer. -/
structure Exception where
  type : String
  message : String
deriving DecidableEq, Repr

/-- A host: which of its objects can be called, and its answer to a query. The answer may depend on
all queries made before, in their order, so that a host may keep a state. -/
structure Host where
  isCallable : Nat → Bool
  answer : List Query → (query : Query) → Except Exception query.Answer

namespace Host

/-- Whether a value can be called. Only objects can. -/
def canCall (host : Host) : Value → Bool
  | .object identity _ => host.isCallable identity
  | _ => false

/-- The exception for a value that holds an integer too long to be written. -/
def tooLong : Exception :=
  ⟨"ValueError", Decimal.tooLongMessage Decimal.maxDigits none⟩

/-- A host that offers nothing beyond the values themselves: no members, nothing to call, and lists
and dictionaries that are shown and compared by what they hold. -/
def bare : Host where
  isCallable _ := false
  answer _
    | .member .. => .ok (none : Option Value)
    | .call f _ => .error ⟨"TypeError", s!"'{f.typeName}' object is not callable"⟩
    | .text v => match v.display? with
      | some shown => .ok shown
      | none => .error tooLong
    | .compare negated a b => .ok (Value.bool (a.same b != negated))

end Host

end ConditionalStyle.Expression
