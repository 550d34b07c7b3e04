import ConditionalStyle.Text.Display

/-!
# What can be wrong with a document

Most faults of a document are faults of its form. A few lie in what it spells: a character that does
not exist, a number without digits, a day that is in no calendar, a key that cannot be looked up.

## Main definitions

* `Fault`, `Fault.message`.
-/

namespace ConditionalStyle.Settings.Yaml

/-- Why a year, a month and a day are no date. -/
inductive DateFault where
  | year (year : Nat)
  | month
  | day
deriving DecidableEq, Repr

/-- The wording of a fault of a date. -/
def DateFault.message : DateFault → String
  | .year n => s!"year {n} is out of range"
  | .month => "month must be in 1..12"
  | .day => "day is out of range for month"

/-- What can be wrong with a document. -/
inductive Fault where
  /-- The text is no document. -/
  | malformed
  /-- An escape names a character beyond the last one. -/
  | noCharacter
  /-- An escape names a number that does not even fit in a signed word of 32 bits. -/
  | hugeCharacter
  /-- An integer to a base has only underscores for digits. -/
  | emptyInteger (base : Nat)
  /-- A decimal integer has too many digits. -/
  | longInteger (digits : Nat)
  /-- A double has only underscores for digits. -/
  | emptyDouble (text : String)
  | date (fault : DateFault)
  /-- A key is a list that holds a list or a mapping. -/
  | nestedKey
deriving DecidableEq, Repr

/-- The wording of a fault. -/
def Fault.message : Fault → String
  | .malformed => "malformed document"
  | .noCharacter => "chr() arg not in range(0x110000)"
  | .hugeCharacter => "Python int too large to convert to C int"
  | .emptyInteger base => s!"invalid literal for int() with base {base}: ''"
  | .longInteger digits =>
    "Exceeds the limit (4300 digits) for integer string conversion: value has "
      ++ s!"{digits} digits; use sys.set_int_max_str_digits() to increase the limit"
  | .emptyDouble text => "could not convert string to float: " ++ Text.display text
  | .date f => f.message
  | .nestedKey => "unhashable type: 'list'"

end ConditionalStyle.Settings.Yaml
