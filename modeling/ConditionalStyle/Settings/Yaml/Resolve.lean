import ConditionalStyle.Decimal.Reading
import ConditionalStyle.Settings.Yaml.Scalar
import ConditionalStyle.Text.Word
import ConditionalStyle.Value

/-!
# The values of scalars

A scalar in quotes is a text. A plain one is null, a boolean, a number or a date if it is spelled
like one, and a text otherwise. A few spellings have the form of a number or a date and yet spell
none; they are faults.

## Main definitions

* `double?`, `integer?`, `date?`: the numbers and dates that plain scalars spell.
* `resolve`: the value of a plain scalar.
* `Scalar.value`: the value of a scalar.
-/

namespace ConditionalStyle.Settings.Yaml

open Text

/-! ### Integers -/

/-- The number that digits to a base spell. Underscores among them count for nothing. -/
def digitsIn (base : Nat) (cs : List Char) : Except Fault Nat :=
  let digits := cs.filter (· != '_')
  if digits.isEmpty then .error (.emptyInteger base)
  else if base == 10 && Decimal.maxDigits < digits.length then .error (.longInteger digits.length)
  else .ok (digits.foldl (fun n c => base * n + (hexValue? c).getD 0) 0)

/-- Whether a text has the form of digits to a base, with underscores. -/
def areDigits (base : Nat) (cs : List Char) : Bool :=
  !cs.isEmpty && cs.all fun c => c == '_' || (hexValue? c).any (· < base)

/-- The base of an integer without sign and its digits: decimal, or after `0b`, `0o` and `0x` to
another base. -/
def splitBase : List Char → Nat × List Char
  | '0' :: 'b' :: cs => (2, cs)
  | '0' :: 'o' :: cs => (8, cs)
  | '0' :: 'x' :: cs => (16, cs)
  | cs => (10, cs)

/-- The integer that a plain scalar spells, if it has the form of one. It does not start with an
underscore. -/
def integer? (cs : List Char) : Option (Except Fault Int) :=
  let (negative, body) := Decimal.splitSign cs
  let (base, digits) := splitBase body
  if cs.head? == some '_' || !areDigits base digits then none
  else some ((digitsIn base digits).map fun n => if negative then -(n : Int) else n)

/-! ### Doubles -/

/-- A digit or an underscore. -/
def isPlace (c : Char) : Bool :=
  isAsciiDigit c || c == '_'

/-- Whether a text is an exponent: its letter, a sign, which can be left out if `signless`, and
digits. -/
def isExponent (signless : Bool) : List Char → Bool
  | [] => false
  | c :: rest =>
    let signed := rest.head? == some '+' || rest.head? == some '-'
    let digits := if signed then rest.drop 1 else rest
    (c == 'e' || c == 'E') && (signed || signless) && !digits.isEmpty && digits.all isAsciiDigit

/-- Whether a text without sign has the form of a double: a point or an exponent marks it. Without
digits before the point, the exponent needs its sign. -/
def isDouble (body : List Char) : Bool :=
  let whole := body.takeWhile isPlace
  let rest := body.dropWhile isPlace
  if whole.head? == some '_' then false
  else match rest with
    | '.' :: rest =>
      let after := rest.dropWhile isPlace
      (!whole.isEmpty || after.length < rest.length)
        && (after.isEmpty || isExponent (!whole.isEmpty) after)
    | rest => !whole.isEmpty && isExponent true rest

/-- The double that a plain scalar spells, if it has the form of one: a number with a point or an
exponent, an infinity, or not-a-number. -/
def double? (cs : List Char) : Option (Except Fault Float) :=
  let (negative, body) := Decimal.splitSign cs
  if [".inf", ".Inf", ".INF"].contains (String.ofList body) then
    some (.ok (Decimal.infinity negative))
  else if [".nan", ".NaN", ".NAN"].contains (String.ofList cs) then
    some (.ok Decimal.notANumber)
  else if isDouble body then
    let digits := body.filter (· != '_')
    match Decimal.readScientific? digits with
    | some (n, e) => some (.ok (Decimal.ofScientific negative n e))
    | none => some (.error (.emptyDouble (String.ofList (digits.map Char.toLower))))
  else none

/-! ### Dates -/

/-- Whether a year has a leap day. -/
def isLeapYear (year : Nat) : Bool :=
  year % 4 == 0 && (year % 100 != 0 || year % 400 == 0)

/-- The number of days of a month. -/
def daysIn (year month : Nat) : Nat :=
  if month == 2 then if isLeapYear year then 29 else 28
  else if [4, 6, 9, 11].contains month then 30
  else 31

/-- Makes sure that a date is in the calendar, which has the years up to 9999. -/
def checkDate (year month day : Nat) : Except DateFault Unit :=
  if year == 0 || 9999 < year then .error (.year year)
  else if month == 0 || 12 < month then .error .month
  else if day == 0 || daysIn year month < day then .error .day
  else .ok ()

/-- A date as a value. -/
def dateValue (year month day : Nat) : Value :=
  .foreign "date" s!"datetime.date({year}, {month}, {day})" false

/-- The date that a plain scalar spells, if it has the form of one: four digits, two and two, with
dashes between them. -/
def date? (cs : List Char) : Option (Except Fault Value) :=
  match cs with
  | [a, b, c, d, '-', e, f, '-', g, h] =>
    if [a, b, c, d, e, f, g, h].all isAsciiDigit then
      let year := digitsValue [a, b, c, d]
      let month := digitsValue [e, f]
      let day := digitsValue [g, h]
      some <| match checkDate year month day with
        | .ok () => .ok (dateValue year month day)
        | .error fault => .error (.date fault)
    else none
  | _ => none

/-! ### Scalars -/

/-- The value of a plain scalar. What is no null, boolean, number or date is a text; only an equals
sign and a merge mark are neither. -/
def resolve (cs : List Char) : Except Fault Value :=
  let s := String.ofList cs
  if ["", "~", "null", "Null", "NULL"].contains s then .ok .null
  else if ["true", "True", "TRUE"].contains s then .ok (.bool true)
  else if ["false", "False", "FALSE"].contains s then .ok (.bool false)
  else if ["=", "<<"].contains s then .error .malformed
  else match double? cs with
    | some x => x.map .float
    | none => match integer? cs with
      | some n => n.map .int
      | none => (date? cs).getD (.ok (.text s))

/-- A code point of a text shown between two marks. A surrogate is spelled by its number. -/
def displayCode (mark : Char) (code : Nat) : List Char :=
  if code.isValidChar then displayChar mark (Char.ofNat code) else '\\' :: 'u' :: hex 4 code

/-- The text of code points. Texts hold no surrogates, so with them only its looks are known. -/
def textOfCodes (codes : List Nat) : Value :=
  let chars := (codes.filter fun n => n.isValidChar).map Char.ofNat
  if codes.all fun n => n.isValidChar then .text (String.ofList chars)
  else
    let mark := displayMark chars
    .foreign "str" (String.ofList (mark :: codes.flatMap (displayCode mark) ++ [mark])) false

/-- The value of a scalar. -/
def Scalar.value : Scalar → Except Fault Value
  | .plain text => resolve text
  | .quoted codes => .ok (textOfCodes codes)

end ConditionalStyle.Settings.Yaml
