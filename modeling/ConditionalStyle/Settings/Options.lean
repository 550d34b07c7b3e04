import ConditionalStyle.Decimal.Reading
import ConditionalStyle.Settings.Yaml.Fault
import ConditionalStyle.Value

/-!
# Options of the compiler

The compiler has one option: how many sums a chain of `+` may have before a new group is begun. It
is set by a settings file, by the environment or by the caller, each with its own checks.

## Main definitions

* `Options`, `Options.default`.
* `ConfigError`: why settings are refused.
* `Options.ofLimit`, `Options.ofEntries`: options from a single value and from a section of a file.
* `Options.withEnvironment`: the environment's say.
* `Options.ofFile`: options from the value that a file holds.
-/

namespace ConditionalStyle.Settings

/-- The options of the compiler. The limit of a chain is positive. -/
structure Options where
  concatLimit : Nat
  concatLimit_pos : 0 < concatLimit
deriving DecidableEq, Repr

/-- Chains of at most twenty. -/
def Options.default : Options := ⟨20, by decide⟩

instance : Inhabited Options := ⟨.default⟩

/-- Why settings are refused. Files are named by their paths, values by what messages show of
them. -/
inductive ConfigError where
  | notInteger (shown : String)
  | tooSmall (limit : Int)
  /-- A limit that is refused and holds an integer too long to be shown. -/
  | unshowable
  | unknownOptions (names : List String)
  /-- An unknown option whose name is no text. -/
  | unnamedOption
  | environmentNotInteger (shown : String)
  | invalidYaml (path : String)
  /-- A file whose form is right, but not what it spells. -/
  | unreadable (fault : Yaml.Fault)
  | notMapping (path : String)
  | sectionNotMapping (path : String)
deriving DecidableEq, Repr

/-- The variable of the environment that sets the limit. -/
def limitVariable : String := "CONDCSS_CONCAT_LIMIT"

/-- The wording of an error. -/
def ConfigError.message : ConfigError → String
  | .notInteger shown => s!"concat_limit must be an integer, got {shown}"
  | .tooSmall n => s!"concat_limit must be >= 1, got {n}"
  | .unshowable => Decimal.tooLongMessage Decimal.maxDigits none
  | .unknownOptions names => "Unknown compiler option(s): " ++ ", ".intercalate names
  | .unnamedOption => "sequence item 0: expected str instance"
  | .environmentNotInteger shown => s!"{limitVariable} must be an integer, got {shown}"
  | .invalidYaml path => s!"Invalid YAML in {path}"
  | .unreadable fault => fault.message
  | .notMapping path => s!"YAML must be a mapping: {path}"
  | .sectionNotMapping path => s!"'compiler' section must be a mapping: {path}"

namespace Options

/-- Options with a limit, which must be positive. -/
def ofInt (n : Int) : Except ConfigError Options :=
  if h : 0 < n.toNat then .ok ⟨n.toNat, h⟩
  else if Decimal.isWritable n then .error (.tooSmall n)
  else .error .unshowable

/-- Options with a limit given by a value, which must be an integer. -/
def ofLimit : Value → Except ConfigError Options
  | .int n => ofInt n
  | v =>
    match v.display? with
    | some shown => .error (.notInteger shown)
    | none => .error .unshowable

/-- The only name of an option. -/
def limitName : String := "concat_limit"

/-- The name that a key of a section is, if it is a text. A text with half of a pair in it, which no
message can hold, goes by its looks. -/
def name? : Value → Option String
  | .text s => some s
  | .foreign type shown _ => if type = "str" then some shown else none
  | _ => none

/-- Options given by the entries of a section. Unknown names are refused first, all at once and in
order. -/
def ofEntries (entries : List (Value × Value)) : Except ConfigError Options :=
  let unknown := (entries.map (·.1)).filter fun k => !Value.isKey limitName k
  if unknown.isEmpty then
    match Value.lookup? entries limitName with
    | none => .ok .default
    | some v => ofLimit v
  else
    match unknown.mapM name? with
    | some names => .error (.unknownOptions (names.mergeSort fun a b => !(b < a)))
    | none => .error .unnamedOption

/-- What the environment makes of options. A variable that is not set or blank changes nothing. -/
def withEnvironment (override? : Option String) (options : Options) : Except ConfigError Options :=
  match override? with
  | none => .ok options
  | some raw =>
    if (Text.strip raw).isEmpty then .ok options
    else
      match Decimal.readInt? (Text.strip raw) with
      | some n => ofInt n
      | none => .error (.environmentNotInteger (Text.display raw))

/-- The section of the compiler in the value that a file holds. A value that stands for nothing is
an empty mapping, both for the file and for the section. -/
def sectionOf (path : String) (file : Value) : Except ConfigError (List (Value × Value)) :=
  let entries? := if file.isFalsy then some [] else match file with
    | .dict entries => some entries
    | _ => none
  match entries? with
  | none => .error (.notMapping path)
  | some entries =>
    match Value.lookup? entries "compiler" with
    | none => .ok []
    | some v =>
      if v.isFalsy then .ok []
      else match v with
        | .dict entries => .ok entries
        | _ => .error (.sectionNotMapping path)

/-- Options from the value that a file holds, if there is a file, and from the environment. The file
must be right even where the environment overrides it. -/
def ofFile (path : String) (file? : Option Value) (override? : Option String) :
    Except ConfigError Options := do
  let entries ← match file? with
    | none => .ok []
    | some file => sectionOf path file
  let options ← ofEntries entries
  options.withEnvironment override?

end Options

end ConditionalStyle.Settings
