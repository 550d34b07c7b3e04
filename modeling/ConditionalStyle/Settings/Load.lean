import ConditionalStyle.Settings.Options
import ConditionalStyle.Settings.Yaml

/-!
# Loading settings

Settings are loaded from the text of a file, where there is one, and from the environment.

## Main definitions

* `sectionOfText`: what the text of a file says of the compiler.
* `load`: the options.
-/

namespace ConditionalStyle.Settings

/-- The value that the text of a file holds. Faults of form go without a reason. -/
def readFile (path text : String) : Except ConfigError Value :=
  match Yaml.read text with
  | .ok v => .ok v
  | .error .malformed => .error (.invalidYaml path)
  | .error fault => .error (.unreadable fault)

/-- The entries that the text of a file has for the compiler. -/
def sectionOfText (path text : String) : Except ConfigError (List (Value × Value)) :=
  readFile path text >>= Options.sectionOf path

/-- The options that a file, if there is one, and the environment give. -/
def load (path : String) (text? : Option String) (override? : Option String) :
    Except ConfigError Options :=
  match text? with
  | none => Options.ofFile path none override?
  | some text => do
    let file ← readFile path text
    Options.ofFile path (some file) override?

end ConditionalStyle.Settings
