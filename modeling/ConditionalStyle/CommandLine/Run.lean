import ConditionalStyle.CommandLine.Arguments
import ConditionalStyle.CommandLine.Assignment
import ConditionalStyle.Report
import ConditionalStyle.Settings.Load
import ConditionalStyle.Text.Utf8

/-!
# Running a command

A command reads its source, then its settings, and writes an expression, a plain stylesheet or a
report. What it sees of the files and of the environment is given to it, so that a run is a
function.

## Main definitions

* `Surroundings`: what a run sees.
* `Refusal`: why a run fails.
* `Run`: steps of a run, with the lines they log.
* `execute`: the text that a command writes.
* `respond`: the whole response to arguments.
-/

namespace ConditionalStyle.CommandLine

/-- What a run sees: the files, by the path that they are asked for; the standard input; the path of
the working directory; two variables of the environment; and the host of the names that are set,
which says what more can be done with their values. -/
structure Surroundings where
  file? : String → Option (List UInt8)
  input : List UInt8
  directory : String
  limit? : Option String
  debug? : Option String
  host : Expression.Host

/-- Why a run fails. -/
inductive Refusal where
  | noStylesheet (path : String)
  | noConfig (path : String)
  | undecodable (fault : Text.ByteFault)
  | settings (error : Settings.ConfigError)
  | source (error : SourceError)
  | assignment (error : AssignmentError)
  | expression (failure : Expression.Failure)

/-- The wording of a refusal. -/
def Refusal.message : Refusal → String
  | .noStylesheet path => s!"Stylesheet not found: {path}"
  | .noConfig path => s!"Config file not found: {path}"
  | .undecodable fault => fault.message
  | .settings e => e.message
  | .source e => e.message
  | .assignment e => e.message
  | .expression e => e.message

/-- Whether a refusal is no mistake of the user's. Such a refusal ends the program without a clean
message. -/
def Refusal.isFault : Refusal → Bool
  | .settings .unnamedOption => true
  | .settings (.unreadable .nestedKey) => true
  | .settings (.unreadable .hugeCharacter) => true
  | .source (.refused (.chain (.notBranch _))) => true
  | .source (.refused (.chain (.notBlock _))) => true
  | .source (.refused (.chain _)) => false
  | .source (.refused _) => true
  | .expression (.failed .tooLarge) => true
  | .expression (.failed .emptyChain) => true
  | .expression (.failed (.raised x)) => x.type != "ValueError"
  | _ => false

/-- Steps of a run. The lines logged so far are kept when a step fails. -/
abbrev Run := EStateM Refusal (List String)

namespace Run

/-- Logs a line. -/
def log (line : String) : Run Unit :=
  modify (· ++ [line])

/-- A result as a step. -/
def lift {ε α : Type} (refuse : ε → Refusal) : Except ε α → Run α
  | .ok a => pure a
  | .error e => throw (refuse e)

/-- The text that bytes hold, with one kind of line end. -/
def decode (bytes : List UInt8) : Run String := do
  let text ← lift .undecodable (Text.decodeUtf8 bytes)
  return Text.unifyNewlines text

end Run

/-- The name that stands for the standard input. -/
def inputName : String := "-"

/-- The name of the settings file that is looked for when none is given. -/
def settingsName : String := "condcss.yaml"

/-- The text of the source. -/
def readSource (w : Surroundings) (source : String) : Run String :=
  if source = inputName then Run.decode w.input
  else
    match w.file? source with
    | some bytes => Run.decode bytes
    | none => throw (.noStylesheet (Path.clean source))

/-- The path of the settings file and what it holds. A file that was asked for must be there. -/
def findSettings (w : Surroundings) (config : Option String) :
    Run (String × Option (List UInt8)) :=
  let path := config.getD ""
  if path.isEmpty then
    return (Path.clean (w.directory ++ "/" ++ settingsName), w.file? settingsName)
  else
    match w.file? path with
    | some bytes => return (Path.clean path, some bytes)
    | none => throw (.noConfig (Path.clean path))

/-- The entries that the settings file has for the compiler. -/
def readSection (path : String) : Option (List UInt8) → Run (List (Value × Value))
  | none => return []
  | some bytes => do
    let text ← Run.decode bytes
    let entries ← Run.lift .settings (Settings.sectionOfText path text)
    -- a line that cannot be shown is not logged
    if let some shown := (Value.dict entries).display? then
      Run.log s!"Loaded compiler options from {path}: {shown}"
    return entries

/-- The options of a command: those of the settings file, overridden by the environment, overridden
by the arguments. All of them must be right. -/
def readOptions (w : Surroundings) (c : Command) : Run Settings.Options := do
  let (path, file?) ← findSettings w c.config
  let entries ← readSection path file?
  let options ← Run.lift .settings (Settings.Options.ofEntries entries)
  let options ← Run.lift .settings (options.withEnvironment w.limit?)
  match c.limit with
  | none => return options
  | some n => Run.lift .settings (Settings.Options.ofInt n)

/-- The tree of the source. -/
def parseStep (text : String) : Run Stylesheet.Node := do
  let tree ← Run.lift .source (parseSource text)
  Run.log s!"Parsed stylesheet -> {tree.children.length} top-level nodes"
  return tree

/-- The expression of a tree. -/
def compileStep (options : Settings.Options) (tree : Stylesheet.Node) : Run Assembly.Compiled := do
  let compiled ← Run.lift .source (compileNode options tree)
  let length := compiled.expression.length
  Run.log s!"Compiled stylesheet -> {length} chars, {compiled.groupBreaks} group break(s)"
  return compiled

/-- The report of a tree. -/
def reportStep (options : Settings.Options) (source : String) (tree : Stylesheet.Node) :
    Run Report := do
  let compiled ← compileStep options tree
  let source? := if source = inputName then none else some source
  let report := Report.of options source? tree compiled
  let blocks := report.stats.conditionalBlocks
  let values := report.stats.runtimeValues
  Run.log s!"Report: {blocks} conditional block(s), {values} runtime value(s)"
  return report

/-- The text that a command writes. -/
def execute (w : Surroundings) (c : Command) : Run String := do
  let text ← readSource w c.source
  let options ← readOptions w c
  match c.action with
  | .compile =>
    let compiled ← compileStep options (← parseStep text)
    return compiled.expression ++ "\n"
  | .render =>
    let names ← Run.lift .assignment (namespaceOf c.assignments)
    let compiled ← compileStep options (← parseStep text)
    let rendered := Expression.render compiled.expression ⟨names, w.host⟩
    let plain ← Run.lift .expression rendered.result
    return plain ++ "\n"
  | .report =>
    let report ← reportStep options c.source (← parseStep text)
    return report.json ++ "\n"

/-- What a run puts out. -/
structure Output where
  exit : Nat
  out : String
  err : String
deriving DecidableEq, Repr

/-- The response to arguments: they make no sense, they ask for help, something is put out, or the
program has failed. -/
inductive Response where
  | usage
  | help
  | output (output : Output)
  | fault (refusal : Refusal)

/-- Whether lines that are logged are shown. -/
def showsLog (w : Surroundings) (c : Command) : Bool :=
  c.verbose || (w.debug?.getD "") != ""

/-- The lines of a log as they are shown. -/
def logText (lines : List String) : String :=
  String.join (lines.map fun line => "[DEBUG] " ++ line ++ "\n")

/-- The response to a command. -/
def runCommand (w : Surroundings) (c : Command) : Response :=
  match (execute w c).run [] with
  | .ok text lines => .output ⟨0, text, if showsLog w c then logText lines else ""⟩
  | .error refusal lines =>
    if refusal.isFault then .fault refusal
    else
      let shown := if showsLog w c then logText lines else ""
      .output ⟨2, "", shown ++ Text.stripEnd refusal.message ++ "\n"⟩

/-- The name and the version of the program. -/
def versionLine : String := "condcss " ++ version ++ "\n"

/-- The response to arguments. -/
def respond (w : Surroundings) (args : List String) : Response :=
  match Request.read args with
  | none => .usage
  | some .help => .help
  | some .version => .output ⟨0, versionLine, ""⟩
  | some (.run c) => runCommand w c

end ConditionalStyle.CommandLine
