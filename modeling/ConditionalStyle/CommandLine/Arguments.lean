import ConditionalStyle.Decimal.Reading

/-!
# Arguments

The program is called with options of its own, the name of a command, and what the command needs:
one source and options. Options have long spellings, which may be cut short as long as only one
option is meant, and a few have short ones.

## Main definitions

* `Flag`, `Action`: the options and the commands.
* `classify`: what an argument is, when only some options are known.
* `Command`, `Request`: what is asked for.
* `Request.read`: the request that arguments make, if they make one.
-/

namespace ConditionalStyle.CommandLine

/-- The options. -/
inductive Flag where
  | help
  | version
  | verbose
  | config
  | concatLimit
  | assignment
deriving DecidableEq, Repr

namespace Flag

/-- The long spelling of an option. -/
def long : Flag → String
  | .help => "--help"
  | .version => "--version"
  | .verbose => "--verbose"
  | .config => "--config"
  | .concatLimit => "--concat-limit"
  | .assignment => "--set"

/-- The letter of the short spelling of an option. -/
def letter? : Flag → Option Char
  | .help => some 'h'
  | .version => some 'v'
  | _ => none

/-- Whether an option comes with a value. -/
def takesValue : Flag → Bool
  | .config | .concatLimit | .assignment => true
  | _ => false

end Flag

/-- The commands. -/
inductive Action where
  | compile
  | render
  | report
deriving DecidableEq, Repr

/-- The command of a name. Names of commands are never cut short. -/
def Action.ofName? (name : String) : Option Action :=
  if name = "compile" then some .compile
  else if name = "render" then some .render
  else if name = "report" then some .report
  else none

/-- The options that stand before the name of a command. -/
def generalFlags : List Flag := [.help, .version, .verbose]

/-- The options of a command. -/
def Action.flags : Action → List Flag
  | .render => [.help, .config, .concatLimit, .assignment]
  | _ => [.help, .config, .concatLimit]

/-! ### What an argument is -/

/-- What an argument is: something that is no option; a long option, perhaps with a value after an
equals sign; a short option, perhaps with letters after it; something that looks like an option and
is none; or a short form of several options. -/
inductive Argument where
  | plain
  | long (flag : Flag) (attached : Option String)
  | short (flag : Flag) (attached : Option String)
  | unknown
  | ambiguous
deriving DecidableEq, Repr

/-- Whether what follows a minus makes it a negative number. One line end after it is let pass. -/
def isNumberBody (cs : List Char) : Bool :=
  let body := if cs.getLast? = some '\n' then cs.dropLast else cs
  let rest := body.dropWhile Text.isDigit
  match rest with
  | [] => !body.isEmpty
  | '.' :: places => !places.isEmpty && places.all Text.isDigit
  | _ => false

/-- An argument that no known option explains. Negative numbers and texts with spaces are no
options. -/
def classifyOther (body : List Char) : Argument :=
  if isNumberBody body || body.contains ' ' then .plain else .unknown

/-- The options among the known ones whose long spelling begins as given. -/
def completions (flags : List Flag) (start : List Char) : List Flag :=
  flags.filter fun f => start.isPrefixOf f.long.toList

/-- The option among the known ones that has a letter. -/
def ofLetter? (flags : List Flag) (c : Char) : Option Flag :=
  flags.find? fun f => f.letter? = some c

/-- A long option, given with what follows its first character. A whole spelling is never taken for
the beginning of another one. -/
def classifyLong (flags : List Flag) (body : List Char) : Argument :=
  let start := '-' :: body.takeWhile (· != '=')
  let attached := match body.dropWhile (· != '=') with
    | [] => none
    | _ :: value => some (String.ofList value)
  match flags.find? fun f => f.long.toList = start with
  | some f => .long f attached
  | none =>
    match completions flags start with
    | [] => classifyOther body
    | [f] => .long f attached
    | _ => .ambiguous

/-- What an argument is when only the given options are known. -/
def classify (flags : List Flag) (arg : String) : Argument :=
  match arg.toList with
  | '-' :: '-' :: rest => classifyLong flags ('-' :: rest)
  | '-' :: c :: rest =>
    match ofLetter? flags c, rest with
    | none, _ => classifyOther (c :: rest)
    | some f, [] => .short f none
    | some f, '=' :: letters => .short f (some (String.ofList letters))
    | some f, letters => .short f (some (String.ofList letters))
  | _ => .plain

/-- Whether letters after a short option are short options too. -/
def lettersKnown (flags : List Flag) : Option String → Bool
  | none => true
  | some letters => !letters.isEmpty && letters.toList.all fun c => (ofLetter? flags c).isSome

/-- The mark after which nothing is an option. -/
def separator : String := "--"

/-- Whether some argument before the separator is a short form of several options. -/
def hasAmbiguous (flags : List Flag) (args : List String) : Bool :=
  (args.takeWhile (· != separator)).any fun a => classify flags a = .ambiguous

/-! ### What is asked for -/

/-- A command with all it needs. -/
structure Command where
  action : Action
  verbose : Bool
  source : String
  config : Option String
  limit : Option Int
  assignments : List String
deriving DecidableEq, Repr

/-- What the arguments ask for. -/
inductive Request where
  | help
  | version
  | run (command : Command)
deriving DecidableEq, Repr

/-- The arguments of a command as far as they have been read. Something left over spoils the
whole, but help that is asked for later is still given. -/
structure Draft where
  source : Option String
  config : Option String
  limit : Option Int
  assignments : List String
  leftover : Bool

/-- Nothing read yet. -/
def Draft.start : Draft := ⟨none, none, none, [], false⟩

/-- Sets an option to a value. A later value of the configuration or of the limit replaces an earlier
one; assignments add up. -/
def Draft.set (d : Draft) (f : Flag) (value : String) : Option Draft :=
  match f with
  | .config => some { d with config := some value }
  | .concatLimit => (Decimal.readInt? value).map fun n => { d with limit := some n }
  | .assignment => some { d with assignments := d.assignments ++ [value] }
  | _ => none

/-- The command that a draft makes, if it is complete. -/
def Draft.command? (d : Draft) (action : Action) (verbose : Bool) : Option Command :=
  match d.source with
  | some source =>
    if d.leftover then none
    else some ⟨action, verbose, source, d.config, d.limit, d.assignments⟩
  | none => none

/-- Reads the arguments of a command. The outcome without a draft asks for help. -/
def Draft.read (flags : List Flag) (d : Draft) : List String → Option (Option Draft)
  | [] => some (some d)
  | arg :: rest =>
    if arg = separator then
      match d.source, rest with
      | none, [source] => some (some { d with source := some source })
      | _, _ => none
    else
      match classify flags arg with
      | .plain =>
        match d.source with
        | some _ => Draft.read flags { d with leftover := true } rest
        | none =>
          let d := { d with source := some arg }
          if rest = [separator] then some (some d) else Draft.read flags d rest
      | .unknown => Draft.read flags { d with leftover := true } rest
      | .ambiguous => none
      | .short f letters => if f = .help && lettersKnown flags letters then some none else none
      | .long f (some value) =>
        if f.takesValue then
          match d.set f value with
          | some d => Draft.read flags d rest
          | none => none
        else none
      | .long f none =>
        if f.takesValue then
          match rest with
          | [] => none
          | value :: rest =>
            if value ≠ separator && classify flags value = .plain then
              match d.set f value with
              | some d => Draft.read flags d rest
              | none => none
            else none
        else some none

/-- Reads the arguments of a command into a request. -/
def Request.readCommand (action : Action) (verbose leftover : Bool) (args : List String) :
    Option Request :=
  if hasAmbiguous action.flags args then none
  else
    match Draft.read action.flags { Draft.start with leftover := leftover } args with
    | none => none
    | some none => some .help
    | some (some d) => (d.command? action verbose).map .run

/-- Reads the options before a command, and the command. Help and the version are given as soon as
they are asked for. -/
def Request.readGeneral (verbose leftover : Bool) : List String → Option Request
  | [] => none
  | arg :: rest =>
    if arg = separator then none
    else
      match classify generalFlags arg with
      | .plain =>
        match Action.ofName? arg with
        | some action => Request.readCommand action verbose leftover rest
        | none => none
      | .unknown => Request.readGeneral verbose true rest
      | .short f letters =>
        if lettersKnown generalFlags letters then some (if f = .help then .help else .version)
        else none
      | .long .help none => some .help
      | .long .version none => some .version
      | .long .verbose none => Request.readGeneral true leftover rest
      | _ => none

/-- The request that arguments make, if they make one. -/
def Request.read (args : List String) : Option Request :=
  if hasAmbiguous generalFlags args then none else Request.readGeneral false false args

end ConditionalStyle.CommandLine
