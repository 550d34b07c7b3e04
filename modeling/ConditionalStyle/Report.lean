import ConditionalStyle.Path
import ConditionalStyle.Source
import ConditionalStyle.Stylesheet.Stats

/-!
# The report of a compilation

A report holds the expression of a stylesheet, the options it was compiled with and what the
stylesheet contains. It is written as an indented JSON document.

## Main definitions

* `Report`, `Report.of`, `Report.ofTree`, `Report.ofSource`.
* `Report.json`: the document.
-/

namespace ConditionalStyle

/-- The version of the program. -/
def version : String := "0.1.0"

/-- The report of a compilation. The source is the path of the stylesheet if it has one. -/
structure Report where
  source : Option String
  compiled : Assembly.Compiled
  options : Settings.Options
  stats : Stylesheet.Stats

namespace Report

/-- The version of the form of reports. -/
def protocol : Nat := 1

/-- The length of the expression, in characters. -/
def length (r : Report) : Nat :=
  r.compiled.expression.length

/-- The report of a compiled tree. -/
def of (options : Settings.Options) (source : Option String) (n : Stylesheet.Node)
    (compiled : Assembly.Compiled) : Report :=
  ⟨source.map Path.clean, compiled, options, .ofTree n⟩

/-- The report of a tree. -/
def ofTree (options : Settings.Options) (source : Option String) (n : Stylesheet.Node) :
    Except SourceError Report :=
  (compileNode options n).map (of options source n)

/-- The report of a text. -/
def ofSource (options : Settings.Options) (source : Option String) (text : String) :
    Except SourceError Report :=
  parseSource text >>= ofTree options source

/-! ### The document -/

/-- A character inside a JSON text. Only quotes, backslashes and control characters are
escaped. -/
def jsonChar (c : Char) : String :=
  if c = '"' then "\\\""
  else if c = '\\' then "\\\\"
  else if c = '\n' then "\\n"
  else if c = '\r' then "\\r"
  else if c = '\t' then "\\t"
  else if c.toNat = 8 then "\\b"
  else if c.toNat = 12 then "\\f"
  else if c.toNat < 32 then "\\u" ++ String.ofList (Text.hex 4 c.toNat)
  else c.toString

/-- A JSON text. -/
def jsonText (s : String) : String :=
  "\"" ++ String.join (s.toList.map jsonChar) ++ "\""

/-- Lines between an opening and a closing mark, two places further in than the marks. -/
def jsonBlock (opening closing : String) (indent : Nat) (items : List String) : String :=
  if items.isEmpty then opening ++ closing
  else
    let margin := String.ofList (List.replicate (indent + 2) ' ')
    opening ++ "\n" ++ ",\n".intercalate (items.map (margin ++ ·)) ++ "\n"
      ++ String.ofList (List.replicate indent ' ') ++ closing

/-- A JSON object whose fields are in the given order. -/
def jsonObject (indent : Nat) (fields : List (String × String)) : String :=
  jsonBlock "\x7b" "\x7d" indent (fields.map fun f => jsonText f.1 ++ ": " ++ f.2)

/-- The document of a report. -/
def json (r : Report) : String :=
  jsonObject 0 [
    ("protocol", toString protocol),
    ("tool_version", jsonText version),
    ("source", (r.source.map jsonText).getD "null"),
    ("expression", jsonText r.compiled.expression),
    ("length", toString r.length),
    ("group_breaks", toString r.compiled.groupBreaks),
    ("options", jsonObject 2 [("concat_limit", toString r.options.concatLimit)]),
    ("stats", jsonObject 2 [
      ("conditional_blocks", toString r.stats.conditionalBlocks),
      ("conditional_rules", toString r.stats.conditionalRules),
      ("max_conditional_depth", toString r.stats.maxConditionalDepth),
      ("runtime_values", toString r.stats.runtimeValues),
      ("conditions", jsonBlock "[" "]" 4 (r.stats.conditions.map jsonText))])]

end Report

end ConditionalStyle
