import ConditionalStyle.Assembly.Compile
import ConditionalStyle.Expression.Eval

/-!
# From the text of a stylesheet

The text of a stylesheet is read, compiled and, where names are given, evaluated.

## Main definitions

* `SourceError`: why a text cannot be compiled.
* `compileSource`: the expression of a text.
* `renderSource`: the plain stylesheet that a text stands for when names have values.
-/

namespace ConditionalStyle

/-- Why the text of a stylesheet cannot be compiled. -/
inductive SourceError where
  | malformed (error : Stylesheet.SyntaxError)
  | refused (error : Assembly.CompileError)

/-- The wording of an error. -/
def SourceError.message : SourceError → String
  | .malformed e => e.message
  | .refused e => e.message

/-- The tree of a text. -/
def parseSource (text : String) : Except SourceError Stylesheet.Node :=
  (Stylesheet.parse text).mapError .malformed

/-- The expression of a tree. -/
def compileNode (options : Settings.Options) (n : Stylesheet.Node) :
    Except SourceError Assembly.Compiled :=
  (Assembly.compileTree options n).mapError .refused

/-- The expression of a text. -/
def compileSource (options : Settings.Options) (text : String) :
    Except SourceError Assembly.Compiled :=
  parseSource text >>= compileNode options

/-- The plain stylesheet that a text stands for, and what the host was asked on the way to it. -/
def renderSource (options : Settings.Options) (text : String) (names : Expression.Namespace) :
    Except SourceError (Expression.Outcome String) := do
  let compiled ← compileSource options text
  return Expression.render compiled.expression names

end ConditionalStyle
