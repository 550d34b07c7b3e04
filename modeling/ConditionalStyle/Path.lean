/-!
# Names of files

A path is shown in its plain form: without empty parts and without parts that stay where they are.
Parts that go up are kept, since what they mean depends on the files that are there.

## Main definitions

* `Path.clean`: the plain form of a path.
-/

namespace ConditionalStyle.Path

/-- The root that a path starts from. Two slashes at the start are a root of their own; any other
number of them is the one root. -/
def root (path : List Char) : String :=
  match (path.takeWhile (· == '/')).length with
  | 0 => ""
  | 2 => "//"
  | _ => "/"

/-- The parts of a path that lead somewhere. -/
def parts (path : String) : List String :=
  (path.splitOn "/").filter fun part => part != "" && part != "."

/-- The plain form of a path. The place itself is a dot. -/
def clean (path : String) : String :=
  let plain := root path.toList ++ "/".intercalate (parts path)
  if plain.isEmpty then "." else plain

end ConditionalStyle.Path
