import ConditionalStyle.CommandLine.Run

/-!
# The program

The program reads the files that a command asks for, the environment and, where it is the source,
the standard input. It leaves the rest to `CommandLine.respond`.
-/

namespace ConditionalStyle.CommandLine

/-- The bytes of a file, if it can be read. -/
def fileBytes (path : String) : IO (Option (List UInt8)) := do
  try
    let bytes ← IO.FS.readBinFile path
    return some bytes.toList
  catch _ => return none

/-- All bytes of a stream. -/
partial def streamBytes (stream : IO.FS.Stream) (read : ByteArray) : IO ByteArray := do
  let chunk ← stream.read 65536
  if chunk.isEmpty then return read else streamBytes stream (read ++ chunk)

/-- The paths that a request may ask for. -/
def pathsOf : Option Request → List String
  | some (.run c) => [c.source, c.config.getD "", settingsName].filter (· != "")
  | _ => []

/-- Whether a request reads the standard input. -/
def readsInput : Option Request → Bool
  | some (.run c) => c.source = inputName
  | _ => false

/-- What a request sees. -/
def look (request : Option Request) : IO Surroundings := do
  let mut found := []
  for path in pathsOf request do
    if let some bytes ← fileBytes path then
      found := (path, bytes) :: found
  let files := found
  let input ← if readsInput request then streamBytes (← IO.getStdin) .empty else pure .empty
  let directory ← IO.currentDir
  let limit? ← IO.getEnv Settings.limitVariable
  let debug? ← IO.getEnv "CONDCSS_DEBUG"
  let host := Expression.Host.bare
  return ⟨fun path => files.lookup path, input.toList, directory.toString, limit?, debug?, host⟩

end ConditionalStyle.CommandLine

open ConditionalStyle.CommandLine in
/-- Answers the arguments of the program. -/
def main (args : List String) : IO UInt32 := do
  let w ← look (Request.read args)
  match respond w args with
  | .usage =>
    IO.eprintln "usage: condcss [-h] [-v] [--verbose] compile|render|report source [options]"
    return 2
  | .help =>
    IO.println "usage: condcss [-h] [-v] [--verbose] compile|render|report source [options]"
    return 0
  | .output o =>
    IO.print o.out
    IO.eprint o.err
    return o.exit.toUInt32
  | .fault refusal =>
    IO.eprintln refusal.message
    return 1
