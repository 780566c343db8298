import OpenApi.Inspection
/-! # The program

Reads what an inspection asks for and prints its report. Pages of the web are out of reach. -/
namespace OpenApi

partial def readAll (stream : IO.FS.Stream) (read : ByteArray) : IO ByteArray := do
  let chunk ← stream.read 65536
  if chunk.isEmpty then return read else readAll stream (read ++ chunk)

def readFile (path : String) : IO (Option (List UInt8)) := do
  try
    return some (← IO.FS.readBinFile path).toList
  catch _ => return none

def Command.source? : Command → Option Source
  | .version => none
  | .inspect _ i => some (.ofText i.source)

def surroundings (command : Option Command) : IO Surroundings := do
  let folder ← IO.currentDir
  let project ← readFile ProjectFile.name
  let source := command.bind Command.source?
  let input ← match source with
    | some .input => readAll (← IO.getStdin) .empty
    | _ => pure .empty
  let (path, file) ← match source with
    | some (.file path) => pure (path, ← readFile path)
    | _ => pure ("", none)
  return {
    folder := folder.toString
    input := String.ofList (Text.decodeReplacing input.toList)
    file asked := if asked = path then file else if asked = ProjectFile.name then project else none
    page _ := .unreachable "the web is out of reach" }

end OpenApi

open OpenApi in
def main (words : List String) : IO UInt32 := do
  let report := Command.run words (← surroundings (Command.ofWords? words))
  (← IO.getStdout).putStr report.output
  (← IO.getStderr).putStr report.messages
  return report.exitCode.toUInt32
