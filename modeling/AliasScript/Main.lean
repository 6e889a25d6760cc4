import AliasScript.Run.Console

/-!
# The command line

Runs the script file that is named, or reads lines from a prompt.
-/

namespace AliasScript

open Console

def emit (o : Output) : IO Unit := do
  let stream ← match o.topic with
    | .stdout => IO.getStdout
    | .stderr => IO.getStderr
  stream.putStr o.text
  stream.flush

/-- Ends the program; a fault that nothing handles shows its wording. -/
def leave : Exit → IO UInt32
  | .code n => return n.toUInt32
  | .fault f => do
    emit (complain ((f.message?).getD "the interpreter cannot go on"))
    return 1

/-- Reads typed lines and runs each before the next is read. -/
partial def talk (r : Runner) : IO UInt32 := do
  emit prompt
  let line ← (← IO.getStdin).getLine
  if line.isEmpty then
    emit farewell
    return 0
  let (outputs, next) := runLine r line
  outputs.forM emit
  match next with
  | .more after => talk after
  | .quit e => leave e

def fileText? (path : String) : IO (Option String) := do
  try
    return some (← IO.FS.readFile path)
  catch
    | .noFileOrDirectory .. => return none
    | e => throw e

def runPath (path : String) : IO UInt32 := do
  let (outputs, e) := match ← fileText? path with
    | some text => runFile text
    | none => missingFile path
  outputs.forM emit
  leave e

end AliasScript

def main (args : List String) : IO UInt32 := do
  match AliasScript.Console.scriptPath? args with
  | some path => AliasScript.runPath path
  | none => do
    AliasScript.Console.greeting.forM AliasScript.emit
    AliasScript.talk (.fresh true)
