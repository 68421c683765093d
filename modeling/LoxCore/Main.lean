import LoxCore.CommandLine.Run

/-!
The program. It looks up the paths that a task needs, does the task, and shows and writes what came of
it. At the prompt, lines are read one by one.
-/
namespace LoxCore.CommandLine

/-- The number by which the system refuses to read a directory as a file. -/
def directoryRefusal : UInt32 := 21

/-- The number by which the system refuses a path that is too long. -/
def lengthRefusal : UInt32 := 0 - 36

/-- Read a file. What is neither a file nor a directory counts as missing. -/
def look (path : Path) : IO Finding := do
  try
    return .file (← IO.FS.readBinFile path.text)
  catch
    | .inappropriateType _ number _ =>
      return if number = directoryRefusal then .directory else .missing
    | .invalidArgument _ number _ =>
      return if number = lengthRefusal then .nameTooLong else .missing
    | _ => return .missing

/-- Look up some paths. -/
def lookAll (paths : List Path) : IO Lookup := do
  let found ← paths.mapM fun path => return (path, ← look path)
  return fun path => (found.lookup path).getD .missing

def writeFiles (written : List (Path × String)) : IO Unit :=
  written.forM fun (path, text) => IO.FS.writeFile path.text text

/-- Show the user what an effect printed, write its files, and turn its ending into a status. -/
def Effect.deliver (effect : Effect) : IO UInt32 := do
  writeFiles effect.written
  IO.print effect.out
  IO.eprint effect.err
  match effect.ending with
  | .status code => return UInt32.ofNat code
  | .stuck s => failWith s.message
  | .notText => failWith "the script is not UTF-8 text"
  | .numberTooLarge => failWith "an integer is too large for a number"
  | .isDirectory => failWith "a directory stands where a file is needed"
  | .nameTooLong => failWith "the name of a file is too long"
where
  failWith (message : String) : IO UInt32 := do
    IO.eprintln message
    return 1

/-- Serve the prompt until the input ends. -/
partial def converse (session : Session) (find : Lookup) : IO UInt32 := do
  let output ← IO.getStdout
  output.putStr promptMark
  output.flush
  let line ← (← IO.getStdin).getLine
  match Text.lines line.toList with
  | [] =>
    output.putStr "\n"
    return 0
  | characters :: _ =>
    let run := session.run (String.ofList characters)
    let effect := ofRun find run
    let status ← effect.deliver
    match effect.ending with
    | .status _ => converse run.session find
    | _ => return status

def Task.start (task : Task) (session : Session) : IO UInt32 := do
  let find ← lookAll task.paths
  match task with
  | .prompt => converse session find
  | _ => (task.perform session find "").deliver

end LoxCore.CommandLine

open LoxCore CommandLine in
/-- Run the command line. -/
def main (arguments : List String) : IO UInt32 := do
  match Invocation.ofArguments arguments with
  | .request r => r.task.start r.session
  | _ => (CommandLine.run arguments (fun _ => .missing) "").deliver
