import LoxCore.CommandLine.Options
import LoxCore.CommandLine.Files
import LoxCore.Node.Saved
import LoxCore.Session
import LoxCore.Text.Lines

/-!
What a command line does: run a script, print or save its syntax tree, run a saved tree, or serve a
prompt. Files are looked up by a function and written at the end, so every failure before that leaves
them as they were. Nothing can be written where a directory is.
-/
namespace LoxCore.CommandLine

/-- How the program ends. -/
inductive Ending where
  /-- With a status for the shell. -/
  | status (code : Nat)
  /-- On a tree that cannot be run. -/
  | stuck (s : Stuck)
  /-- On a script that is not UTF-8 text. -/
  | notText
  /-- On an integer beyond the range of numbers in a saved tree. -/
  | numberTooLarge
  /-- On a directory where a file is needed. -/
  | isDirectory
  /-- On a path that no file can have. -/
  | nameTooLong
deriving DecidableEq, Repr

/-- The status for arguments that make no sense. -/
def usageStatus : Nat := 2

/-- The status for a saved tree that cannot be loaded. -/
def malformedStatus : Nat := 64

/-- The status for a file that does not exist. -/
def missingStatus : Nat := 66

/-- What the program does, seen from outside. -/
structure Effect where
  ending : Ending
  out : String
  err : String
  /-- The files that are written, with their new texts. -/
  written : List (Path × String)

/-- The name of the debug file, in the directory in which the program runs. -/
def debugPath : Path := ⟨"", ["debug.txt"]⟩

/-- What is appended to the name of a script to name its saved tree. -/
def savedSuffix : String := ".ast.json"

/-- A look-up of files. -/
abbrev Lookup := Path → Finding

/-- An ending with nothing printed but a message, and no file written. -/
def failure (ending : Ending) (err : String) : Effect :=
  ⟨ending, "", err, []⟩

def missingFile (path : Path) : Effect :=
  failure (.status missingStatus) ("Error: file " ++ path.text ++ " not found\n")

/-- The contents of a file that a task starts from. -/
def readFile (find : Lookup) (path : Path) : Except Effect ByteArray :=
  match find path with
  | .missing => .error (missingFile path)
  | .directory => .error (failure .isDirectory "")
  | .nameTooLong => .error (failure .nameTooLong "")
  | .file contents => .ok contents

/-- The text of a script. -/
def readScript (find : Lookup) (path : Path) : Except Effect String :=
  match readFile find path with
  | .error effect => .error effect
  | .ok contents =>
    match Text.decode? contents with
    | some text => .ok text
    | none => .error (failure .notText "")

/-- The statements of a script without errors. -/
def readStatements (find : Lookup) (path : Path) : Except Effect (List Node) :=
  match readScript find path with
  | .error effect => .error effect
  | .ok text =>
    match Source.check text with
    | .ok statements => .ok statements
    | .error found => .error (failure (.status Session.staticError) (Session.reports found))

def nestedTooDeep (path : Path) : Effect :=
  failure (.status Session.staticError)
    ("Error: " ++ path.text ++ " is nested too deeply to render\n")

/-- Print the statements of a script, one a line. -/
def printTree (find : Lookup) (path : Path) : Effect :=
  match readStatements find path with
  | .error effect => effect
  | .ok statements =>
    match statements.mapM Node.render? with
    | some rendered => ⟨.status Session.finished, Session.asLines rendered, "", []⟩
    | none => nestedTooDeep path

/-- Save the statements of a script beside it, and print where. -/
def emitTree (find : Lookup) (path : Path) : Effect :=
  match readStatements find path with
  | .error effect => effect
  | .ok statements =>
    match Node.save? statements with
    | some saved =>
      let target := path.lengthen savedSuffix
      match find target with
      | .directory => failure .isDirectory ""
      | .nameTooLong => failure .nameTooLong ""
      | .missing | .file _ =>
        ⟨.status Session.finished, target.text ++ "\n", "", [(target, saved.write)]⟩
    | none => nestedTooDeep path

/-- The debug file, if anything was written to it. -/
def debugFile (session : Session) : List (Path × String) :=
  if session.log.started then [(debugPath, session.log.file.getD "")] else []

/-- Whether a directory stands where the debug file would be. -/
def debugIsBlocked (find : Lookup) : Bool :=
  match find debugPath with
  | .directory => true
  | _ => false

/-- What the program does if it makes one run and ends. The first line of the trace is written before
anything is evaluated, so if it cannot be written, nothing has been done. -/
def ofRun (find : Lookup) (run : Session.Run) : Effect :=
  if debugIsBlocked find && !run.notes.isEmpty then failure .isDirectory ""
  else
    let ending := match run.ending with
      | .status code => .status code
      | .stuck s => .stuck s
    ⟨ending, run.out, run.err, debugFile run.session⟩

def malformedTree (path : Path) : Effect :=
  failure (.status malformedStatus) ("Error: malformed AST file " ++ path.text ++ "\n")

/-- Run saved statements. Nothing is executed unless all of them load. -/
def runTree (session : Session) (find : Lookup) (path : Path) : Effect :=
  match readFile find path with
  | .error effect => effect
  | .ok contents =>
    match Text.decode? contents with
    | none => malformedTree path
    | some text =>
      match Node.loadText text with
      | .error (.unloadable .numberTooLarge) => failure .numberTooLarge ""
      | .error _ => malformedTree path
      | .ok statements => ofRun find (session.interpret statements).toRun

/-- Run a script. -/
def runScript (session : Session) (find : Lookup) (path : Path) : Effect :=
  match readScript find path with
  | .error effect => effect
  | .ok text => ofRun find (session.run text)

/-- What the prompt shows before each line. -/
def promptMark : String := "> "

/-- Run lines one after the other, each after a prompt. No error in a line ends the session; the end
of the lines does. -/
def serve (session : Session) (find : Lookup) : List String → Effect
  | [] => ⟨.status Session.finished, promptMark ++ "\n", "", debugFile session⟩
  | line :: rest =>
    let run := session.run line
    let effect := ofRun find run
    match effect.ending with
    | .status _ =>
      let more := serve run.session find rest
      { more with
        out := promptMark ++ effect.out ++ more.out
        err := effect.err ++ more.err }
    | _ => { effect with out := promptMark ++ effect.out }

/-- What there is to do. -/
inductive Task where
  | tree (mode : TreeMode) (file : Path)
  | script (file : Path)
  | prompt
deriving DecidableEq, Repr

/-- The task that a request sets. A file with an empty name counts as none, and a tree mode goes
before a script. -/
def Request.task (r : Request) : Task :=
  match r.tree.filter fun named => named.2 ≠ "", r.script.filter (· ≠ "") with
  | some (mode, file), _ => .tree mode (.ofString file)
  | none, some file => .script (.ofString file)
  | none, none => .prompt

/-- The paths that a task may look up. -/
def Task.paths : Task → List Path
  | tree .emit file => [file, file.lengthen savedSuffix]
  | tree _ file | script file => [file, debugPath]
  | prompt => [debugPath]

/-- Do a task in a new session. -/
def Task.perform (task : Task) (session : Session) (find : Lookup) (input : String) : Effect :=
  match task with
  | tree .print file => printTree find file
  | tree .emit file => emitTree find file
  | tree .run file => runTree session find file
  | script file => runScript session find file
  | prompt => serve session find ((Text.lines input.toList).map String.ofList)

/-- The session that a request starts with. -/
def Request.session (r : Request) : Session :=
  { detail := r.verbosity }

/-- How the program is called. -/
def usage : String :=
  "usage: lox [-h] [-v] [--print-ast FILE | --emit-ast FILE | --ast FILE] [script]\n"

/-- What a command line does. -/
def run (arguments : List String) (find : Lookup) (input : String) : Effect :=
  match Invocation.ofArguments arguments with
  | .request r => r.task.perform r.session find input
  | .help => ⟨.status Session.finished, usage, "", []⟩
  | .usageError => failure (.status usageStatus) usage

end LoxCore.CommandLine
