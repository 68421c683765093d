import LoxCore.Text.Digit

/-!
Command line arguments. Long options may be shortened as long as one option alone fits, and take
their value from behind an equals sign or from the next argument. Flags of one letter may follow each
other behind one minus sign. Arguments take effect one after the other, and an argument that is one
too many counts only in the end, so a call for help before that is answered.
-/
namespace LoxCore.CommandLine

/-- What to do with the syntax tree of a file instead of running a script. -/
inductive TreeMode where
  /-- Print the statements of a script. -/
  | print
  /-- Save the statements of a script as JSON. -/
  | emit
  /-- Run saved statements. -/
  | run
deriving DecidableEq, Repr

/-- The options that take no value. -/
inductive Flag where
  | verbose
  | help
deriving DecidableEq, Repr

/-- The flag of a letter. -/
def Flag.ofLetter? : Char → Option Flag
  | 'v' => some verbose
  | 'h' => some help
  | _ => none

/-- The long options. -/
inductive LongOption where
  | help
  | tree (mode : TreeMode)
deriving DecidableEq, Repr

def LongOption.name : LongOption → String
  | help => "--help"
  | tree .print => "--print-ast"
  | tree .emit => "--emit-ast"
  | tree .run => "--ast"

def LongOption.all : List LongOption :=
  [help, tree .print, tree .emit, tree .run]

/-- What an argument is by its look alone. -/
inductive Argument where
  /-- A file name, or the value of an option before it. -/
  | plain
  | flags (flags : List Flag)
  | tree (mode : TreeMode) (value : Option String)
  /-- A flag with something behind it that is no flag. -/
  | misused
  /-- It looks like an option but is none. -/
  | unknown
  /-- More than one long option fits. -/
  | ambiguous
deriving DecidableEq, Repr

/-- The text before the first equals sign, and the text after it if there is one. -/
def splitEquals (cs : List Char) : List Char × Option (List Char) :=
  match cs.dropWhile (· ≠ '=') with
  | [] => (cs, none)
  | _ :: value => (cs.takeWhile (· ≠ '='), some value)

/-- A text without a line feed at its end. -/
def withoutBreak (cs : List Char) : List Char :=
  if cs.getLast? = some '\n' then cs.dropLast else cs

/-- Whether an argument is a negative number: a minus sign and digits, with or without a point before
the last of them. The digits may be of any script, and a line feed may follow. -/
def isNegativeNumber (cs : List Char) : Bool :=
  match withoutBreak cs with
  | '-' :: rest =>
    match rest.dropWhile Text.isDecimalDigit with
    | [] => !rest.isEmpty
    | '.' :: digits => !digits.isEmpty && digits.all Text.isDecimalDigit
    | _ => false
  | _ => false

/-- An argument that starts with a minus sign but fits no option. It is plain if it is a negative
number or holds a space. -/
def unfitting (cs : List Char) : Argument :=
  if isNegativeNumber cs || cs.contains ' ' then .plain else .unknown

/-- An argument that starts with two minus signs. -/
def classifyLong (cs : List Char) : Argument :=
  let (name, value) := splitEquals cs
  match LongOption.all.filter fun option => name.isPrefixOf option.name.toList with
  | [] => unfitting cs
  | [.help] => if value.isSome then .misused else .flags [.help]
  | [.tree mode] => .tree mode (value.map String.ofList)
  | _ => .ambiguous

/-- A flag and the letters behind it, which all have to be flags. -/
def flagsFrom (flag : Flag) (letters : List Char) : Argument :=
  match letters.mapM Flag.ofLetter? with
  | some more => .flags (flag :: more)
  | none => .misused

/-- An argument of one minus sign and a letter with more behind it. An equals sign may stand after the
first letter, but then not at the end. -/
def classifyShort (letter : Char) (rest : List Char) : Argument :=
  match Flag.ofLetter? letter, rest with
  | none, _ => unfitting ('-' :: letter :: rest)
  | some _, ['='] => .misused
  | some flag, '=' :: letters => flagsFrom flag letters
  | some flag, letters => flagsFrom flag letters

/-- What an argument is by its look alone. -/
def classify (argument : String) : Argument :=
  match argument.toList with
  | '-' :: '-' :: rest => classifyLong ('-' :: '-' :: rest)
  | '-' :: letter :: rest => classifyShort letter rest
  | _ => .plain

/-- What the arguments ask for. -/
structure Request where
  /-- The number of times that more detail was asked for. -/
  verbosity : Nat := 0
  /-- The tree mode with the file that was named for it last. -/
  tree : Option (TreeMode × String) := none
  script : Option String := none
deriving DecidableEq, Repr

/-- What a command line is. -/
inductive Invocation where
  | request (r : Request)
  | help
  | usageError
deriving DecidableEq, Repr

/-- Ask for a tree mode. Two different ones exclude each other. -/
def Request.withTree (r : Request) (mode : TreeMode) (file : String) : Option Request :=
  match r.tree with
  | some (other, _) => if other = mode then some { r with tree := some (mode, file) } else none
  | none => some { r with tree := some (mode, file) }

/-- What was asked for by the arguments before the ones that are still to be read. -/
structure Progress where
  request : Request := {}
  /-- Whether the argument read last named the script. -/
  scriptIsLast : Bool := false
  /-- Whether some argument was one too many. -/
  surplus : Bool := false

namespace Progress

/-- What a command line is, if no argument is left. -/
def finish (p : Progress) : Invocation :=
  if p.surplus then .usageError else .request p.request

/-- An argument that is neither an option nor the value of one. The first of them names the script. -/
def plain (p : Progress) (argument : String) : Progress :=
  match p.request.script with
  | none => { p with request := { p.request with script := some argument }, scriptIsLast := true }
  | some _ => { p with scriptIsLast := false, surplus := true }

/-- The arguments after a separator, which are all plain. A separator that the script does not touch
is one too many itself. -/
def afterSeparator (p : Progress) (rest : List String) : Invocation :=
  if p.request.script.isSome ∧ p.scriptIsLast = false then .usageError
  else (rest.foldl plain p).finish

/-- Go through the arguments. -/
def collect (p : Progress) : List String → Invocation
  | [] => p.finish
  | argument :: rest =>
    if argument = "--" then p.afterSeparator rest
    else
      match classify argument with
      | .plain => collect (p.plain argument) rest
      | .flags flags =>
        if flags.contains .help then .help
        else
          let verbosity := p.request.verbosity + flags.length
          collect { p with request := { p.request with verbosity }, scriptIsLast := false } rest
      | .tree mode (some file) =>
        match p.request.withTree mode file with
        | some request => collect { p with request, scriptIsLast := false } rest
        | none => .usageError
      | .tree mode none =>
        match rest with
        | [] => .usageError
        | file :: more =>
          if file = "--" ∨ classify file ≠ .plain then .usageError
          else
            match p.request.withTree mode file with
            | some request => collect { p with request, scriptIsLast := false } more
            | none => .usageError
      | .misused => .usageError
      | .unknown | .ambiguous => collect { p with scriptIsLast := false, surplus := true } rest

end Progress

/-- Read a command line. An ambiguous option before the separator spoils all of it. -/
def Invocation.ofArguments (arguments : List String) : Invocation :=
  if (arguments.takeWhile (· ≠ "--")).any fun argument => classify argument = .ambiguous then
    .usageError
  else Progress.collect {} arguments

end LoxCore.CommandLine
