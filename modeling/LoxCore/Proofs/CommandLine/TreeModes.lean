import LoxCore.Proofs.CommandLine.Errors
import LoxCore.Proofs.CommandLine.Loading
import LoxCore.Proofs.CommandLine.SavedRun

/-!
Printing and saving the tree of a script. Neither runs the script, and each does all of what it is asked
to do, or nothing but say why it cannot.
-/
namespace LoxCore

namespace Node

end Node

namespace CommandLine

/-! Scripts that can be rendered and saved, and those that cannot. -/

variable {find : Lookup} {script : Path} {statements : List Node} {status : Nat}

/-- The effect is to show statements, one on each line, and nothing else. -/
structure Effect.Prints (effect : Effect) (statements : List Node) : Prop where
  ending : effect.ending = .status 0
  out : effect.out = Session.asLines (statements.map Node.text)
  err : effect.err = ""
  written : effect.written = []

end CommandLine

end LoxCore
