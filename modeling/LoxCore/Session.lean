import LoxCore.Execution
import LoxCore.DebugLog
import LoxCore.Source

/-!
Sessions. Variables and the debug file live from one run to the next.
-/
namespace LoxCore

/-- The state between runs. -/
structure Session where
  /-- The level of detail of the trace. At zero there is none. -/
  detail : Nat
  store : Store := {}
  log : DebugLog := { file := none }

namespace Session

/-- The result of executing some statements in a session. -/
structure Performance where
  result : Except Stop Unit
  printed : List String
  notes : List Note
  session : Session

/-- Execute statements. -/
def interpret (session : Session) (statements : List Node) : Performance :=
  let outcome := (Node.interpret session.detail statements).run session.store
  { result := outcome.result
    printed := outcome.printed
    notes := outcome.notes
    session :=
      { session with
        store := outcome.store
        log := session.log.record (outcome.notes.map Note.text) } }

/-- How a run ends: with a status for the shell, or stuck on a tree that cannot be run. -/
inductive Ending where
  | status (code : Nat)
  | stuck (s : Stuck)
deriving DecidableEq, Repr

/-- The status of a run that came to its end. -/
def finished : Nat := 0

/-- The status of a source with errors, of which nothing is run. -/
def staticError : Nat := 65

/-- The status of a run that a fault ended. -/
def runtimeError : Nat := 70

/-- Records on lines of their own. -/
def asLines (records : List String) : String :=
  records.foldr (fun record rest => record ++ "\n" ++ rest) ""

/-- What the user sees of a run. -/
structure Run where
  ending : Ending
  out : String
  err : String
  notes : List Note
  session : Session

/-- What the user sees of the execution of some statements. -/
def Performance.toRun (p : Performance) : Run :=
  let out := asLines p.printed
  match p.result with
  | .ok () => ⟨.status finished, out, "", p.notes, p.session⟩
  | .error (.fault d) => ⟨.status runtimeError, out, d.report, p.notes, p.session⟩
  | .error (.stuck s) => ⟨.stuck s, out, "", p.notes, p.session⟩

/-- The reports of some diagnostics, one after the other. -/
def reports (found : List Diagnostic) : String :=
  String.join (found.map Diagnostic.report)

/-- Run a source text. If it has errors, all are reported and nothing is executed. -/
def run (session : Session) (source : String) : Run :=
  match Source.check source with
  | .error found => ⟨.status staticError, "", reports found, [], session⟩
  | .ok statements => (session.interpret statements).toRun

end Session

end LoxCore
