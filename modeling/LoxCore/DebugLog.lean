/-!
The debug file. It is opened by the first line written in a run and closed after the run; what it
held before the first line of all is discarded, and later runs add to it.
-/
namespace LoxCore

/-- A debug file and what is known of its use. -/
structure DebugLog where
  /-- The text of the file, if there is a file. -/
  file : Option String
  /-- Whether a line has ever been written. -/
  started : Bool := false
  isOpen : Bool := false
deriving DecidableEq, Repr

namespace DebugLog

/-- Open the file, empty if nothing was ever written. -/
def opened (log : DebugLog) : DebugLog :=
  if log.isOpen then log
  else ⟨some (if log.started then log.file.getD "" else ""), true, true⟩

/-- Write one line. -/
def write (log : DebugLog) (line : String) : DebugLog :=
  { log.opened with file := some (log.opened.file.getD "" ++ line ++ "\n") }

def close (log : DebugLog) : DebugLog :=
  { log with isOpen := false }

/-- Write the lines of one run. -/
def record (log : DebugLog) (lines : List String) : DebugLog :=
  (lines.foldl write log).close

end DebugLog

end LoxCore
