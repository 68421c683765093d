import LoxCore.Proofs.Node.Effect
import LoxCore.Proofs.Session.Pieces

/-!
The names that are defined in a session. Whatever is done to a session, and whether it succeeds or
fails, a name is defined exactly if something that was done defined it, and it stays defined.
-/
namespace LoxCore

namespace Session

/-- What can be done to a session. The statements may come from anywhere, also from a saved tree or
from a text with errors. -/
inductive Operation where
  | run (source : String)
  | interpret (statements : List Node)
  | define (name : String) (value : Value)
  | get (name : Token)
  | assign (name : Token) (value : Value)

/-- The session after an action on its variables, which may fail. -/
def act {α : Type} (session : Session) (a : Action α) : Session :=
  { session with store := (a.run session.store).store }

/-- The session after an operation. -/
def perform (session : Session) : Operation → Session
  | .run source => (session.run source).session
  | .interpret statements => (session.interpret statements).session
  | .define name value => session.act (Action.define name value)
  | .get name => session.act (Action.read name)
  | .assign name value => session.act (Action.assign name value)

/-- The session after some operations, one after the other. -/
def performAll (session : Session) (operations : List Operation) : Session :=
  operations.foldl perform session

/-- The statements among some that are brought to their end. -/
def completed (session : Session) (statements : List Node) : List Node :=
  Node.completed session.detail session.store statements

end Session

end LoxCore
