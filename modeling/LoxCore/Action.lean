import LoxCore.Operation
import LoxCore.Store
import LoxCore.Node.Render

/-!
Actions of a running program: what it does to the store, prints and notes for the trace, and how it
ends. What was done before a stop stays done.
-/
namespace LoxCore

/-- A step of a run that the trace can show. -/
inductive Note where
  | executing (statement : Node)
  | defined (name : String) (value : Value)
  | assigned (name : String) (value : Value)
  | computed (left : Value) (operator : String) (right result : Value)

namespace Note

/-- The least level of detail at which the trace shows a step. -/
def level : Note → Nat
  | executing _ => 1
  | defined _ _ | assigned _ _ => 2
  | computed .. => 3

/-- The line that the trace shows. -/
def text : Note → String
  | executing statement => "execute " ++ statement.text
  | defined name value => "define " ++ name ++ " = " ++ value.text
  | assigned name value => "assign " ++ name ++ " = " ++ value.text
  | computed left operator right result =>
    "binary " ++ left.text ++ " " ++ operator ++ " " ++ right.text ++ " -> " ++ result.text

end Note

/-- What an action did. -/
structure Outcome (α : Type) where
  result : Except Stop α
  store : Store
  /-- The printed records, without the line feeds between them. -/
  printed : List String
  notes : List Note

/-- Something that a program does, from a given store on. -/
def Action (α : Type) : Type :=
  Store → Outcome α

namespace Action

variable {α β : Type}

/-- The outcome of an action from a given store on. -/
def run (a : Action α) (store : Store) : Outcome α :=
  a store

/-- Do nothing. -/
def done (value : α) : Action α :=
  fun store => ⟨.ok value, store, [], []⟩

/-- Stop the run. -/
def stop (reason : Stop) : Action α :=
  fun store => ⟨.error reason, store, [], []⟩

/-- One action and then another, unless the first stops. -/
def andThen (a : Action α) (next : α → Action β) : Action β := fun store =>
  match a store with
  | ⟨.error reason, store, printed, notes⟩ => ⟨.error reason, store, printed, notes⟩
  | ⟨.ok value, store, printed, notes⟩ =>
    let second := next value store
    { second with printed := printed ++ second.printed, notes := notes ++ second.notes }

instance : Monad Action where
  pure := done
  bind := andThen

/-- A result that may be a stop. -/
def ofResult : Except Stop α → Action α
  | .ok value => done value
  | .error reason => stop reason

/-- The value of a variable. -/
def read (name : Token) : Action Value := fun store =>
  match store.read name with
  | .ok value => ⟨.ok value, store, [], []⟩
  | .error d => ⟨.error (.fault d), store, [], []⟩

def assign (name : Token) (value : Value) : Action Unit := fun store =>
  match store.assign name value with
  | .ok changed => ⟨.ok (), changed, [], []⟩
  | .error d => ⟨.error (.fault d), store, [], []⟩

def define (name : String) (value : Value) : Action Unit :=
  fun store => ⟨.ok (), store.define name value, [], []⟩

def print (text : String) : Action Unit :=
  fun store => ⟨.ok (), store, [text], []⟩

/-- Note a step if the trace is detailed enough to show it. -/
def note (detail : Nat) (step : Note) : Action Unit :=
  fun store => ⟨.ok (), store, [], if step.level ≤ detail then [step] else []⟩

end Action

end LoxCore
