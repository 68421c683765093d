import LoxCore.Diagnostic
import LoxCore.Table

/-!
The store of a running program: one flat table from names to values.
-/
namespace LoxCore

/-- The variables that are defined, in the order of their first definition. -/
structure Store where
  entries : List (String × Value) := []
deriving DecidableEq

namespace Store

def get? (store : Store) (name : String) : Option Value :=
  store.entries.lookup name

/-- Define a variable. One that is defined already is overwritten. -/
def define (store : Store) (name : String) (value : Value) : Store :=
  ⟨Table.set name value store.entries⟩

/-- A definition is seen under its own name and changes no other. -/
theorem get?_define (store : Store) (name other : String) (value : Value) :
    (store.define name value).get? other = if other = name then some value else store.get? other := by
  simp [get?, define, Table.lookup_set]

/-- What is wrong with the use of a name that is not defined. -/
def undefined (name : Token) : Diagnostic :=
  .onToken name (.undefinedVariable name.lexeme)

/-- The value of the variable that a token names. -/
def read (store : Store) (name : Token) : Except Diagnostic Value :=
  match store.get? name.lexeme with
  | some value => .ok value
  | none => .error (undefined name)

/-- Overwrite the variable that a token names. Assignment never defines one. -/
def assign (store : Store) (name : Token) (value : Value) : Except Diagnostic Store :=
  match store.get? name.lexeme with
  | some _ => .ok (store.define name.lexeme value)
  | none => .error (undefined name)

/-- The variables in the order of their names, by the numbers of the characters. -/
def sorted (store : Store) : List (String × Value) :=
  store.entries.mergeSort fun a b => decide (a.1 ≤ b.1)

end Store

end LoxCore
