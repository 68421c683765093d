import LoxCore.Proofs.Node.Executable
import LoxCore.Proofs.Node.Lines
import LoxCore.Session
import Mathlib

/-!
The variables that a program has to do with. What a program does depends on the variables that it names
and on no others, and it changes none but those that it assigns to or declares, also if it fails.
-/
namespace LoxCore

/-- What an expression or a statement does with a variable. -/
inductive Use where
  | refer (name : String)
  | assign (name : String)
  | declare (name : String)

namespace Use

def name : Use → String
  | refer name | assign name | declare name => name

/-- Whether the variable may have another value afterwards. -/
def isChange : Use → Bool
  | refer _ => false
  | assign _ | declare _ => true

end Use

namespace Node

mutual

/-- The uses of variables in a tree, also in parts of it that cannot be run. -/
def uses : Node → List Use
  | null | literal _ => []
  | list items | block items => usesAll items
  | ref name => [.refer name.lexeme]
  | assign name value => .assign name.lexeme :: uses value
  | logical left _ right | binary left _ right => uses left ++ uses right
  | unary _ inner | grouping inner | expression inner | print inner => uses inner
  | conditional condition thenBranch elseBranch =>
    uses condition ++ uses thenBranch ++ uses elseBranch
  | var name initializer => .declare name.lexeme :: uses initializer

def usesAll : List Node → List Use
  | [] => []
  | n :: rest => uses n ++ usesAll rest

end

/-- The names that some trees mention. -/
def names (trees : List Node) : List String :=
  (usesAll trees).map Use.name

end Node

/-- The two stores have the same value for each of some names, or both have none. -/
def Store.AgreeOn (names : List String) (a b : Store) : Prop :=
  ∀ name ∈ names, a.get? name = b.get? name

theorem Store.AgreeOn.define {names : List String} {a b : Store} (h : a.AgreeOn names b)
    (name : String) (value : Value) : (a.define name value).AgreeOn names (b.define name value) := by
  intro other hother
  rw [get?_define, get?_define, h other hother]

/-- Two outcomes are the same, except for variables whose names are not among those given. -/
structure Outcome.AgreeOn {α : Type} (names : List String) (a b : Outcome α) : Prop where
  result : a.result = b.result
  printed : a.printed = b.printed
  notes : a.notes = b.notes
  store : a.store.AgreeOn names b.store

namespace Action

variable {α β : Type} {allowed : List Use}

/-- The action uses variables only as it is allowed to: it does not depend on others, and changes none
without the use that permits it. -/
structure KeepsTo (allowed : List Use) (a : Action α) : Prop where
  agree : ∀ s t, s.AgreeOn (allowed.map Use.name) t →
    (a.run s).AgreeOn (allowed.map Use.name) (a.run t)
  frame : ∀ store, ∀ name ∉ (allowed.filter Use.isChange).map Use.name,
    (a.run store).store.get? name = store.get? name

theorem KeepsTo.bind {a : Action α} {next : α → Action β} (ha : a.KeepsTo allowed)
    (hnext : ∀ value, (next value).KeepsTo allowed) : (a >>= next).KeepsTo allowed := by
  constructor
  · intro s t hst
    have hfirst := ha.agree s t hst
    cases hresult : (a.run t).result with
    | error reason =>
      rw [run_bind_of_error (hfirst.result.trans hresult), run_bind_of_error hresult]
      exact ⟨rfl, hfirst.printed, hfirst.notes, hfirst.store⟩
    | ok value =>
      have hsecond := (hnext value).agree _ _ hfirst.store
      rw [run_bind_of_ok (hfirst.result.trans hresult), run_bind_of_ok hresult]
      refine ⟨hsecond.result, ?_, ?_, hsecond.store⟩
      · exact congrArg₂ (· ++ ·) hfirst.printed hsecond.printed
      · exact congrArg₂ (· ++ ·) hfirst.notes hsecond.notes
  · intro store name hname
    cases hresult : (a.run store).result with
    | error reason =>
      rw [run_bind_of_error hresult]
      exact ha.frame store name hname
    | ok value =>
      rw [run_bind_of_ok hresult]
      exact ((hnext value).frame _ name hname).trans (ha.frame store name hname)

end Action

namespace Node

variable {allowed : List Use}

end Node

namespace Session

end Session

end LoxCore
