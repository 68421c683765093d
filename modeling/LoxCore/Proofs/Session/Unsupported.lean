import LoxCore.Proofs.Node.Sorted
import LoxCore.Session
import Mathlib.Control.Monad.Basic

/-!
Constructs that cannot be run yet. A run that reaches one stops there with its fault. All that was done
on the way stays done, and nothing inside the construct is done.
-/
namespace LoxCore

/-- What a run has come to: the variables, and what was printed and noted on the way. -/
structure Progress where
  store : Store
  printed : List String
  notes : List Note

/-- Nothing was done yet. -/
def Progress.start (store : Store) : Progress :=
  ⟨store, [], []⟩

/-- The outcome of a run that stops where it is. -/
def Progress.stop {α : Type} (p : Progress) (reason : Stop) : Outcome α :=
  ⟨.error reason, p.store, p.printed, p.notes⟩

/-- What a run has come to that goes on after an action. -/
def Outcome.before {α : Type} (first : Outcome α) (p : Progress) : Progress :=
  ⟨p.store, first.printed ++ p.printed, first.notes ++ p.notes⟩

namespace Action

variable {α β : Type} {a : Action α} {next : α → Action β} {store : Store} {reason : Stop}
  {p : Progress}

end Action

namespace Node

/-- The fault of a construct that cannot be run yet. It is on the line of the operator of a logical
operation, and on that of the first token of a statement. -/
def unsupported? : Node → Option Diagnostic
  | logical _ operator _ => some (.onLine operator.line (.unsupported .logical))
  | block statements => some (.onLine (lineOfFirst (block statements).tokens) (.unsupported .block))
  | conditional condition thenBranch elseBranch =>
    some (.onLine (lineOfFirst (conditional condition thenBranch elseBranch).tokens)
      (.unsupported .conditional))
  | _ => none

/-- Evaluation of an expression comes to a part of it. The second operand of a binary operation is
reached only if the first has a value. -/
inductive Reaches (detail : Nat) : Store → Node → Node → Progress → Prop where
  | self (store : Store) (n : Node) : Reaches detail store n n (.start store)
  | assign {store : Store} (name : Token) {value part : Node} {p : Progress}
      (h : Reaches detail store value part p) : Reaches detail store (.assign name value) part p
  | grouping {store : Store} {inner part : Node} {p : Progress}
      (h : Reaches detail store inner part p) : Reaches detail store (.grouping inner) part p
  | unary {store : Store} (operator : Token) {right part : Node} {p : Progress}
      (h : Reaches detail store right part p) : Reaches detail store (.unary operator right) part p
  | left {store : Store} {left part : Node} (operator : Token) (right : Node) {p : Progress}
      (h : Reaches detail store left part p) :
      Reaches detail store (.binary left operator right) part p
  | right {store : Store} {left part right : Node} (operator : Token) {value : Value} {p : Progress}
      (hvalue : ((evaluate detail left).run store).result = .ok value)
      (h : Reaches detail ((evaluate detail left).run store).store right part p) :
      Reaches detail store (.binary left operator right) part
        (((evaluate detail left).run store).before p)

/-- The expression that a statement evaluates. -/
def operand? : Node → Option Node
  | expression inner | print inner => some inner
  | var _ null => none
  | var _ initializer => some initializer
  | _ => none

variable {detail : Nat} {store : Store} {n s part : Node} {statements : List Node} {p : Progress}
  {reason : Stop} {d : Diagnostic} {O : Operators}

/-! What stops a part stops the whole. -/

theorem operand?_var {initializer : Node} (h : initializer ≠ null) (name : Token) :
    (var name initializer).operand? = some initializer := by
  cases initializer <;> first | rfl | contradiction

theorem WellSorted.operand {inner : Node} (h : s.WellSorted O .statement)
    (hinner : s.operand? = some inner) : inner.WellSorted O .expression := by
  cases h with
  | expression h | print h =>
    cases hinner
    exact h
  | define name h =>
    rw [operand?_var h.ne_null] at hinner
    cases hinner
    exact h
  | _ => cases hinner

/-- Evaluation of an expression reaches a construct whose fault is the reason. -/
def StopsAtUnsupported (detail : Nat) (store : Store) (n : Node) (reason : Stop) : Prop :=
  ∃ part p d, Reaches detail store n part p ∧ part.unsupported? = some d ∧ reason = .fault d

theorem StopsAtUnsupported.imp {store' : Store} {n' : Node}
    (h : StopsAtUnsupported detail store n reason)
    (hreaches : ∀ part p, Reaches detail store n part p → ∃ p', Reaches detail store' n' part p') :
    StopsAtUnsupported detail store' n' reason := by
  obtain ⟨part, p, d, hpart, hd, hreason⟩ := h
  obtain ⟨p', hpart'⟩ := hreaches part p hpart
  exact ⟨part, p', d, hpart', hd, hreason⟩

end Node

namespace Session

end Session

end LoxCore
