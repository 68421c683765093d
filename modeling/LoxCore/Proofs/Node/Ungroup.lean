import LoxCore.Proofs.Node.Lines

/-!
Groups and lines do not matter to evaluation. A tree without its groups evaluates like the tree
itself, and moving all tokens to one line moves the fault of a run to that line and changes nothing
else.
-/
namespace LoxCore

/-- The token on another line. -/
def Token.onLine (line : Int) (t : Token) : Token :=
  { t with line := line }

namespace Node

mutual

/-- A tree with all groups erased. -/
def ungroup : Node → Node
  | null => null
  | list items => list (ungroupAll items)
  | literal value => literal value
  | ref name => ref name
  | assign name value => assign name (ungroup value)
  | logical left operator right => logical (ungroup left) operator (ungroup right)
  | unary operator right => unary operator (ungroup right)
  | binary left operator right => binary (ungroup left) operator (ungroup right)
  | grouping inner => ungroup inner
  | block statements => block (ungroupAll statements)
  | expression inner => expression (ungroup inner)
  | conditional condition thenBranch elseBranch =>
    conditional (ungroup condition) (ungroup thenBranch) (ungroup elseBranch)
  | print inner => print (ungroup inner)
  | var name initializer => var name (ungroup initializer)

def ungroupAll : List Node → List Node
  | [] => []
  | n :: rest => ungroup n :: ungroupAll rest

end

mutual

/-- A tree with all its tokens on one line. -/
def onLine (line : Int) : Node → Node
  | null => null
  | list items => list (onLineAll line items)
  | literal value => literal value
  | ref name => ref (name.onLine line)
  | assign name value => assign (name.onLine line) (onLine line value)
  | logical left operator right =>
    logical (onLine line left) (operator.onLine line) (onLine line right)
  | unary operator right => unary (operator.onLine line) (onLine line right)
  | binary left operator right =>
    binary (onLine line left) (operator.onLine line) (onLine line right)
  | grouping inner => grouping (onLine line inner)
  | block statements => block (onLineAll line statements)
  | expression inner => expression (onLine line inner)
  | conditional condition thenBranch elseBranch =>
    conditional (onLine line condition) (onLine line thenBranch) (onLine line elseBranch)
  | print inner => print (onLine line inner)
  | var name initializer => var (name.onLine line) (onLine line initializer)

def onLineAll (line : Int) : List Node → List Node
  | [] => []
  | n :: rest => onLine line n :: onLineAll line rest

end

end Node

/-- Two outcomes are the same, except that a fault may be on another line. -/
structure Outcome.Agrees {α : Type} (a b : Outcome α) : Prop where
  store : a.store = b.store
  printed : a.printed = b.printed
  notes : a.notes = b.notes
  result : a.result = b.result ∨ ∃ c d, a.result = .error (.fault c) ∧
    b.result = .error (.fault d) ∧ c.code = d.code ∧ c.message = d.message ∧ c.place = d.place

/-- Outcomes agree if they are the same once their faults are on one line. -/
theorem Outcome.agrees_of_mapLine {α : Type} {line : Int} {a b : Outcome α}
    (h : a.mapLine (fun _ => line) = b.mapLine fun _ => line) : a.Agrees b := by
  simp only [mapLine, Outcome.mk.injEq] at h
  obtain ⟨hresult, hstore, hprinted, hnotes⟩ := h
  refine ⟨hstore, hprinted, hnotes, ?_⟩
  cases ha : a.result with
  | ok x =>
    cases hb : b.result with
    | ok y =>
      rw [ha, hb] at hresult
      exact .inl hresult
    | error t =>
      rw [ha, hb] at hresult
      cases hresult
  | error s =>
    cases hb : b.result with
    | ok y =>
      rw [ha, hb] at hresult
      cases hresult
    | error t =>
      rw [ha, hb] at hresult
      have hstop : s.mapLine (fun _ => line) = t.mapLine fun _ => line := Except.error.inj hresult
      cases s with
      | stuck s =>
        cases t with
        | stuck t => exact .inl (congrArg Except.error hstop)
        | fault d => cases hstop
      | fault c =>
        cases t with
        | stuck t => cases hstop
        | fault d =>
          simp only [Stop.mapLine, Stop.fault.injEq, Diagnostic.mk.injEq, true_and] at hstop
          obtain ⟨hcause, hplace⟩ := hstop
          exact .inr ⟨c, d, rfl, rfl, congrArg Diagnostic.Cause.code hcause,
            congrArg Diagnostic.Cause.message hcause, hplace⟩

namespace Node

theorem evaluate_ungroup (detail : Nat) (n : Node) :
    evaluate detail n.ungroup = evaluate detail n := by
  fun_induction evaluate detail n with
  | case1 | case2 => simp only [ungroup, evaluate]
  | case3 name value ih => simp only [ungroup, evaluate, ih]
  | case4 inner ih => rw [ungroup, ih]
  | case5 operator right ih => simp only [ungroup, evaluate, ih]
  | case6 left operator right ihleft ihright => simp only [ungroup, evaluate, ihleft, ihright]
  | case7 left operator right => simp only [ungroup, evaluate]
  | case8 n => cases n <;> first | rfl | simp_all

mutual

theorem onLine_eq_mapLines (line : Int) : ∀ n : Node, n.onLine line = n.mapLines fun _ => line
  | null | literal _ | ref _ => rfl
  | list items => congrArg list (onLineAll_eq_mapLines line items)
  | block items => congrArg block (onLineAll_eq_mapLines line items)
  | assign _ inner => congrArg (assign _) (onLine_eq_mapLines line inner)
  | unary _ inner => congrArg (unary _) (onLine_eq_mapLines line inner)
  | grouping inner => congrArg grouping (onLine_eq_mapLines line inner)
  | expression inner => congrArg expression (onLine_eq_mapLines line inner)
  | print inner => congrArg print (onLine_eq_mapLines line inner)
  | var _ inner => congrArg (var _) (onLine_eq_mapLines line inner)
  | logical left _ right => by
    rw [onLine, onLine_eq_mapLines line left, onLine_eq_mapLines line right]
    rfl
  | binary left _ right => by
    rw [onLine, onLine_eq_mapLines line left, onLine_eq_mapLines line right]
    rfl
  | conditional condition thenBranch elseBranch => by
    rw [onLine, onLine_eq_mapLines line condition, onLine_eq_mapLines line thenBranch,
      onLine_eq_mapLines line elseBranch]
    rfl

theorem onLineAll_eq_mapLines (line : Int) :
    ∀ items : List Node, onLineAll line items = mapTokensAll (Token.mapLine fun _ => line) items
  | [] => rfl
  | n :: rest => by
    rw [onLineAll, onLine_eq_mapLines line n, onLineAll_eq_mapLines line rest]
    rfl

end

/-- Trees that differ only in their groups and in the lines of their tokens evaluate alike. -/
theorem evaluate_agrees {line : Int} {n m : Node}
    (h : n.ungroup.onLine line = m.ungroup.onLine line) (detail : Nat) (store : Store) :
    ((evaluate detail n).run store).Agrees ((evaluate detail m).run store) := by
  rw [onLine_eq_mapLines, onLine_eq_mapLines] at h
  have hn := evaluate_mapLines (fun _ => line) detail n.ungroup
  have hm := evaluate_mapLines (fun _ => line) detail m.ungroup
  rw [evaluate_ungroup] at hn hm
  rw [h] at hn
  exact Outcome.agrees_of_mapLine (congrFun (hn.symm.trans hm) store)

end Node

end LoxCore
