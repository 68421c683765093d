import LoxCore.Proofs.Node.Sorted
import LoxCore.Proofs.Node.Ungroup
import LoxCore.Session
import Mathlib.Control.Monad.Basic

/-!
Groups have no effect of their own. Statements without their groups look the same, do the same and fail
on the same lines, wherever the groups stood.
-/
namespace LoxCore

namespace Node

theorem ungroupAll_eq (items : List Node) : ungroupAll items = items.map ungroup := by
  induction items with
  | nil => rfl
  | cons n rest ih => rw [ungroupAll, ih, List.map_cons]

theorem textAll_eq (items : List Node) : textAll items = items.map text := by
  induction items with
  | nil => rfl
  | cons n rest ih => rw [textAll, ih, List.map_cons]

mutual

/-- A group adds no token to those inside it. -/
theorem tokens_ungroup : ∀ n : Node, n.ungroup.tokens = n.tokens
  | null | literal _ | ref _ => rfl
  | list items | block items => tokensAll_ungroupAll items
  | assign name inner | var name inner => congrArg (name :: ·) (tokens_ungroup inner)
  | unary operator inner => congrArg (operator :: ·) (tokens_ungroup inner)
  | grouping inner | expression inner | print inner => tokens_ungroup inner
  | logical left _ right | binary left _ right => by
    simp only [ungroup, tokens, tokens_ungroup left, tokens_ungroup right]
  | conditional condition thenBranch elseBranch => by
    simp only [ungroup, tokens, tokens_ungroup condition, tokens_ungroup thenBranch,
      tokens_ungroup elseBranch]

theorem tokensAll_ungroupAll : ∀ items : List Node, tokensAll (ungroupAll items) = tokensAll items
  | [] => rfl
  | n :: rest => by
    simp only [ungroupAll, tokensAll, tokens_ungroup n, tokensAll_ungroupAll rest]

end

mutual

theorem depth_ungroup_le : ∀ n : Node, n.ungroup.depth ≤ n.depth
  | null | literal _ | ref _ => Nat.le_refl _
  | list items | block items => Nat.succ_le_succ (depthAll_ungroupAll_le items)
  | assign _ inner | unary _ inner | expression inner | print inner | var _ inner =>
    Nat.succ_le_succ (depth_ungroup_le inner)
  | grouping inner => Nat.le_succ_of_le (depth_ungroup_le inner)
  | logical left _ right | binary left _ right => by
    have hleft := depth_ungroup_le left
    have hright := depth_ungroup_le right
    simp only [ungroup, depth]
    omega
  | conditional condition thenBranch elseBranch => by
    have hcondition := depth_ungroup_le condition
    have hthen := depth_ungroup_le thenBranch
    have helse := depth_ungroup_le elseBranch
    simp only [ungroup, depth]
    omega

theorem depthAll_ungroupAll_le : ∀ items : List Node, depthAll (ungroupAll items) ≤ depthAll items
  | [] => Nat.le_refl _
  | n :: rest => by
    have hn := depth_ungroup_le n
    have hrest := depthAll_ungroupAll_le rest
    simp only [ungroupAll, depthAll]
    omega

end

theorem isTooDeep_ungroup {n : Node} (h : n.isTooDeep = false) : n.ungroup.isTooDeep = false := by
  simp only [isTooDeep, decide_eq_false_iff_not, Nat.not_lt] at h ⊢
  exact Nat.le_trans (depth_ungroup_le n) h

theorem firstLine_ungroup (n : Node) : n.ungroup.firstLine = n.firstLine := by
  rw [firstLine_eq, firstLine_eq, tokens_ungroup]

variable {O : Operators} {category : Category}

/-- Something stands inside each group. -/
theorem WellSorted.ungroup_ne_null {n : Node} (h : n.WellSorted O category) : n.ungroup ≠ null := by
  induction h with
  | grouping _ ih => exact ih
  | _ => exact nofun

/-- Renderings show no groups. -/
theorem WellSorted.text_ungroup {n : Node} (h : n.WellSorted O category) :
    n.ungroup.text = n.text := by
  induction h with
  | literal | ref | declare => rfl
  | assign _ _ ih | unary _ _ ih | print _ ih => simp only [ungroup, text, ih]
  | logical _ _ _ ih₁ ih₂ | binary _ _ _ ih₁ ih₂ => simp only [ungroup, text, ih₁, ih₂]
  | grouping _ ih => exact ih
  | expression _ ih => exact ih
  | @block statements _ ih =>
    have hall : (statements.map ungroup).map text = statements.map text := by
      rw [List.map_map]
      exact List.map_congr_left ih
    simp only [ungroup, text, ungroupAll_eq, textAll_eq, hall]
  | conditional _ _ ih₁ ih₂ => simp only [ungroup, text, ih₁, ih₂]
  | conditionalElse _ _ h₃ ih₁ ih₂ ih₃ =>
    rw [ungroup, text_conditional h₃.ungroup_ne_null, text_conditional h₃.ne_null, ih₁, ih₂, ih₃]
  | define _ h ih => rw [ungroup, text_var h.ungroup_ne_null, text_var h.ne_null, ih]

/-- What a statement does without its groups. -/
theorem WellSorted.perform_ungroup {s : Node} (h : s.WellSorted O .statement) (detail : Nat) :
    perform detail s.ungroup = perform detail s := by
  have hline := firstLine_ungroup s
  cases h with
  | block | conditional | conditionalElse =>
    rw [ungroup] at hline ⊢
    rw [perform, perform, hline]
  | expression => rw [ungroup, perform, perform, evaluate_ungroup]
  | print => rw [ungroup, perform, perform, evaluate_ungroup]
  | declare => rfl
  | define _ h =>
    rw [ungroup, perform, perform, evaluateInitializer_of_ne_null h.ungroup_ne_null,
      evaluateInitializer_of_ne_null h.ne_null, evaluate_ungroup]

theorem render?_ungroup {s : Node} (h : s.WellSorted O category) {shown : String}
    (hshown : s.render? = some shown) : s.ungroup.render? = some shown := by
  unfold render? at hshown ⊢
  split at hshown
  · cases hshown
  · rename_i hdepth
    rw [Bool.not_eq_true] at hdepth
    rw [isTooDeep_ungroup hdepth, h.text_ungroup]
    exact hshown

end Node

theorem Outcome.mapLine_id {α : Type} (outcome : Outcome α) : outcome.mapLine id = outcome := by
  rcases outcome with ⟨(d | s) | value, store, printed, notes⟩ <;> rfl

theorem Outcome.Moves.result_id {α : Type} {a b : Outcome α} (h : Moves id a b) :
    b.result = a.result :=
  h.result.trans (congrArg Outcome.result a.mapLine_id)

namespace Session

/-- Statements of any of the twelve kinds of nodes, with any operators. Without their groups they are
rendered the same. They are executed the same, unless one nests too deep as it stands: to the same end,
with the same error on the same line if there is one, with the same output and the same lines in the
trace, and the session is the same afterwards. -/
theorem interpret_ungroup (session : Session) {statements : List Node}
    (h : ∀ s ∈ statements, s.WellSorted .any .statement) :
    (∀ s ∈ statements, ∀ shown, s.render? = some shown → s.ungroup.render? = some shown) ∧
      let grouped := session.interpret statements
      let ungrouped := session.interpret (statements.map Node.ungroup)
      (∀ reason, grouped.result = .error reason → ¬reason.IsTooDeep) →
        ungrouped.result = grouped.result ∧ ungrouped.printed = grouped.printed ∧
          ungrouped.notes.map Note.text = grouped.notes.map Note.text ∧
          ungrouped.session = grouped.session := by
  refine ⟨fun s hs shown => Node.render?_ungroup (h s hs), ?_⟩
  intro grouped ungrouped hdepth
  have hstatement (s : Node) (hs : s ∈ statements) (hshallow : s.isTooDeep = false) (store : Store) :
      Outcome.Moves id ((Node.execute session.detail s).run store)
        ((Node.execute session.detail s.ungroup).run store) := by
    refine Node.execute_moves id session.detail hshallow (Node.isTooDeep_ungroup hshallow)
      (h s hs).text_ungroup ?_
    rw [(h s hs).perform_ungroup, Outcome.mapLine_id]
  have hmoves := Node.interpret_moves id session.detail hstatement session.store hdepth
  refine ⟨hmoves.result_id, hmoves.printed, hmoves.notes, ?_⟩
  simp only [ungrouped, grouped, interpret, hmoves.store, hmoves.notes]

/-- Groups in the right side of an assignment, around an operand, and in the condition of a conditional,
whose first token they hold. -/
theorem interpret_ungroup_conditional :
    let name : Token := ⟨.identifier, "a", .nil, 4⟩
    let plus : Token := ⟨.plus, "+", .nil, 5⟩
    let sum : Node := .binary (.grouping (.assign name (.grouping (.literal (.string "x"))))) plus
      (.grouping (.grouping (.ref name)))
    let statements : List Node :=
      [.print sum, .conditional (.grouping (.ref name)) (.block [.print (.grouping (.ref name))]) .null]
    let session : Session := { detail := 3, store := Store.define {} "a" .nil }
    let grouped := session.interpret statements
    let ungrouped := session.interpret (statements.map Node.ungroup)
    (Node.print sum.ungroup).render? = some "print (a = x + a)" ∧
      ungrouped.result = grouped.result ∧ ungrouped.printed = grouped.printed ∧
      ungrouped.notes.map Note.text = grouped.notes.map Note.text ∧
      ungrouped.session = grouped.session ∧
      grouped.result = .error (.fault (.onLine 4 (.unsupported .conditional))) ∧
      grouped.printed = ["xx"] ∧ grouped.session.store.get? "a" = some (.string "x") ∧
      grouped.notes.map Note.text = ["execute print (a = x + a)", "assign a = x", "binary x + x -> xx",
        "execute if (a) \x7b print a \x7d"] := by
  intro name plus sum statements session grouped ungrouped
  have hname : (Node.grouping (.ref name)).WellSorted .any .expression := .grouping (.ref name)
  have hsorted : ∀ s ∈ statements, s.WellSorted .any .statement := by
    refine List.forall_mem_cons.mpr ⟨?_, List.forall_mem_singleton.mpr (.conditional hname ?_)⟩
    · exact .print (.binary trivial (.grouping (.assign name (.grouping (.literal _)))) (.grouping hname))
    · exact .block (List.forall_mem_singleton.mpr (.print hname))
  have hresult : grouped.result = .error (.fault (.onLine 4 (.unsupported .conditional))) := by
    decide +kernel
  have hdepth : ∀ reason, grouped.result = .error reason → ¬reason.IsTooDeep := by
    rintro reason hreason ⟨line, rfl⟩
    rw [hresult] at hreason
    cases hreason
  obtain ⟨hrender, hrun⟩ := interpret_ungroup session hsorted
  obtain ⟨hsame, hprinted, hnotes, hsession⟩ := hrun hdepth
  refine ⟨hrender _ List.mem_cons_self _ (by decide +kernel), hsame, hprinted, hnotes, hsession, hresult,
    ?_, ?_, ?_⟩ <;> decide +kernel

end Session

end LoxCore
