import LoxCore.Proofs.Grammar.Likeness
import LoxCore.Proofs.Node.Executable
import LoxCore.Proofs.Source.Rendering
import LoxCore.Proofs.Token.Line
import LoxCore.Session

/-!
How runs end. Whatever tokens are read, well formed or not, the statements found in them can be run,
so no source text makes a session do anything but end with a status.
-/
namespace LoxCore

namespace Grammar

/-- Each token of a class is like itself, and so is each expression that can be evaluated and has
tokens of the class only. -/
def Likeness.ofClass (P : Token → Prop) : Likeness where
  token s t := s = t ∧ P s
  node m n := m = n ∧ m.Evaluable P
  kind_eq h := congrArg Token.kind h.1
  literal h hv hw := by
    rw [h.1, hw] at hv
    obtain rfl := Option.some.inj hv
    exact ⟨rfl, .literal _⟩
  ref h _ := ⟨congrArg Node.ref h.1, .ref h.2⟩
  grouping h := ⟨congrArg Node.grouping h.1, .grouping h.2⟩
  unary h hkind hright := by
    refine ⟨congrArg₂ Node.unary h.1 hright.1, .unary h.2 ?_ hright.2⟩
    unfold isUnaryOperator at hkind
    split at hkind <;> simp_all [Value.unaryOperators]
  binary {r s _ _ _ _ _} h hkind hleft hright := by
    refine ⟨by rw [h.1, hleft.1, hright.1], .binary h.2 ?_ hleft.2 hright.2⟩
    revert hkind
    cases r <;> cases s.kind <;> decide
  assign h hvalue := by
    obtain ⟨hname, hclass⟩ := h
    cases hclass with
    | ref hclass => exact ⟨by rw [Node.ref.inj hname, hvalue.1], .assign hclass hvalue.2⟩
  target h := by rw [h.1]

theorem Likeness.executable_of_statement {P : Token → Prop} {m n : Node}
    (h : (ofClass P).Statement m n) : m.Executable P := by
  cases h with
  | expression h => exact .expression h.2
  | print h => exact .print h.2
  | declare hname => exact .declare hname.2
  | define hname _ h => exact .define hname.2 h.2

end Grammar

/-- All statements that are read from tokens can be run, also when there are errors among them. Their
tokens are among those that were read. -/
theorem Program.executable_of_mem {depth : Nat} {tokens : List Token} {s : Node}
    (h : s ∈ (ofTokensTo depth tokens).statements) : s.Executable (· ∈ tokens) := by
  have hlike : List.Forall₂ (Grammar.Likeness.ofClass (· ∈ tokens)).token
      (tokens.takeWhile fun t => t.kind ≠ .eof) (tokens.takeWhile fun t => t.kind ≠ .eof) :=
    List.forall₂_same.mpr fun t ht => ⟨rfl, (List.takeWhile_prefix _).subset ht⟩
  obtain ⟨statements, faults, hstatements, -, -⟩ := Grammar.Likeness.readAll_alike
    (Grammar.Likeness.respects_expression none depth) _ _ (.inr hlike)
  have hall := (List.forall₂_and_left _ _).mp (hstatements.imp fun _ _ h =>
    And.intro (Grammar.Likeness.executable_of_statement h) trivial)
  exact hall.1 s h

/-- The statements of a text can be run. -/
theorem Source.executable_of_ofText {text : String} {statements : List Node}
    (h : Source.ofText text = ⟨[], statements, []⟩) :
    ∀ s ∈ statements, s.Executable (· ∈ (Scan.ofSource text).tokens) := by
  have hstatements : (Program.ofTokens (Scan.ofSource text).tokens).statements = statements :=
    congrArg Source.statements h
  rw [← hstatements]
  exact fun s hs => Program.executable_of_mem hs

namespace Session

end Session

end LoxCore
