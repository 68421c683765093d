import LoxCore.Proofs.Grammar.Likeness

/-!
A semicolon is a barrier. Tokens up to a semicolon are read as if they stood alone, and what follows
is read as if they did not stand before it, however malformed either part is.
-/
namespace LoxCore.Grammar

/-- Each token and each tree is like itself only. -/
def Likeness.same : Likeness where
  token s t := s = t
  node m n := m = n
  kind_eq h := congrArg Token.kind h
  literal h hv hw := by
    rw [h, hw] at hv
    rw [Option.some.inj hv]
  ref h _ := congrArg Node.ref h
  grouping h := congrArg Node.grouping h
  unary h _ hright := congrArg₂ Node.unary h hright
  binary h _ hleft hright := by rw [h, hleft, hright]
  assign h hvalue := by rw [Node.ref.inj h, hvalue]
  target h := by rw [h]

namespace Likeness

theorem eq_of_statement_same {m n : Node} (h : same.Statement m n) : m = n := by
  cases h with
  | expression h => exact congrArg Node.expression h
  | print h => exact congrArg Node.print h
  | declare h => exact congrArg (Node.var · .null) h
  | define hname _ h => exact congrArg₂ Node.var hname h

/-- A fault before the semicolon is reported alike, whatever follows the semicolon and wherever the
source ends: there is a token to blame before either. -/
theorem diagnostic_of_faults_same {rest : List Token} {f g : Fault}
    (h : same.Faults (some rest) f g) (mark mark' : Token) :
    f.diagnostic mark = g.diagnostic mark' := by
  obtain ⟨hcause, hends, front, hfront, hleft⟩ := h
  obtain rfl : f.left = front := by rwa [same, List.forall₂_eq_eq_eq] at hfront
  obtain ⟨t, tokens, htokens⟩ := List.exists_cons_of_ne_nil hends.ne_nil
  rw [Fault.diagnostic, Fault.diagnostic, hcause, hleft, htokens]
  rfl

end Likeness

/-- Reading tokens that end with a semicolon, and then others. -/
theorem readAll_append {value : Reader Node} {front rest : List Token}
    (hvalue : Likeness.same.Respects (some rest) value) (h : EndsStatement front)
    (mark mark' : Token) :
    (readAll value (front ++ rest)).statements =
        (readAll value front).statements ++ (readAll value rest).statements ∧
      (readAll value (front ++ rest)).faults.map (Fault.diagnostic mark') =
        (readAll value front).faults.map (Fault.diagnostic mark) ++
          (readAll value rest).faults.map (Fault.diagnostic mark') := by
  have hahead : Likeness.same.Ahead (some rest) front (front ++ rest) :=
    ⟨h, front, List.forall₂_same.mpr fun _ _ => rfl, rfl⟩
  obtain ⟨statements, faults, hstatements, hfaults, hread⟩ :=
    Likeness.readAll_alike hvalue front _ hahead.between
  have hstatements : (readAll value front).statements = statements := by
    rw [← List.forall₂_eq_eq_eq]
    exact hstatements.imp fun _ _ => Likeness.eq_of_statement_same
  have hfaults : (readAll value front).faults.map (Fault.diagnostic mark) =
      faults.map (Fault.diagnostic mark') := by
    rw [← List.forall₂_eq_eq_eq, List.forall₂_map_left_iff, List.forall₂_map_right_iff]
    exact hfaults.imp fun _ _ h => Likeness.diagnostic_of_faults_same h mark mark'
  rw [hread, hstatements, hfaults, List.map_append]
  exact ⟨rfl, rfl⟩

end LoxCore.Grammar

namespace LoxCore.Program

open Grammar

/-- A program whose first part ends with a semicolon is read as its two parts, one after the other:
it has the statements of both and the errors of both, each as if the other part were not there. This
holds of any depth that may be allowed, and of all tokens, malformed as they may be. -/
theorem ofTokensTo_append (depth : Nat) {front : List Token} (rest : List Token) {mark : Token}
    (hfront : ∀ t ∈ front, t.kind ≠ .eof) (hends : EndsStatement front) (hmark : mark.kind = .eof) :
    let before := ofTokensTo depth (front ++ [mark])
    let after := ofTokensTo depth rest
    ofTokensTo depth (front ++ rest) =
      ⟨before.statements ++ after.statements, before.errors ++ after.errors⟩ := by
  intro before after
  have hbody : ∀ t ∈ front, decide (t.kind ≠ .eof) = true := by simpa using hfront
  have hfind (tokens : List Token) : (front ++ tokens).find? (fun t => t.kind = .eof) =
      tokens.find? fun t => t.kind = .eof := by
    rw [List.find?_append, List.find?_eq_none.mpr (by simpa using hfront), Option.none_or]
  have htake (tokens : List Token) : (front ++ tokens).takeWhile (fun t => t.kind ≠ .eof) =
      front ++ tokens.takeWhile fun t => t.kind ≠ .eof := List.takeWhile_append_of_pos hbody
  obtain ⟨hstatements, herrors⟩ := readAll_append
    (Likeness.respects_expression (some (rest.takeWhile fun t => t.kind ≠ .eof)) depth)
    hends mark ((rest.find? fun t => t.kind = .eof).getD (Token.endMark 0))
  simp only [before, after, ofTokensTo, hfind, htake, hstatements, herrors]
  simp [hmark]

/-- Each way to fail on both sides of a semicolon: an assignment to a number, a missing expression at
the semicolon itself, parentheses that nest too deep, a missing name, and an end too early. -/
theorem ofTokensTo_append_malformed :
    let word kind line : Token := ⟨kind, "?", .nil, line⟩
    let front := [word .number 1, word .equal 1, word .nilKeyword 1, word .semicolon 1,
      word .printKeyword 2, word .semicolon 2]
    let rest := [word .leftParen 3, word .leftParen 3, word .nilKeyword 3, word .varKeyword 4,
      word .equal 4, word .semicolon 4, word .minus 5, Token.endMark 6]
    (∀ t ∈ front, t.kind ≠ .eof) ∧ EndsStatement front ∧
      ofTokensTo 1 (front ++ rest) =
        ⟨(ofTokensTo 1 (front ++ [Token.endMark 9])).statements ++ (ofTokensTo 1 rest).statements,
          (ofTokensTo 1 (front ++ [Token.endMark 9])).errors ++ (ofTokensTo 1 rest).errors⟩ ∧
      (ofTokensTo 1 (front ++ rest)).errors.map (fun d => (d.line, d.code)) =
        [(1, 70), (2, 42), (3, 71), (4, 69), (6, 42)] := by
  intro word front rest
  have hfront : ∀ t ∈ front, t.kind ≠ .eof := by decide
  have hends : EndsStatement front := ⟨_, rfl, rfl⟩
  exact ⟨hfront, hends, ofTokensTo_append 1 rest hfront hends rfl, by with_unfolding_all rfl⟩

end LoxCore.Program
