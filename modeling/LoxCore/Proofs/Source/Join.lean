import LoxCore.Proofs.Grammar.Barrier
import LoxCore.Proofs.Source.Rendering
import LoxCore.Proofs.Token.Join

/-!
Texts that are joined by a line feed. If neither text has errors, the joined text has none, and its
statements are those of the first text and then those of the second, some lines further down.
-/
namespace LoxCore

namespace Grammar

/-- Each token and each expression is like itself with the lines changed. -/
def Likeness.moved (g : Int → Int) : Likeness where
  token s t := t = s.mapLine g
  node m n := n = m.mapLines g
  kind_eq h := by rw [h]; rfl
  literal {s t v w} h hv hw := by
    have hsame : literalValue? t = literalValue? s := by rw [h]; rfl
    rw [hsame, hv] at hw
    rw [Option.some.inj hw]
    rfl
  ref h _ := by rw [h]; rfl
  grouping h := by rw [h]; rfl
  unary h _ hright := by rw [h, hright]; rfl
  binary h _ hleft hright := by rw [h, hleft, hright]; rfl
  assign h hvalue := by rw [Node.ref.inj h, hvalue]; rfl
  target {m n} h := by
    rw [h]
    cases m <;> simp [Node.mapLines, Node.mapTokens]

namespace Likeness

variable {g : Int → Int}

theorem eq_of_statement_moved {m n : Node} (h : (moved g).Statement m n) : n = m.mapLines g := by
  cases h with
  | expression h => exact congrArg Node.expression h
  | print h => exact congrArg Node.print h
  | declare h => exact congrArg (Node.var · .null) h
  | define hname _ h => exact congrArg₂ Node.var hname h

end Likeness

/-- Tokens that are read without faults are read without faults on other lines, to statements on
those lines. -/
theorem readAll_map_mapLine {depth : Nat} {tokens : List Token} {statements : List Node}
    (h : readAll (expression depth) tokens = ⟨statements, []⟩) (g : Int → Int) :
    readAll (expression depth) (tokens.map (Token.mapLine g)) =
      ⟨statements.map (Node.mapLines g), []⟩ := by
  have hlike : List.Forall₂ (Likeness.moved g).token tokens (tokens.map (Token.mapLine g)) :=
    List.forall₂_map_right_iff.mpr (List.forall₂_same.mpr fun _ _ => rfl)
  obtain ⟨statements', faults, hstatements, hfaults, hread⟩ := Likeness.readAll_alike
    (Likeness.respects_expression none depth) tokens _ (.inr hlike)
  rw [h] at hstatements hfaults
  obtain rfl := List.forall₂_nil_left_iff.mp hfaults
  have hmoved : statements.map (Node.mapLines g) = statements' := by
    rw [← List.forall₂_eq_eq_eq, List.forall₂_map_left_iff]
    exact hstatements.imp fun _ _ h => (Likeness.eq_of_statement_moved h).symm
  rw [hread, hmoved]
  simp [readAll]

theorem StatementYields.endsStatement {s : Node} {tokens : List Token}
    (h : StatementYields s tokens) : EndsStatement tokens := by
  have hlast {semicolon : Token} (h : semicolon.kind = .semicolon) : EndsStatement [semicolon] :=
    ⟨semicolon, rfl, h⟩
  cases h with
  | expression _ hsemicolon => exact (hlast hsemicolon).append_left _
  | @print word semicolon _ tokens _ _ hsemicolon =>
    exact (hlast hsemicolon).append_left (word :: tokens)
  | @declare word name _ _ _ hsemicolon => exact (hlast hsemicolon).append_left [word, name]
  | @define word name equals _ _ tokens _ _ _ _ hsemicolon =>
    exact (hlast hsemicolon).append_left (word :: name :: equals :: tokens)

/-- A program that is not empty ends with a semicolon. -/
theorem ProgramYields.endsStatement {statements : List Node} {tokens : List Token}
    (h : ProgramYields statements tokens) (hne : tokens ≠ []) : EndsStatement tokens := by
  induction h with
  | nil => exact absurd rfl hne
  | @cons s more before after hs _ ih =>
    by_cases hafter : after = []
    · rw [hafter, List.append_nil]
      exact hs.endsStatement
    · exact (ih hafter).append_left before

/-- Programs that are read without faults are read without faults one after the other. -/
theorem readAll_append_of_yields {depth : Nat} {front rest : List Token} {before after : List Node}
    (hyields : ProgramYields before front)
    (hfront : readAll (expression depth) front = ⟨before, []⟩)
    (hrest : readAll (expression depth) rest = ⟨after, []⟩) :
    readAll (expression depth) (front ++ rest) = ⟨before ++ after, []⟩ := by
  by_cases hne : front = []
  · subst hne
    have hbefore : before = [] := by simpa [readAll] using hfront.symm
    rw [hbefore, List.nil_append, List.nil_append, hrest]
  · have hmark := Token.endMark 0
    obtain ⟨hstatements, hfaults⟩ := readAll_append
      (Likeness.respects_expression (some rest) depth) (hyields.endsStatement hne) hmark hmark
    rw [hfront, hrest] at hstatements hfaults
    generalize readAll (expression depth) (front ++ rest) = reading at hstatements hfaults
    obtain ⟨statements, faults⟩ := reading
    obtain rfl := List.map_eq_nil_iff.mp hfaults
    exact congrArg (Reading.mk · []) hstatements

end Grammar

open Grammar

namespace Source

/-- A text has no errors if nothing is reported of its characters and its tokens are read without
faults. -/
theorem ofText_eq_iff {text : String} {statements : List Node} :
    ofText text = ⟨[], statements, []⟩ ↔ (Scan.ofSource text).errors = [] ∧
      readAll (expression nestingLimit) (Scan.ofSource text).body = ⟨statements, []⟩ := by
  simp only [ofText, Program.ofTokens, Program.ofTokensTo, Scan.takeWhile_tokens, Source.mk.injEq,
    List.map_eq_nil_iff]
  cases readAll (expression nestingLimit) (Scan.ofSource text).body
  simp

theorem ofText_of_errors_eq_nil {text : String} (h : (ofText text).errors = []) :
    ∃ statements, ofText text = ⟨[], statements, []⟩ := by
  obtain ⟨hscan, hgrammar⟩ := (errors_eq_nil_iff _).mp h
  generalize ofText text = source at hscan hgrammar
  obtain ⟨scanErrors, statements, grammarErrors⟩ := source
  obtain rfl : scanErrors = [] := hscan
  obtain rfl : grammarErrors = [] := hgrammar
  exact ⟨statements, rfl⟩

/-- Texts without errors that are joined by a line feed. -/
theorem ofText_join {first second : String} {before after : List Node}
    (hfirst : ofText first = ⟨[], before, []⟩) (hsecond : ofText second = ⟨[], after, []⟩) :
    ofText (first ++ "\n" ++ second) =
      ⟨[], before ++ after.map (Node.mapLines (· + (Scan.ofSource first).endLine)), []⟩ := by
  have hyields := programYields_of_ofText hfirst
  obtain ⟨herrors, hread⟩ := ofText_eq_iff.mp hfirst
  obtain ⟨herrors', hread'⟩ := ofText_eq_iff.mp hsecond
  have hclosed : ∀ d ∈ (Scan.ofSource first).errors, d.cause ≠ .unterminatedString := by
    simp [herrors]
  rw [ofText_eq_iff, Scan.errors_join hclosed, Scan.body_join hclosed, herrors, herrors']
  exact ⟨rfl, readAll_append_of_yields hyields hread (readAll_map_mapLine hread' _)⟩

/-- Texts without errors have none when they are joined by line feeds. -/
theorem errors_intercalate {texts : List String} (hne : texts ≠ [])
    (h : ∀ text ∈ texts, (ofText text).errors = []) :
    (ofText ("\n".intercalate texts)).errors = [] := by
  induction texts with
  | nil => exact absurd rfl hne
  | cons text more ih =>
    obtain ⟨htext, hmore⟩ := List.forall_mem_cons.mp h
    cases more with
    | nil => rwa [String.intercalate_singleton]
    | cons next more =>
      obtain ⟨before, hbefore⟩ := ofText_of_errors_eq_nil htext
      obtain ⟨after, hafter⟩ := ofText_of_errors_eq_nil (ih (List.cons_ne_nil _ _) hmore)
      rw [String.intercalate_cons_cons, ofText_join hbefore hafter]
      exact (errors_eq_nil_iff _).mpr ⟨rfl, rfl⟩

end Source

end LoxCore
