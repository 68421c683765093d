import LoxCore.Proofs.Grammar.Reading

/-!
The tokens that are accepted are those that the grammar derives. Trees stand between the two sides:
a reading without faults yields its tokens, and trees yield exactly the derived kinds of tokens.
-/
namespace LoxCore.Grammar

open Token (Kind)

/-! From trees to derivations. -/

/-- A level whose operators join operands is written as a row of them. -/
theorem Rank.exists_body_joined {r : Rank} {kind : Kind} (h : r.joins kind = true) :
    ∃ first rest, r.rule.body = .joined (.oneOf first rest) (.rule r.tighter.rule) ∧
      kind ∈ first :: rest := by
  cases r <;> first | cases h | refine ⟨_, _, rfl, ?_⟩
  all_goals
    revert h
    cases kind <;> decide

theorem Rank.derives_of_tighter {r : Rank} {kinds : List Kind}
    (h : Derives (.rule r.tighter.rule) kinds) : Derives (.rule r.rule) kinds := by
  have joined (operators operand : Phrase) (h : Derives operand kinds) :
      Derives (.joined operators operand) kinds := by
    simpa [Phrase.joined] using h.seq (.done (operators.seq operand))
  cases r with
  | assignment | unary => exact .rule (.right h)
  | equality | comparison | term | factor => exact .rule (joined _ _ h)
  | primary => exact h

theorem derives_of_literalValue {t : Token} {value : Value} (h : literalValue? t = some value) :
    Derives (.rule .primary) [t.kind] := by
  refine .rule (.left (.oneOf ?_))
  unfold literalValue? at h
  split at h <;> simp_all

/-- The kinds of the tokens that a tree yields are derived by the rule of its rank. -/
theorem Yields.derives {r : Rank} {n : Node} {tokens : List Token} (h : Yields r n tokens) :
    Derives (.rule r.rule) (tokens.map Token.kind) := by
  induction h with
  | literal h => exact derives_of_literalValue h
  | @ref name hkind =>
    simp only [List.map_cons, List.map_nil, hkind]
    exact .rule (.right (.right (.word _)))
  | @grouping opening closing inner tokens hopening hclosing _ ih =>
    simp only [List.map_cons, List.map_append, List.map_nil, hopening, hclosing]
    have hinner : Derives (.rule .expression) (tokens.map Token.kind) := .rule ih
    exact .rule (.right (.left ((Derives.word _).seq (hinner.seq (.word _)))))
  | @unary operator right tokens hoperator _ ih =>
    have hword : operator.kind ∈ [Kind.bang, .minus] := by
      unfold isUnaryOperator at hoperator
      split at hoperator <;> simp_all
    exact .rule (.left ((Derives.oneOf hword).seq ih))
  | @binary r operator left right before after hoperator _ _ ih₁ ih₂ =>
    obtain ⟨first, rest, hbody, hword⟩ := Rank.exists_body_joined hoperator
    refine .rule ?_
    rw [hbody, List.map_append, List.map_cons]
    cases ih₁ with
    | rule hleft =>
      rw [hbody] at hleft
      exact hleft.joined_snoc (.oneOf hword) ih₂
  | @assign name equals value tokens hname hequals _ ih =>
    simp only [List.map_cons, hname, hequals]
    exact .rule (.left ((Derives.word .identifier).seq ((Derives.word .equal).seq ih)))
  | loosen _ _ ih => exact Rank.derives_of_tighter ih

theorem Yields.derives_expression {n : Node} {tokens : List Token}
    (h : Yields .assignment n tokens) : Derives (.rule .expression) (tokens.map Token.kind) :=
  .rule h.derives

theorem StatementYields.derives {n : Node} {tokens : List Token} (h : StatementYields n tokens) :
    Derives (.rule .declaration) (tokens.map Token.kind) := by
  cases h with
  | expression hinner hsemicolon =>
    simp only [List.map_append, List.map_cons, List.map_nil, hsemicolon]
    exact .rule (.right (.rule (.right (.rule (hinner.derives_expression.seq (.word _))))))
  | print hword hinner hsemicolon =>
    simp only [List.map_cons, List.map_append, List.map_nil, hword, hsemicolon]
    exact .rule (.right (.rule (.left (.rule
      ((Derives.word .printKeyword).seq (hinner.derives_expression.seq (.word _)))))))
  | declare hword hname hsemicolon =>
    simp only [List.map_cons, List.map_nil, hword, hname, hsemicolon]
    exact .rule (.left (.rule ((Derives.word .varKeyword).seq
      ((Derives.word .identifier).seq ((Derives.absent _).seq (.word .semicolon))))))
  | define hword hname hequals hvalue hsemicolon =>
    simp only [List.map_cons, List.map_append, List.map_nil, hword, hname, hequals, hsemicolon]
    have hinitializer := (Derives.word .equal).seq hvalue.derives_expression
    exact .rule (.left (.rule ((Derives.word .varKeyword).seq
      ((Derives.word .identifier).seq ((Derives.present hinitializer).seq (.word .semicolon))))))

theorem ProgramYields.derives {statements : List Node} {tokens : List Token}
    (h : ProgramYields statements tokens) :
    Derives (.rule .program) (tokens.map Token.kind ++ [.eof]) := by
  refine .rule (.seq ?_ (.word .eof))
  induction h with
  | nil => exact .done _
  | cons hs _ ih =>
    rw [List.map_append]
    exact hs.derives.more ih

/-! From derivations to trees. -/

/-- Tokens of the given kinds, however they are spelled, are what some tree of the rank yields. -/
def Rank.Written (r : Rank) (kinds : List Kind) : Prop :=
  ∀ tokens, tokens.map Token.kind = kinds → ∃ n, Yields r n tokens

def StatementWritten (kinds : List Kind) : Prop :=
  ∀ tokens, tokens.map Token.kind = kinds → ∃ n, StatementYields n tokens

def ProgramWritten (kinds : List Kind) : Prop :=
  ∀ tokens, tokens.map Token.kind = kinds →
    ∃ statements body mark, tokens = body ++ [mark] ∧ ProgramYields statements body

/-- The languages of the trees, one for each rule. -/
def Rule.Written : Rule → List Kind → Prop
  | program => ProgramWritten
  | declaration | varDecl | statement | printStmt | exprStmt => StatementWritten
  | expression | assignment => Rank.assignment.Written
  | equality => Rank.equality.Written
  | comparison => Rank.comparison.Written
  | term => Rank.term.Written
  | factor => Rank.factor.Written
  | unary => Rank.unary.Written
  | primary => Rank.primary.Written

theorem Rank.Written.loosen {r : Rank} {kinds : List Kind} (hr : r ≠ .primary)
    (h : r.tighter.Written kinds) : r.Written kinds := by
  intro tokens htokens
  obtain ⟨n, hn⟩ := h tokens htokens
  exact ⟨n, .loosen hr hn⟩

/-- The operands of a row are gathered from the left, so each is joined to all that stand before. -/
theorem Rank.Written.joined {r : Rank} {first : Kind} {rest kinds : List Kind} (hr : r ≠ .primary)
    (hoperators : ∀ kind ∈ first :: rest, r.joins kind = true) {operand : Phrase}
    (hoperand : operand.Means Rule.Written = r.tighter.Written)
    (h : (Phrase.joined (.oneOf first rest) operand).Means Rule.Written kinds) :
    r.Written kinds := by
  obtain ⟨before, after, rfl, hbefore, hafter⟩ := h
  rw [hoperand] at hbefore
  have hstart : r.Written before := .loosen hr hbefore
  clear hbefore
  induction hafter generalizing before with
  | done => simpa using hstart
  | @more next after hnext _ ih =>
    rw [← List.append_assoc]
    refine ih (before ++ next) ?_
    obtain ⟨word, right, rfl, hword, hright⟩ := hnext
    obtain ⟨kind, hkind, rfl⟩ := Phrase.exists_of_means_oneOf hword
    rw [hoperand] at hright
    intro tokens htokens
    obtain ⟨leftTokens, more, rfl, hleft, hmore⟩ := List.map_eq_append_iff.mp htokens
    obtain ⟨operator, rightTokens, rfl, rfl, hrest⟩ := List.map_eq_cons_iff.mp hmore
    obtain ⟨left, hleftYields⟩ := hstart _ hleft
    obtain ⟨node, hrightYields⟩ := hright _ hrest
    exact ⟨_, .binary (hoperators _ hkind) hleftYields hrightYields⟩

theorem primary_written {kinds : List Kind}
    (h : Rule.primary.body.Means Rule.Written kinds) : Rank.primary.Written kinds := by
  intro tokens htokens
  rcases h with hliteral | hgrouping | hname
  · obtain ⟨kind, hkind, rfl⟩ := Phrase.exists_of_means_oneOf hliteral
    obtain ⟨t, rfl, rfl⟩ := List.map_eq_singleton_iff.mp htokens
    have hvalue : ∃ value, literalValue? t = some value := by
      unfold literalValue?
      split <;> simp_all
    obtain ⟨value, hvalue⟩ := hvalue
    exact ⟨_, .literal hvalue⟩
  · obtain ⟨_, _, rfl, rfl, _, _, rfl, hinner, rfl⟩ := hgrouping
    rw [List.singleton_append] at htokens
    obtain ⟨opening, more, rfl, hopening, hmore⟩ := List.map_eq_cons_iff.mp htokens
    obtain ⟨inner, last, rfl, hkinds, hlast⟩ := List.map_eq_append_iff.mp hmore
    obtain ⟨closing, rfl, hclosing⟩ := List.map_eq_singleton_iff.mp hlast
    obtain ⟨n, hn⟩ := hinner _ hkinds
    exact ⟨_, .grouping hopening hclosing hn⟩
  · cases hname
    obtain ⟨name, rfl, hkind⟩ := List.map_eq_singleton_iff.mp htokens
    exact ⟨_, .ref hkind⟩

theorem unary_written {kinds : List Kind} (h : Rule.unary.body.Means Rule.Written kinds) :
    Rank.unary.Written kinds := by
  rcases h with ⟨_, _, rfl, hword, hright⟩ | hprimary
  · intro tokens htokens
    obtain ⟨kind, hkind, rfl⟩ := Phrase.exists_of_means_oneOf hword
    obtain ⟨operator, more, rfl, rfl, hmore⟩ := List.map_eq_cons_iff.mp htokens
    obtain ⟨n, hn⟩ := hright _ hmore
    have hoperator : isUnaryOperator operator.kind = true := by
      rcases List.mem_cons.mp hkind with h | h <;> simp_all [isUnaryOperator]
    exact ⟨_, .unary hoperator hn⟩
  · exact .loosen (by decide) hprimary

theorem assignment_written {kinds : List Kind}
    (h : Rule.assignment.body.Means Rule.Written kinds) : Rank.assignment.Written kinds := by
  rcases h with ⟨_, _, rfl, rfl, _, _, rfl, rfl, hvalue⟩ | hequality
  · intro tokens htokens
    obtain ⟨name, more, rfl, hname, hmore⟩ := List.map_eq_cons_iff.mp htokens
    obtain ⟨equals, rest, rfl, hequals, hrest⟩ := List.map_eq_cons_iff.mp hmore
    obtain ⟨n, hn⟩ := hvalue _ hrest
    exact ⟨_, .assign hname hequals hn⟩
  · exact .loosen (by decide) hequality

theorem exprStmt_written {kinds : List Kind}
    (h : Rule.exprStmt.body.Means Rule.Written kinds) : StatementWritten kinds := by
  obtain ⟨_, _, rfl, hinner, rfl⟩ := h
  intro tokens htokens
  obtain ⟨inner, last, rfl, hkinds, hlast⟩ := List.map_eq_append_iff.mp htokens
  obtain ⟨semicolon, rfl, hsemicolon⟩ := List.map_eq_singleton_iff.mp hlast
  obtain ⟨n, hn⟩ := hinner _ hkinds
  exact ⟨_, .expression hn hsemicolon⟩

theorem printStmt_written {kinds : List Kind}
    (h : Rule.printStmt.body.Means Rule.Written kinds) : StatementWritten kinds := by
  obtain ⟨_, _, rfl, rfl, _, _, rfl, hinner, rfl⟩ := h
  intro tokens htokens
  rw [List.singleton_append] at htokens
  obtain ⟨word, more, rfl, hword, hmore⟩ := List.map_eq_cons_iff.mp htokens
  obtain ⟨inner, last, rfl, hkinds, hlast⟩ := List.map_eq_append_iff.mp hmore
  obtain ⟨semicolon, rfl, hsemicolon⟩ := List.map_eq_singleton_iff.mp hlast
  obtain ⟨n, hn⟩ := hinner _ hkinds
  exact ⟨_, .print hword hn hsemicolon⟩

theorem varDecl_written {kinds : List Kind}
    (h : Rule.varDecl.body.Means Rule.Written kinds) : StatementWritten kinds := by
  obtain ⟨_, _, rfl, rfl, _, _, rfl, rfl, _, _, rfl, hinitializer, rfl⟩ := h
  intro tokens htokens
  obtain ⟨word, more, rfl, hword, hmore⟩ := List.map_eq_cons_iff.mp htokens
  obtain ⟨name, rest, rfl, hname, hrest⟩ := List.map_eq_cons_iff.mp hmore
  rcases hinitializer with rfl | ⟨_, _, rfl, rfl, hvalue⟩
  · obtain ⟨semicolon, rfl, hsemicolon⟩ := List.map_eq_singleton_iff.mp hrest
    exact ⟨_, .declare hword hname hsemicolon⟩
  · obtain ⟨equals, rest, rfl, hequals, hrest⟩ := List.map_eq_cons_iff.mp hrest
    obtain ⟨inner, last, rfl, hkinds, hlast⟩ := List.map_eq_append_iff.mp hrest
    obtain ⟨semicolon, rfl, hsemicolon⟩ := List.map_eq_singleton_iff.mp hlast
    obtain ⟨n, hn⟩ := hvalue _ hkinds
    exact ⟨_, .define hword hname hequals hn hsemicolon⟩

theorem program_written {kinds : List Kind}
    (h : Rule.program.body.Means Rule.Written kinds) : ProgramWritten kinds := by
  obtain ⟨before, _, rfl, hmany, rfl⟩ := h
  intro tokens htokens
  obtain ⟨body, last, rfl, hbody, hlast⟩ := List.map_eq_append_iff.mp htokens
  obtain ⟨mark, rfl, _⟩ := List.map_eq_singleton_iff.mp hlast
  suffices hyields : ∃ statements, ProgramYields statements body by
    obtain ⟨statements, hstatements⟩ := hyields
    exact ⟨statements, body, mark, rfl, hstatements⟩
  clear htokens hlast
  induction hmany generalizing body with
  | done =>
    obtain rfl := List.map_eq_nil_iff.mp hbody
    exact ⟨[], .nil⟩
  | more hfirst _ ih =>
    obtain ⟨first, rest, rfl, hfirstKinds, hrestKinds⟩ := List.map_eq_append_iff.mp hbody
    obtain ⟨s, hs⟩ := hfirst _ hfirstKinds
    obtain ⟨statements, hstatements⟩ := ih rest hrestKinds
    exact ⟨s :: statements, .cons hs hstatements⟩

/-- The languages of the trees are closed under the rules. -/
theorem Rule.written_of_body (name : Rule) (kinds : List Kind)
    (h : name.body.Means Rule.Written kinds) : name.Written kinds := by
  cases name with
  | program => exact program_written h
  | declaration => exact h.elim id id
  | varDecl => exact varDecl_written h
  | statement => exact h.elim id id
  | printStmt => exact printStmt_written h
  | exprStmt => exact exprStmt_written h
  | expression => exact h
  | assignment => exact assignment_written h
  | equality => exact Rank.Written.joined (r := .equality) (by decide) (by decide) rfl h
  | comparison => exact Rank.Written.joined (r := .comparison) (by decide) (by decide) rfl h
  | term => exact Rank.Written.joined (r := .term) (by decide) (by decide) rfl h
  | factor => exact Rank.Written.joined (r := .factor) (by decide) (by decide) rfl h
  | unary => exact unary_written h
  | primary => exact primary_written h

/-- Tokens are a program of the grammar exactly if they are what some trees yield. -/
theorem derives_program_iff (body : List Token) :
    Derives (.rule .program) (body.map Token.kind ++ [.eof]) ↔
      ∃ statements, ProgramYields statements body := by
  constructor
  · intro h
    have hkinds : (body ++ [Token.endMark 0]).map Token.kind = body.map Token.kind ++ [.eof] := by
      simp [Token.endMark]
    obtain ⟨statements, body', mark, htokens, hyields⟩ :=
      h.means Rule.written_of_body _ hkinds
    obtain ⟨rfl, _⟩ := List.append_inj' htokens rfl
    exact ⟨statements, hyields⟩
  · rintro ⟨statements, h⟩
    exact h.derives

end LoxCore.Grammar

namespace LoxCore.Program

open Grammar

/-- A program is accepted exactly if the grammar derives its tokens and no expression of it nests
deeper than is allowed. This holds of any depth that may be allowed, and of the parts of the program
as well, since each part is read by the rule that derives it. Acceptance means that no error is
recorded, and then all statements are returned. -/
theorem errors_eq_nil_iff_derives (depth : Nat) (tokens : List Token) :
    let program := ofTokensTo depth tokens
    let body := tokens.takeWhile fun t => t.kind ≠ .eof
    (program.errors = [] ↔
      Derives (.rule .program) (body.map Token.kind ++ [.eof]) ∧
        ∀ d ∈ program.errors, d.code ≠ 71) ∧
    (program.checked = .ok program.statements ↔
      Derives (.rule .program) (body.map Token.kind ++ [.eof]) ∧
        ∀ d ∈ program.errors, d.code ≠ 71) := by
  intro program body
  have hchecked : program.checked = .ok program.statements ↔ program.errors = [] := by
    unfold checked
    split <;> simp_all
  rw [hchecked, and_self, derives_program_iff]
  constructor
  · intro herrors
    refine ⟨⟨program.statements, programYields_of_errors_eq_nil herrors⟩, ?_⟩
    rw [herrors]
    intro d hd
    cases hd
  · rintro ⟨⟨statements, hyields⟩, hdepth⟩
    exact congrArg errors (ofTokensTo_of_programYields hyields hdepth)

end LoxCore.Program
