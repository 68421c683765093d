import LoxCore.Source
import LoxCore.Proofs.Grammar.Reading
import LoxCore.Proofs.Node.Rereading

/-!
Rendering and reading again. The text of an expression of a source without errors, with a semicolon
behind it, is a source without errors, and its one statement is the same expression but for groups
and lines.
-/
namespace LoxCore

open Grammar

/-- A node is part of a tree if it is the tree itself, or part of one of its fields. -/
inductive Node.IsPartOf (e : Node) : Node → Prop where
  | self : IsPartOf e e
  | field {n m : Node} (hfield : .node m ∈ n.parts) (h : IsPartOf e m) : IsPartOf e n

namespace Grammar

variable {r : Rank} {e n s : Node} {tokens : List Token}

/-- The fields of a tree yield tokens that the tree yields. -/
theorem Yields.exists_of_field (h : Yields r n tokens) (hfield : .node e ∈ n.parts) :
    ∃ r used, Yields r e used ∧ used ⊆ tokens := by
  induction h with
  | literal => cases hfield
  | ref => simp [Node.parts] at hfield
  | grouping _ _ hinner =>
    obtain rfl : e = _ := by simpa [Node.parts] using hfield
    exact ⟨_, _, hinner, fun t ht => by simp [ht]⟩
  | unary _ hright =>
    obtain rfl : e = _ := by simpa [Node.parts] using hfield
    exact ⟨_, _, hright, fun t ht => by simp [ht]⟩
  | @binary r operator left right before after _ hleft hright =>
    have hoperand : e = left ∨ e = right := by simpa [Node.parts] using hfield
    rcases hoperand with rfl | rfl
    · exact ⟨_, _, hleft, fun t ht => by simp [ht]⟩
    · exact ⟨_, _, hright, fun t ht => by simp [ht]⟩
  | assign _ _ hvalue =>
    obtain rfl : e = _ := by simpa [Node.parts] using hfield
    exact ⟨_, _, hvalue, fun t ht => by simp [ht]⟩
  | loosen _ _ ih => exact ih hfield

theorem Yields.exists_of_part (h : Yields r n tokens) (hpart : e.IsPartOf n) :
    ∃ r used, Yields r e used ∧ used ⊆ tokens := by
  induction hpart generalizing r tokens with
  | self => exact ⟨r, tokens, h, List.Subset.refl tokens⟩
  | field hfield _ ih =>
    obtain ⟨r', used, hused, hsubset⟩ := h.exists_of_field hfield
    obtain ⟨r'', part, hpart, hsubset'⟩ := ih hused
    exact ⟨r'', part, hpart, List.Subset.trans hsubset' hsubset⟩

/-- The expressions of a statement yield tokens that the statement yields. -/
theorem StatementYields.exists_of_part (h : StatementYields s tokens) (hpart : e.IsPartOf s)
    (hplain : e.isPlain = true) : ∃ r used, Yields r e used ∧ used ⊆ tokens := by
  cases hpart with
  | self => cases h <;> cases hplain
  | @field n m hfield hpart =>
    suffices hinner : ∃ r inner, Yields r m inner ∧ inner ⊆ tokens by
      obtain ⟨r, inner, hm, hsubset⟩ := hinner
      obtain ⟨r', used, hused, hsubset'⟩ := hm.exists_of_part hpart
      exact ⟨r', used, hused, List.Subset.trans hsubset' hsubset⟩
    cases h with
    | expression hinner =>
      obtain rfl : m = _ := by simpa [Node.parts] using hfield
      exact ⟨_, _, hinner, fun t ht => by simp [ht]⟩
    | print _ hinner =>
      obtain rfl : m = _ := by simpa [Node.parts] using hfield
      exact ⟨_, _, hinner, fun t ht => by simp [ht]⟩
    | declare =>
      obtain rfl : m = .null := by simpa [Node.parts] using hfield
      cases hpart with
      | self => cases hplain
      | field hfield => cases hfield
    | define _ _ _ hvalue =>
      obtain rfl : m = _ := by simpa [Node.parts] using hfield
      exact ⟨_, _, hvalue, fun t ht => by simp [ht]⟩

theorem ProgramYields.exists_of_mem {statements : List Node} (h : ProgramYields statements tokens)
    (hs : s ∈ statements) : ∃ used, StatementYields s used ∧ used ⊆ tokens := by
  induction h with
  | nil => cases hs
  | @cons first rest before after hfirst _ ih =>
    rcases List.mem_cons.mp hs with rfl | hs
    · exact ⟨before, hfirst, List.subset_append_left before after⟩
    · obtain ⟨used, hused, hsubset⟩ := ih hs
      exact ⟨used, hused, List.Subset.trans hsubset (List.subset_append_right before after)⟩

end Grammar

/-- No token that is cut from a text is an end mark, so a program is read from all of them. -/
theorem Scan.takeWhile_tokens (source : String) :
    (ofSource source).tokens.takeWhile (fun t => t.kind ≠ .eof) = (ofSource source).body := by
  have hkind : ∀ t ∈ (ofSource source).body, decide (t.kind ≠ .eof) = true := by
    intro t ht
    have hspelled := (isCut_of_mem_body ht).spelled
    simp only [decide_eq_true_eq]
    intro heq
    rw [heq] at hspelled
    cases hspelled
  rw [tokens, List.takeWhile_append_of_pos hkind]
  simp [Token.endMark]

namespace Source

/-- The tokens of a source without errors are what its statements yield. -/
theorem programYields_of_ofText {source : String} {statements : List Node}
    (h : ofText source = ⟨[], statements, []⟩) :
    ProgramYields statements (Scan.ofSource source).body := by
  have herrors : (Program.ofTokens (Scan.ofSource source).tokens).errors = [] :=
    congrArg grammarErrors h
  have hstatements : (Program.ofTokens (Scan.ofSource source).tokens).statements = statements :=
    congrArg Source.statements h
  have hyields := Program.programYields_of_errors_eq_nil herrors
  rw [Scan.takeWhile_tokens] at hyields
  rw [← hstatements]
  exact hyields

/-- A text that is cut into the tokens of an expression is, with a semicolon behind it, cut into those
of one statement. -/
theorem programYields_of_cuts {text : String} {e : Node} {tokens : List Token}
    (hcuts : Cuts (text.toList ++ [';']) tokens [';']) (hyields : Yields .assignment e tokens) :
    (Scan.ofSource (text ++ ";")).errors = [] ∧ ProgramYields [.expression e]
      ((Scan.ofSource (text ++ ";")).tokens.takeWhile fun t => t.kind ≠ .eof) := by
  have hscan : Scan.ofSource (text ++ ";") = ⟨tokens ++ [⟨.semicolon, ";", .nil, 1⟩], [], 1⟩ := by
    rw [← (hcuts.trans (.semicolon [])).scan]
    congr 1
    simp
  refine ⟨by rw [hscan], ?_⟩
  have hs : StatementYields (.expression e) (tokens ++ [⟨.semicolon, ";", .nil, 1⟩]) :=
    .expression hyields rfl
  rw [Scan.takeWhile_tokens, hscan]
  simpa using ProgramYields.cons hs .nil

/-- The text of a spelled expression with a semicolon behind it. -/
theorem ofText_text_of_spelled {e : Node} (h : e.Spelled)
    (hdepth : ∀ d ∈ (ofText (e.text ++ ";")).grammarErrors, d.code ≠ 71) :
    ∃ again, ofText (e.text ++ ";") = ⟨[], [.expression again], []⟩ ∧
      again.ungroup.onLine 1 = e.ungroup.onLine 1 ∧ again.text = e.text := by
  obtain ⟨again, tokens, hagain⟩ := h.exists_rereads
  refine ⟨again, ?_, hagain.same, hagain.text⟩
  have hcuts := hagain.cuts [';'] (ends_cons (by decide) [])
  obtain ⟨herrors, hyields⟩ := programYields_of_cuts hcuts hagain.yields.of_primary
  have hprogram := Program.ofTokensTo_of_programYields hyields hdepth
  simp only [ofText, Program.ofTokens, hprogram, herrors]

/-- The text of an expression that was read from a source without errors is, with a semicolon behind
it, a source without errors too, unless it nests too deep. Its one statement is the same expression
but for groups and lines, so it has the same text and evaluates alike from every store. -/
theorem ofText_rendering {source text : String} {statements : List Node} {s e : Node}
    (hsource : ofText source = ⟨[], statements, []⟩) (hs : s ∈ statements)
    (hpart : e.IsPartOf s) (hplain : e.isPlain = true) (htext : e.render? = some text)
    (hdepth : ∀ d ∈ (ofText (text ++ ";")).grammarErrors, d.code ≠ 71) :
    ∃ again, ofText (text ++ ";") = ⟨[], [.expression again], []⟩ ∧
      again.ungroup.onLine 1 = e.ungroup.onLine 1 ∧
      (again.isTooDeep = false → again.render? = some text) ∧
      ∀ detail store,
        ((again.evaluate detail).run store).Agrees ((e.evaluate detail).run store) := by
  obtain ⟨used, hstatement, hused⟩ := (programYields_of_ofText hsource).exists_of_mem hs
  obtain ⟨r, tokens, hyields, htokens⟩ := hstatement.exists_of_part hpart hplain
  have hspelled : e.Spelled := Node.spelled_of_yields hyields
    (fun t ht => Scan.isCut_of_mem_body (hused (htokens ht))) hplain
  have heq : e.text = text := by
    unfold Node.render? at htext
    split at htext
    · cases htext
    · exact Option.some.inj htext
  rw [← heq] at hdepth ⊢
  obtain ⟨again, hagain, hsame, hrendered⟩ := ofText_text_of_spelled hspelled hdepth
  refine ⟨again, hagain, hsame, ?_, ?_⟩
  · intro hshallow
    rw [Node.render?, hshallow, hrendered]
    rfl
  · exact Node.evaluate_agrees hsame

/-- An expression on the second line of its source, with a group that its rendering does not show,
and two operations that gain parentheses. -/
theorem ofText_rendering_negation :
    ∃ e again : Node, ofText "print\n-(a) == 1;" = ⟨[], [.print e], []⟩ ∧ e.isPlain = true ∧
      e.render? = some "((- a) == 1)" ∧
      (∀ d ∈ (ofText ("((- a) == 1)" ++ ";")).grammarErrors, d.code ≠ 71) ∧
      ofText ("((- a) == 1)" ++ ";") = ⟨[], [.expression again], []⟩ ∧
      again.ungroup.onLine 1 = .binary
        (.unary ⟨.minus, "-", .nil, 1⟩ (.ref ⟨.identifier, "a", .nil, 1⟩))
        ⟨.equalEqual, "==", .nil, 1⟩ (.literal (.number 1)) ∧
      ∀ detail store,
        ((again.evaluate detail).run store).Agrees ((e.evaluate detail).run store) := by
  have hsource : ofText "print\n-(a) == 1;" = ⟨[], [.print (.binary
      (.unary ⟨.minus, "-", .nil, 2⟩ (.grouping (.ref ⟨.identifier, "a", .nil, 2⟩)))
      ⟨.equalEqual, "==", .nil, 2⟩ (.literal (.number 1)))], []⟩ := by
    with_unfolding_all rfl
  have hplain : Node.isPlain (.binary
      (.unary ⟨.minus, "-", .nil, 2⟩ (.grouping (.ref ⟨.identifier, "a", .nil, 2⟩)))
      ⟨.equalEqual, "==", .nil, 2⟩ (.literal (.number 1))) = true := by
    decide +kernel
  have htext : Node.render? (.binary
      (.unary ⟨.minus, "-", .nil, 2⟩ (.grouping (.ref ⟨.identifier, "a", .nil, 2⟩)))
      ⟨.equalEqual, "==", .nil, 2⟩ (.literal (.number 1))) = some "((- a) == 1)" := by
    decide +kernel
  have hdepth : ∀ d ∈ (ofText ("((- a) == 1)" ++ ";")).grammarErrors, d.code ≠ 71 := by
    decide +kernel
  obtain ⟨again, hagain, hsame, -, hagrees⟩ := ofText_rendering hsource
    (List.mem_singleton_self _) (.field (List.mem_singleton_self _) .self) hplain htext hdepth
  exact ⟨_, again, hsource, hplain, htext, hdepth, hagain, hsame, hagrees⟩

end Source

end LoxCore
