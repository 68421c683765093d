import LoxCore.Proofs.Grammar.Orderly

/-!
The tokens that trees keep. Reading drops the parentheses, the keywords and the marks between the parts
of a statement, and the value assigned to what is no variable. Those tokens that it does not drop come
in the tree in the order in which they came in the text.
-/
namespace LoxCore.Grammar

open scoped List

/-- The tokens behind a token are among those that are there with it. -/
theorem sublist_behind (front : List Token) (t : Token) (rest : List Token) :
    rest <+ front ++ t :: rest :=
  List.sublist_append_of_sublist_right (List.sublist_cons_self t rest)

namespace Attempt

/-- The tree holds some of the tokens up to those that are left, in their order. A fault is at one of
the tokens, or at their end. -/
def Keeps (tokens : List Token) : Attempt Node → Prop
  | done n _ left => n.tokens ++ left <+ tokens
  | failed _ fault => fault.left <+ tokens

variable {tokens more : List Token} {a : Attempt Node}

theorem Keeps.mono (h : a.Keeps tokens) (htokens : tokens <+ more) : a.Keeps more := by
  cases a <;> exact h.trans htokens

/-- A node that holds one more token, or some, before those of its part. -/
theorem Keeps.map (h : a.Keeps tokens) {f : Node → Node} (front : List Token)
    (hf : ∀ n, (f n).tokens = front ++ n.tokens) : (a.map f).Keeps (front ++ tokens) := by
  cases a with
  | done n noted left =>
    change (f n).tokens ++ left <+ front ++ tokens
    rw [hf, List.append_assoc]
    exact List.Sublist.append_left h front
  | failed noted fault => exact List.sublist_append_of_sublist_right h

theorem Keeps.expect (h : a.Keeps tokens) (kind : Token.Kind) (expected : Diagnostic.Expected) :
    (a.expect kind expected).Keeps tokens := by
  match a with
  | failed .. => exact h
  | done _ _ [] => exact List.nil_sublist tokens
  | done n _ (t :: left) =>
    have hleft : n.tokens ++ left <+ n.tokens ++ t :: left :=
      List.Sublist.append_left (List.sublist_cons_self t left) n.tokens
    simp only [Attempt.expect]
    split
    · exact hleft.trans h
    · exact (List.sublist_append_right n.tokens (t :: left)).trans h

end Attempt

namespace Reader

/-- Every tree that is read holds tokens in the order in which they were given. -/
def Keeps (reader : Reader Node) : Prop :=
  ∀ tokens, (reader.read tokens).Keeps tokens

theorem keeps_tooDeep : tooDeep.Keeps :=
  List.Sublist.refl

theorem keeps_primary {nested : Reader Node} (hnested : nested.Keeps) : (primary nested).Keeps := by
  intro tokens
  cases tokens with
  | nil => exact List.Sublist.refl []
  | cons t rest =>
    simp only [primary]
    split
    case h_6 => exact List.Sublist.refl (t :: rest)
    case h_7 =>
      have hinner := (hnested rest).map (f := .grouping) [] fun _ => rfl
      exact (hinner.expect _ _).mono (List.sublist_cons_self t rest)
    case h_8 => exact List.Sublist.refl (t :: rest)
    -- A literal keeps its value, and not its token.
    all_goals exact List.sublist_cons_self t rest

theorem keeps_unary {deeper nested : Reader Node} (hdeeper : deeper.Keeps) (hnested : nested.Keeps) :
    (Grammar.unary deeper nested).Keeps := by
  intro tokens
  cases tokens with
  | nil => exact keeps_primary hnested []
  | cons t rest =>
    simp only [Grammar.unary]
    split
    · exact (hdeeper rest).map [t] fun _ => rfl
    · exact keeps_primary hnested (t :: rest)

theorem keeps_chainFrom {isOperator : Token.Kind → Bool} {operand : Reader Node}
    (hoperand : operand.Keeps) {n : Node} {noted : List Fault} {tokens outer : List Token}
    (h : n.tokens ++ tokens <+ outer) :
    (chainFrom isOperator operand n noted tokens).Keeps outer := by
  fun_induction chainFrom isOperator operand n noted tokens with
  | case1 => exact h
  | case2 n noted t rest _ right more left hread ih =>
    have hright := hoperand rest
    rw [hread] at hright
    refine ih (List.Sublist.trans ?_ h)
    rw [Node.tokens, List.append_assoc, List.cons_append]
    exact List.Sublist.append_left (hright.cons_cons t) n.tokens
  | case3 n noted t rest _ more fault hread =>
    have hright := hoperand rest
    rw [hread] at hright
    exact (List.Sublist.trans hright (sublist_behind n.tokens t rest)).trans h
  | case4 => exact h

theorem keeps_chain {isOperator : Token.Kind → Bool} {operand : Reader Node}
    (hoperand : operand.Keeps) : (chain isOperator operand).Keeps := by
  intro tokens
  have hfirst := hoperand tokens
  simp only [chain]
  split <;> rename_i hread <;> rw [hread] at hfirst
  · exact keeps_chainFrom hoperand hfirst
  · exact hfirst

/-- The value assigned to what is no variable is dropped with all its tokens. -/
theorem keeps_assignTo {target value : Node} {noted : List Fault} {equals : Token}
    {rest left outer : List Token} (htarget : target.tokens ++ equals :: rest <+ outer)
    (hvalue : value.tokens ++ left <+ rest) :
    (assignTo target value noted (equals :: rest) left).Keeps outer := by
  have hdropped : left <+ equals :: rest :=
    ((List.sublist_append_right value.tokens left).trans hvalue).cons equals
  unfold assignTo
  split
  · rename_i name
    have hassigned : name :: (value.tokens ++ left) <+ name :: equals :: rest :=
      (hvalue.cons equals).cons_cons name
    exact hassigned.trans htarget
  · exact (List.Sublist.append_left hdropped _).trans htarget

theorem keeps_assignment {target value : Reader Node} (htarget : target.Keeps)
    (hvalue : value.Keeps) : (assignment target value).Keeps := by
  intro tokens
  have hfirst := htarget tokens
  simp only [assignment]
  split <;> rename_i hread <;> rw [hread] at hfirst
  · exact hfirst
  · exact hfirst
  · rename_i node noted t rest
    split
    · have hsecond := hvalue rest
      split <;> rename_i hreadValue <;> rw [hreadValue] at hsecond
      · exact (List.Sublist.trans hsecond (sublist_behind node.tokens t rest)).trans hfirst
      · exact keeps_assignTo hfirst hsecond
    · exact hfirst

end Reader

theorem keeps_expression (depth : Nat) : (expression depth).Keeps := by
  have above {deeper : Level} (h : deeper.unary.Keeps ∧ deeper.expression.Keeps) :
      deeper.above.unary.Keeps ∧ deeper.above.expression.Keeps := by
    have hunary := Reader.keeps_unary h.1 h.2
    have hequality : (equality deeper.above.unary).Keeps :=
      Reader.keeps_chain <| Reader.keeps_chain <| Reader.keeps_chain <| Reader.keeps_chain hunary
    exact ⟨hunary, Reader.keeps_assignment hequality h.2⟩
  suffices h : (Level.ofDepth depth).unary.Keeps ∧ (Level.ofDepth depth).expression.Keeps from h.2
  induction depth with
  | zero => exact above ⟨Reader.keeps_tooDeep, Reader.keeps_tooDeep⟩
  | succ depth ih => exact above ih

theorem keeps_initializer {value : Reader Node} (hvalue : value.Keeps) (tokens : List Token) :
    (initializer value tokens).Keeps tokens := by
  cases tokens with
  | nil => exact List.Sublist.refl []
  | cons t rest =>
    simp only [initializer]
    split
    · exact (hvalue rest).mono (List.sublist_cons_self t rest)
    · exact List.Sublist.refl (t :: rest)

theorem keeps_statement {value : Reader Node} (hvalue : value.Keeps) : (statement value).Keeps := by
  intro tokens
  cases tokens with
  | nil => exact List.Sublist.refl []
  | cons t rest =>
    simp only [statement]
    split
    · cases rest with
      | nil => exact List.nil_sublist [t]
      | cons name rest =>
        simp only [varStatement]
        split
        · have hdeclared := (keeps_initializer hvalue rest).map (f := .var name) [name] fun _ => rfl
          exact (hdeclared.expect _ _).mono (List.sublist_cons_self t _)
        · exact List.sublist_cons_self t (name :: rest)
    · have hprinted := (hvalue rest).map (f := .print) [] fun _ => rfl
      exact (hprinted.expect _ _).mono (List.sublist_cons_self t rest)
    · exact ((hvalue (t :: rest)).map (f := .expression) [] fun _ => rfl).expect _ _

/-- The statements of a program keep some of its tokens, in their order, also when other statements
cannot be read. -/
theorem keeps_readAll {value : Reader Node} (hvalue : value.Keeps) (tokens : List Token) :
    (readAll value tokens).statements.flatMap Node.tokens <+ tokens := by
  fun_induction readAll value tokens with
  | case1 => exact List.Sublist.refl []
  | case2 t rest s noted left hread more ih =>
    have hstatement := keeps_statement hvalue (t :: rest)
    rw [hread] at hstatement
    rw [List.flatMap_cons]
    exact (List.Sublist.append_left ih s.tokens).trans hstatement
  | case3 t rest noted fault hread more ih =>
    have hfault := keeps_statement hvalue (t :: rest)
    rw [hread] at hfault
    obtain ⟨skipped, hskipped, -⟩ := exists_recover fault.left
    have hrecover : recover fault.left <:+ fault.left := ⟨skipped, hskipped.symm⟩
    exact (ih.trans hrecover.sublist).trans hfault

/-- The tokens of a statement are tokens of the program, in their order. -/
theorem tokens_sublist_of_mem {depth : Nat} {tokens : List Token} {s : Node}
    (hs : s ∈ (Program.ofTokensTo depth tokens).statements) :
    s.tokens <+ tokens.takeWhile fun t => t.kind ≠ .eof := by
  refine List.Sublist.trans ?_ (keeps_readAll (keeps_expression depth) _)
  obtain ⟨before, after, hsplit⟩ := List.append_of_mem hs
  change s.tokens <+ (Program.ofTokensTo depth tokens).statements.flatMap Node.tokens
  rw [hsplit, List.flatMap_append, List.flatMap_cons]
  exact List.sublist_append_of_sublist_right (List.sublist_append_left _ _)

end LoxCore.Grammar
