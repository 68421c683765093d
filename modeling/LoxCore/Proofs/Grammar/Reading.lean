import LoxCore.Proofs.Grammar.Yield

/-!
Reading against yielding. A reader that notes no fault has read tokens which its tree yields, and
whatever a tree yields is read back as that tree, unless it nests too deep. Both are shown for each
way to build a reader, so the levels of any depth have them by one induction.
-/
namespace LoxCore

/-- The number of groups, prefix operators and assigned values that stand inside each other in an
expression, or in that of a statement. -/
def Node.nesting : Node → Nat
  | assign _ inner | unary _ inner | grouping inner => nesting inner + 1
  | binary left _ right => max (nesting left) (nesting right)
  | expression inner | print inner | var _ inner => nesting inner
  | null | list _ | literal _ | ref _ | logical .. | block _ | conditional .. => 0

namespace Grammar

/-- The reading failed because no deeper level was left. -/
def Attempt.TooDeep {α : Type} (a : Attempt α) : Prop :=
  ∃ noted left, a = .failed noted ⟨.nestingTooDeep, left⟩

theorem Attempt.TooDeep.map {α β : Type} {a : Attempt α} (h : a.TooDeep) (f : α → β) :
    (a.map f).TooDeep := by
  obtain ⟨noted, left, rfl⟩ := h
  exact ⟨noted, left, rfl⟩

theorem Attempt.TooDeep.expect {α : Type} {a : Attempt α} (h : a.TooDeep) (kind : Token.Kind)
    (expected : Diagnostic.Expected) : (a.expect kind expected).TooDeep := by
  obtain ⟨noted, left, rfl⟩ := h
  exact ⟨noted, left, rfl⟩

/-- A phrase that is read with the token expected after it was read with that token following. -/
theorem Attempt.expect_eq_done {α : Type} {a : Attempt α} {kind : Token.Kind}
    {expected : Diagnostic.Expected} {value : α} {left : List Token}
    (h : a.expect kind expected = .done value [] left) :
    ∃ t, t.kind = kind ∧ a = .done value [] (t :: left) := by
  match a with
  | .failed _ _ | .done _ _ [] => cases h
  | .done value' noted (t :: rest) =>
    simp only [Attempt.expect] at h
    split at h
    · cases h
      exact ⟨t, ‹_›, rfl⟩
    · cases h

theorem Attempt.map_eq_done {α β : Type} {a : Attempt α} {f : α → β} {value : β}
    {noted : List Fault} {left : List Token} (h : a.map f = .done value noted left) :
    ∃ inner, value = f inner ∧ a = .done inner noted left := by
  match a with
  | .failed _ _ => cases h
  | .done inner _ _ =>
    cases h
    exact ⟨inner, rfl, rfl⟩

namespace Reader

/-- What is read without a fault is what the tree yields, and the tree nests less than the limit. -/
def Sound (reader : Reader Node) (r : Rank) (limit : Nat) : Prop :=
  ∀ tokens n left, reader.read tokens = .done n [] left →
    ∃ used, tokens = used ++ left ∧ Yields r n used ∧ n.nesting < limit

/-- What a tree yields is read as that tree, if it ends there and nests less than the limit. -/
def Complete (reader : Reader Node) (r : Rank) (limit : Nat) : Prop :=
  ∀ n used rest, Yields r n used → r.Stops rest →
    reader.read (used ++ rest) = .done n [] rest ∨
      limit ≤ n.nesting ∧ (reader.read (used ++ rest)).TooDeep

theorem sound_tooDeep (r : Rank) : tooDeep.Sound r 0 := by
  intro tokens n left h
  cases h

theorem complete_tooDeep (r : Rank) : tooDeep.Complete r 0 :=
  fun _ _ _ _ _ => .inr ⟨Nat.zero_le _, _, _, rfl⟩

/-! Chains of operators. -/

/-- Faults that were noted stay noted. -/
theorem noted_eq_nil_of_chainFrom {isOperator : Token.Kind → Bool} {operand : Reader Node}
    {node n : Node} {noted : List Fault} {tokens left : List Token}
    (h : chainFrom isOperator operand node noted tokens = .done n [] left) : noted = [] := by
  fun_induction chainFrom isOperator operand node noted tokens with
  | case1 => cases h; rfl
  | case2 node noted t rest _ right more rest' _ ih =>
    exact (List.append_eq_nil_iff.mp (ih h)).1
  | case3 => cases h
  | case4 => cases h; rfl

theorem sound_chainFrom {r : Rank} {operand : Reader Node} {limit : Nat}
    (hoperand : operand.Sound r.tighter limit) {node n : Node} {noted : List Fault}
    {tokens before left : List Token}
    (h : chainFrom r.joins operand node noted tokens = .done n [] left)
    (hnode : Yields r node before) (hnesting : node.nesting < limit) :
    ∃ used, tokens = used ++ left ∧ Yields r n (before ++ used) ∧ n.nesting < limit := by
  fun_induction chainFrom r.joins operand node noted tokens generalizing before with
  | case1 =>
    cases h
    exact ⟨[], rfl, by simpa using hnode, hnesting⟩
  | case2 node noted t rest hjoins right more rest' hread ih =>
    obtain ⟨rfl, rfl⟩ := List.append_eq_nil_iff.mp (noted_eq_nil_of_chainFrom h)
    obtain ⟨usedRight, rfl, hright, hnestingRight⟩ := hoperand _ _ _ hread
    obtain ⟨used, rfl, hn, hnesting⟩ := ih h (.binary hjoins hnode hright)
      (Nat.max_lt.mpr ⟨hnesting, hnestingRight⟩)
    exact ⟨t :: (usedRight ++ used), by simp, by simpa using hn, hnesting⟩
  | case3 => cases h
  | case4 =>
    cases h
    exact ⟨[], rfl, by simpa using hnode, hnesting⟩

theorem sound_chain {r : Rank} (hr : r ≠ .primary) {operand : Reader Node} {limit : Nat}
    (hoperand : operand.Sound r.tighter limit) : (chain r.joins operand).Sound r limit := by
  intro tokens n left h
  simp only [chain] at h
  split at h
  · rename_i node noted rest hread
    obtain rfl := noted_eq_nil_of_chainFrom h
    obtain ⟨first, rfl, hfirst, hnesting⟩ := hoperand _ _ _ hread
    obtain ⟨used, rfl, hn, hnesting⟩ := sound_chainFrom hoperand h (.loosen hr hfirst) hnesting
    exact ⟨first ++ used, by simp, hn, hnesting⟩
  · cases h

/-- One step of a chain over an operand that could be read. -/
theorem chainFrom_of_done {isOperator : Token.Kind → Bool} {operand : Reader Node}
    {left right : Node} {noted more : List Fault} {t : Token} {rest rest' : List Token}
    (hoperator : isOperator t.kind = true) (hread : operand.read rest = .done right more rest') :
    chainFrom isOperator operand left noted (t :: rest) =
      chainFrom isOperator operand (.binary left t right) (noted ++ more) rest' := by
  rw [chainFrom, if_pos hoperator]
  split <;> rename_i hread' <;> rw [hread] at hread' <;> cases hread'
  rfl

theorem chainFrom_of_failed {isOperator : Token.Kind → Bool} {operand : Reader Node}
    {left : Node} {noted more : List Fault} {t : Token} {rest : List Token} {fault : Fault}
    (hoperator : isOperator t.kind = true) (hread : operand.read rest = .failed more fault) :
    chainFrom isOperator operand left noted (t :: rest) = .failed (noted ++ more) fault := by
  rw [chainFrom, if_pos hoperator]
  split <;> rename_i hread' <;> rw [hread] at hread' <;> cases hread'
  rfl

/-- A chain ends before a token that does not go on with it. -/
theorem chainFrom_of_stops {r : Rank} (operand : Reader Node) {n : Node} {rest : List Token}
    (h : r.Stops rest) : chainFrom r.joins operand n [] rest = .done n [] rest := by
  cases rest with
  | nil => rw [chainFrom]
  | cons t rest =>
    have hjoins : ¬r.joins t.kind = true := by
      intro hjoins
      have hstop := Rank.stops_cons.mp h
      rw [Rank.continues_of_joins hjoins] at hstop
      cases hstop
    rw [chainFrom, if_neg hjoins]

/-- Reading a chain reads the tree of the chain so far and goes on from there. The induction meets
the last operator first, while the reading meets the first operator first. -/
theorem read_chain_append {r : Rank} {operand : Reader Node} {limit : Nat} (hassign : r ≠ .assignment)
    (hunary : r ≠ .unary) (hoperand : operand.Complete r.tighter limit) {n : Node}
    {used : List Token} (h : Yields r n used) (rest : List Token) (hrest : r.tighter.Stops rest) :
    (chain r.joins operand).read (used ++ rest) = chainFrom r.joins operand n [] rest ∨
      limit ≤ n.nesting ∧ ((chain r.joins operand).read (used ++ rest)).TooDeep := by
  have first {n : Node} {used rest : List Token} (h : Yields r.tighter n used)
      (hrest : r.tighter.Stops rest) :
      (chain r.joins operand).read (used ++ rest) = chainFrom r.joins operand n [] rest ∨
        limit ≤ n.nesting ∧ ((chain r.joins operand).read (used ++ rest)).TooDeep := by
    rcases hoperand n used rest h hrest with hread | ⟨hlimit, noted, left, hread⟩
    · exact .inl (by simp only [chain, hread])
    · exact .inr ⟨hlimit, noted, left, by simp only [chain, hread]⟩
  induction h generalizing rest with
  | literal h => exact first (.literal h) hrest
  | ref h => exact first (.ref h) hrest
  | grouping hopening hclosing h => exact first (.grouping hopening hclosing h) hrest
  | unary => exact absurd rfl hunary
  | assign => exact absurd rfl hassign
  | loosen _ h => exact first h hrest
  | @binary r operator left right before after hoperator _ hright ih _ =>
    have hstops : r.tighter.Stops (operator :: (after ++ rest)) :=
      Rank.stops_cons.mpr (Rank.not_continues_of_joins hoperator)
    simp only [List.append_assoc, List.cons_append]
    rcases ih hassign hunary hoperand _ hstops first with hleft | ⟨hlimit, hdeep⟩
    · rw [hleft]
      rcases hoperand right after rest hright hrest with hread | ⟨hlimit, noted, left', hread⟩
      · exact .inl (chainFrom_of_done hoperator hread)
      · exact .inr ⟨Nat.le_trans hlimit (Nat.le_max_right _ _), noted, left',
          chainFrom_of_failed hoperator hread⟩
    · exact .inr ⟨Nat.le_trans hlimit (Nat.le_max_left _ _), hdeep⟩

theorem complete_chain {r : Rank} {operand : Reader Node} {limit : Nat} (hassign : r ≠ .assignment)
    (hunary : r ≠ .unary) (hoperand : operand.Complete r.tighter limit) :
    (chain r.joins operand).Complete r limit := by
  intro n used rest h hrest
  rw [← chainFrom_of_stops operand hrest]
  exact read_chain_append hassign hunary hoperand h rest hrest.tighter

/-! Primary and unary expressions. -/

theorem sound_primary {nested : Reader Node} {limit : Nat}
    (hnested : nested.Sound .assignment limit) : (primary nested).Sound .primary (limit + 1) := by
  intro tokens n left h
  cases tokens with
  | nil => cases h
  | cons t rest =>
    simp only [primary] at h
    split at h <;> rename_i hkind
    case h_7 =>
      obtain ⟨closing, hclosing, hmap⟩ := Attempt.expect_eq_done h
      obtain ⟨inner, rfl, hread⟩ := Attempt.map_eq_done hmap
      obtain ⟨used, rfl, hinner, hnesting⟩ := hnested _ _ _ hread
      exact ⟨t :: (used ++ [closing]), by simp, .grouping hkind hclosing hinner,
        Nat.succ_lt_succ hnesting⟩
    case h_6 =>
      cases h
      exact ⟨[t], rfl, .ref hkind, Nat.succ_pos limit⟩
    case h_8 => cases h
    all_goals
      cases h
      exact ⟨[t], rfl, .literal (by simp [literalValue?, hkind]), Nat.succ_pos limit⟩

theorem complete_primary {nested : Reader Node} {limit : Nat}
    (hnested : nested.Complete .assignment limit) :
    (primary nested).Complete .primary (limit + 1) := by
  intro n used rest h _
  cases h with
  | @literal t value hvalue =>
    left
    unfold literalValue? at hvalue
    split at hvalue <;> rename_i hkind <;> cases hvalue <;> simp [primary, hkind]
  | ref hkind => exact .inl (by simp [primary, hkind])
  | @grouping opening closing inner tokens hopening hclosing hinner =>
    have hstops : Rank.Stops .assignment (closing :: rest) :=
      Rank.stops_cons.mpr (by rw [hclosing]; rfl)
    have hprimary : (primary nested).read (opening :: (tokens ++ [closing]) ++ rest) =
        ((nested.read (tokens ++ closing :: rest)).map .grouping).expect .rightParen
          .closingParen := by
      simp [primary, hopening]
    rw [hprimary]
    rcases hnested inner tokens _ hinner hstops with hread | ⟨hlimit, hdeep⟩
    · left
      rw [hread]
      simp [Attempt.map, Attempt.expect, hclosing]
    · exact .inr ⟨Nat.succ_le_succ hlimit, (hdeep.map _).expect _ _⟩
  | binary hoperator => cases hoperator
  | loosen hrank => exact absurd rfl hrank

theorem sound_unary {deeper nested : Reader Node} {limit : Nat} (hdeeper : deeper.Sound .unary limit)
    (hnested : nested.Sound .assignment limit) :
    (Grammar.unary deeper nested).Sound .unary (limit + 1) := by
  intro tokens n left h
  cases tokens with
  | nil => cases h
  | cons t rest =>
    simp only [Grammar.unary] at h
    split at h
    · obtain ⟨right, rfl, hread⟩ := Attempt.map_eq_done h
      obtain ⟨used, rfl, hright, hnesting⟩ := hdeeper _ _ _ hread
      exact ⟨t :: used, rfl, .unary ‹_› hright, Nat.succ_lt_succ hnesting⟩
    · obtain ⟨used, hused, hn, hnesting⟩ := sound_primary hnested _ _ _ h
      exact ⟨used, hused, .loosen (by decide) hn, hnesting⟩

theorem complete_unary {deeper nested : Reader Node} {limit : Nat}
    (hdeeper : deeper.Complete .unary limit) (hnested : nested.Complete .assignment limit) :
    (Grammar.unary deeper nested).Complete .unary (limit + 1) := by
  intro n used rest h hrest
  cases h with
  | @unary operator right tokens hoperator hright =>
    have hunary : (Grammar.unary deeper nested).read (operator :: tokens ++ rest) =
        (deeper.read (tokens ++ rest)).map (.unary operator) := by
      simp [Grammar.unary, hoperator]
    rw [hunary]
    rcases hdeeper right tokens rest hright hrest with hread | ⟨hlimit, hdeep⟩
    · left
      rw [hread]
      rfl
    · exact .inr ⟨Nat.succ_le_succ hlimit, hdeep.map _⟩
  | binary hoperator => cases hoperator
  | loosen _ hprimary =>
    obtain ⟨t, more, rfl, hoperator⟩ := hprimary.primary_head
    have hunary : (Grammar.unary deeper nested).read (t :: more ++ rest) =
        (primary nested).read (t :: more ++ rest) := by
      simp [Grammar.unary, hoperator]
    rw [hunary]
    exact complete_primary hnested n _ rest hprimary (by simp [Rank.Stops, Rank.continues])

/-! Assignments. -/

theorem sound_assignment {target value : Reader Node} {limit : Nat}
    (htarget : target.Sound .equality (limit + 1)) (hvalue : value.Sound .assignment limit) :
    (assignment target value).Sound .assignment (limit + 1) := by
  intro tokens n left h
  simp only [assignment] at h
  split at h
  · cases h
  · rename_i node noted hread
    cases h
    obtain ⟨used, rfl, hn, hnesting⟩ := htarget _ _ _ hread
    exact ⟨used, rfl, .loosen (by decide) hn, hnesting⟩
  · rename_i node noted t rest hread
    split at h
    · split at h
      · cases h
      · rename_i v more left' hreadValue
        unfold assignTo at h
        split at h
        · simp only [Attempt.done.injEq, List.append_eq_nil_iff] at h
          obtain ⟨rfl, ⟨rfl, rfl⟩, rfl⟩ := h
          obtain ⟨used, rfl, hn, -⟩ := htarget _ _ _ hread
          obtain ⟨rfl, hname⟩ := hn.of_ref
          obtain ⟨usedValue, rfl, hv, hnesting⟩ := hvalue _ _ _ hreadValue
          exact ⟨_ :: t :: usedValue, rfl, .assign hname ‹_› hv, Nat.succ_lt_succ hnesting⟩
        · -- A target that is no variable leaves a fault behind.
          simp at h
    · cases h
      obtain ⟨used, rfl, hn, hnesting⟩ := htarget _ _ _ hread
      exact ⟨used, rfl, .loosen (by decide) hn, hnesting⟩

theorem complete_assignment {target value : Reader Node} {limit : Nat}
    (htarget : target.Complete .equality (limit + 1)) (hvalue : value.Complete .assignment limit) :
    (assignment target value).Complete .assignment (limit + 1) := by
  intro n used rest h hrest
  cases h with
  | @assign name equals v tokens hname hequals hv =>
    have hstops : Rank.Stops .equality (equals :: (tokens ++ rest)) :=
      Rank.stops_cons.mpr (by rw [hequals]; rfl)
    have href : Yields .equality (.ref name) [name] := .of_primary (.ref hname)
    simp only [List.cons_append]
    rcases htarget _ _ _ href hstops with hread | ⟨hlimit, -⟩
    · simp only [List.cons_append, List.nil_append] at hread
      rcases hvalue v tokens rest hv hrest with hreadValue | ⟨hlimit, noted, left, hreadValue⟩
      · exact .inl (by simp [assignment, hread, hequals, hreadValue, assignTo])
      · exact .inr ⟨Nat.succ_le_succ hlimit, noted, left,
          by simp [assignment, hread, hequals, hreadValue]⟩
    · exact absurd hlimit (Nat.not_succ_le_zero limit)
  | binary hoperator => cases hoperator
  | loosen _ hequality =>
    rcases htarget n used rest hequality hrest.tighter with hread | ⟨hlimit, noted, left, hread⟩
    · left
      cases rest with
      | nil => simp only [assignment, hread]
      | cons t rest =>
        have hequal : t.kind ≠ .equal := by
          intro hequal
          have hstop := Rank.stops_cons.mp hrest
          rw [hequal] at hstop
          cases hstop
        simp only [assignment, hread, if_neg hequal]
    · exact .inr ⟨hlimit, noted, left, by simp only [assignment, hread]⟩

end Reader

/-! Levels. -/

/-- Both readers of a level read what their ranks yield if it nests less than the limit, and nothing
else without a fault. -/
structure Level.Faithful (level : Level) (limit : Nat) : Prop where
  sound_unary : level.unary.Sound .unary limit
  complete_unary : level.unary.Complete .unary limit
  sound_expression : level.expression.Sound .assignment limit
  complete_expression : level.expression.Complete .assignment limit

theorem Level.Faithful.above {deeper : Level} {limit : Nat} (h : deeper.Faithful limit) :
    deeper.above.Faithful (limit + 1) := by
  have hunarySound := Reader.sound_unary h.sound_unary h.sound_expression
  have hunaryComplete := Reader.complete_unary h.complete_unary h.complete_expression
  have hsound : (equality deeper.above.unary).Sound .equality (limit + 1) :=
    Reader.sound_chain (r := .equality) (by decide) <|
    Reader.sound_chain (r := .comparison) (by decide) <|
    Reader.sound_chain (r := .term) (by decide) <|
    Reader.sound_chain (r := .factor) (by decide) hunarySound
  have hcomplete : (equality deeper.above.unary).Complete .equality (limit + 1) :=
    Reader.complete_chain (r := .equality) (by decide) (by decide) <|
    Reader.complete_chain (r := .comparison) (by decide) (by decide) <|
    Reader.complete_chain (r := .term) (by decide) (by decide) <|
    Reader.complete_chain (r := .factor) (by decide) (by decide) hunaryComplete
  exact ⟨hunarySound, hunaryComplete, Reader.sound_assignment hsound h.sound_expression,
    Reader.complete_assignment hcomplete h.complete_expression⟩

theorem Level.faithful_ofDepth (depth : Nat) : (Level.ofDepth depth).Faithful (depth + 1) := by
  induction depth with
  | zero =>
    exact Level.Faithful.above ⟨Reader.sound_tooDeep _, Reader.complete_tooDeep _,
      Reader.sound_tooDeep _, Reader.complete_tooDeep _⟩
  | succ depth ih => exact ih.above

theorem sound_expression (depth : Nat) : (expression depth).Sound .assignment (depth + 1) :=
  (Level.faithful_ofDepth depth).sound_expression

theorem complete_expression (depth : Nat) : (expression depth).Complete .assignment (depth + 1) :=
  (Level.faithful_ofDepth depth).complete_expression

/-! Statements and programs. -/

theorem sound_statement {value : Reader Node} {limit : Nat}
    (hvalue : value.Sound .assignment (limit + 1)) {tokens left : List Token} {n : Node}
    (h : (statement value).read tokens = .done n [] left) :
    ∃ used, tokens = used ++ left ∧ StatementYields n used ∧ n.nesting < limit + 1 := by
  cases tokens with
  | nil => cases h
  | cons t rest =>
    simp only [statement] at h
    split at h <;> rename_i hkind
    · cases rest with
      | nil => cases h
      | cons name rest =>
        simp only [varStatement] at h
        split at h <;> rename_i hname
        · obtain ⟨semicolon, hsemicolon, hmap⟩ := Attempt.expect_eq_done h
          obtain ⟨v, rfl, hread⟩ := Attempt.map_eq_done hmap
          cases rest with
          | nil => cases hread
          | cons equals rest =>
            simp only [initializer] at hread
            split at hread
            · obtain ⟨used, rfl, hv, hnesting⟩ := hvalue _ _ _ hread
              exact ⟨t :: name :: equals :: (used ++ [semicolon]), by simp,
                .define hkind hname ‹_› hv hsemicolon, hnesting⟩
            · cases hread
              exact ⟨[t, name, semicolon], rfl, .declare hkind hname hsemicolon, Nat.succ_pos limit⟩
        · cases h
    · obtain ⟨semicolon, hsemicolon, hmap⟩ := Attempt.expect_eq_done h
      obtain ⟨inner, rfl, hread⟩ := Attempt.map_eq_done hmap
      obtain ⟨used, rfl, hinner, hnesting⟩ := hvalue _ _ _ hread
      exact ⟨t :: (used ++ [semicolon]), by simp, .print hkind hinner hsemicolon, hnesting⟩
    · obtain ⟨semicolon, hsemicolon, hmap⟩ := Attempt.expect_eq_done h
      obtain ⟨inner, rfl, hread⟩ := Attempt.map_eq_done hmap
      obtain ⟨used, hused, hinner, hnesting⟩ := hvalue _ _ _ hread
      exact ⟨used ++ [semicolon], by simp [hused], .expression hinner hsemicolon, hnesting⟩

/-- An expression with a semicolon behind it, read as a whole. -/
theorem read_before_semicolon {value : Reader Node} {limit : Nat}
    (hvalue : value.Complete .assignment limit) {n : Node} {tokens : List Token}
    (h : Yields .assignment n tokens) {semicolon : Token}
    (hsemicolon : semicolon.kind = .semicolon) (build : Node → Node)
    (expected : Diagnostic.Expected) (rest : List Token) :
    ((value.read (tokens ++ semicolon :: rest)).map build).expect .semicolon expected =
        .done (build n) [] rest ∨
      limit ≤ n.nesting ∧ (((value.read (tokens ++ semicolon :: rest)).map build).expect .semicolon
        expected).TooDeep := by
  have hstops : Rank.Stops .assignment (semicolon :: rest) :=
    Rank.stops_cons.mpr (by rw [hsemicolon]; rfl)
  rcases hvalue n tokens _ h hstops with hread | ⟨hlimit, hdeep⟩
  · left
    rw [hread]
    simp [Attempt.map, Attempt.expect, hsemicolon]
  · exact .inr ⟨hlimit, (hdeep.map _).expect _ _⟩

theorem complete_statement {value : Reader Node} {limit : Nat}
    (hvalue : value.Complete .assignment limit) {n : Node} {used : List Token}
    (h : StatementYields n used) (rest : List Token) :
    (statement value).read (used ++ rest) = .done n [] rest ∨
      limit ≤ n.nesting ∧ ((statement value).read (used ++ rest)).TooDeep := by
  cases h with
  | @expression semicolon inner tokens hinner hsemicolon =>
    have hread := read_before_semicolon hvalue hinner hsemicolon .expression
      .semicolonAfterExpression rest
    obtain ⟨t, more, rfl, hstart⟩ := hinner.exists_head
    have hstatement : (statement value).read (t :: more ++ [semicolon] ++ rest) =
        ((value.read (t :: more ++ semicolon :: rest)).map .expression).expect .semicolon
          .semicolonAfterExpression := by
      simp only [List.cons_append, List.append_assoc, List.nil_append, statement]
      split <;> simp_all [startsExpression]
    rw [hstatement]
    exact hread
  | @print word semicolon inner tokens hword hinner hsemicolon =>
    have hstatement : (statement value).read (word :: (tokens ++ [semicolon]) ++ rest) =
        ((value.read (tokens ++ semicolon :: rest)).map .print).expect .semicolon
          .semicolonAfterValue := by
      simp [statement, hword]
    rw [hstatement]
    exact read_before_semicolon hvalue hinner hsemicolon _ _ rest
  | declare hword hname hsemicolon =>
    left
    simp [statement, hword, varStatement, hname, initializer, hsemicolon, Attempt.map,
      Attempt.expect]
  | @define word name equals semicolon v tokens hword hname hequals hv hsemicolon =>
    have hstatement :
        (statement value).read (word :: name :: equals :: (tokens ++ [semicolon]) ++ rest) =
          ((value.read (tokens ++ semicolon :: rest)).map (.var name)).expect .semicolon
            .semicolonAfterDeclaration := by
      simp [statement, hword, varStatement, hname, initializer, hequals]
    rw [hstatement]
    exact read_before_semicolon hvalue hv hsemicolon _ _ rest

theorem readAll_of_done {value : Reader Node} {tokens left : List Token} {s : Node}
    {noted : List Fault} (hread : (statement value).read tokens = .done s noted left) :
    readAll value tokens =
      ⟨s :: (readAll value left).statements, noted ++ (readAll value left).faults⟩ := by
  cases tokens with
  | nil => cases hread
  | cons t rest =>
    rw [readAll]
    split <;> rename_i hread' <;> rw [hread] at hread' <;> cases hread'
    rfl

theorem readAll_of_failed {value : Reader Node} {tokens : List Token} {noted : List Fault}
    {fault : Fault} (hread : (statement value).read tokens = .failed noted fault)
    (hne : tokens ≠ []) :
    readAll value tokens = ⟨(readAll value (recover fault.left)).statements,
      noted ++ fault :: (readAll value (recover fault.left)).faults⟩ := by
  cases tokens with
  | nil => exact absurd rfl hne
  | cons t rest =>
    rw [readAll]
    split <;> rename_i hread' <;> rw [hread] at hread' <;> cases hread'
    rfl

theorem mem_faults_of_failed {value : Reader Node} {tokens : List Token} {noted : List Fault}
    {fault : Fault} (hread : (statement value).read tokens = .failed noted fault)
    (hne : tokens ≠ []) : fault ∈ (readAll value tokens).faults := by
  rw [readAll_of_failed hread hne]
  simp

/-- Tokens read without any fault are a program, and the statements are its trees. None of them
nests too deep. -/
theorem sound_readAll {value : Reader Node} {limit : Nat}
    (hvalue : value.Sound .assignment (limit + 1)) {tokens : List Token}
    (h : (readAll value tokens).faults = []) :
    ProgramYields (readAll value tokens).statements tokens ∧
      ∀ s ∈ (readAll value tokens).statements, s.nesting < limit + 1 := by
  fun_induction readAll value tokens with
  | case1 => exact ⟨.nil, nofun⟩
  | case2 t rest s noted left hread more ih =>
    obtain ⟨rfl, hmore⟩ := List.append_eq_nil_iff.mp h
    obtain ⟨used, hused, hs, hnesting⟩ := sound_statement hvalue hread
    obtain ⟨hyields, hall⟩ := ih hmore
    rw [hused]
    exact ⟨.cons hs hyields, List.forall_mem_cons.mpr ⟨hnesting, hall⟩⟩
  | case3 => simp at h

/-- A program is read as its own trees, unless one of them nests too deep. -/
theorem complete_readAll {value : Reader Node} {limit : Nat}
    (hvalue : value.Complete .assignment limit) {statements : List Node} {tokens : List Token}
    (h : ProgramYields statements tokens) :
    readAll value tokens = ⟨statements, []⟩ ∨
      (∃ s ∈ statements, limit ≤ s.nesting) ∧
        ∃ fault ∈ (readAll value tokens).faults, fault.cause = .nestingTooDeep := by
  induction h with
  | nil =>
    left
    rw [readAll]
  | @cons s more before after hs _ ih =>
    rcases complete_statement hvalue hs after with hread | ⟨hlimit, noted, left, hread⟩
    · rw [readAll_of_done hread]
      rcases ih with hrest | ⟨⟨deep, hmem, hlimit⟩, fault, hfault, hcause⟩
      · left
        rw [hrest]
        rfl
      · exact .inr ⟨⟨deep, List.mem_cons_of_mem s hmem, hlimit⟩, fault, by simpa using hfault, hcause⟩
    · have hne : before ++ after ≠ [] := by cases hs <;> simp
      exact .inr ⟨⟨s, List.mem_cons_self, hlimit⟩, _, mem_faults_of_failed hread hne, rfl⟩

end Grammar

namespace Program

open Grammar

variable {depth : Nat} {tokens : List Token}

/-- The statements of a program without errors yield the tokens before its end mark. -/
theorem programYields_of_errors_eq_nil (h : (ofTokensTo depth tokens).errors = []) :
    ProgramYields (ofTokensTo depth tokens).statements (tokens.takeWhile fun t => t.kind ≠ .eof) :=
  (sound_readAll (sound_expression depth) (List.map_eq_nil_iff.mp h)).1

/-- The statements of a program without errors do not nest too deep. -/
theorem nesting_le_of_errors_eq_nil (h : (ofTokensTo depth tokens).errors = []) :
    ∀ s ∈ (ofTokensTo depth tokens).statements, s.nesting ≤ depth := fun s hs =>
  Nat.le_of_lt_succ ((sound_readAll (sound_expression depth) (List.map_eq_nil_iff.mp h)).2 s hs)

/-- Tokens that some statements yield are read as those, unless they nest too deep. -/
theorem ofTokensTo_of_programYields {statements : List Node}
    (h : ProgramYields statements (tokens.takeWhile fun t => t.kind ≠ .eof))
    (hdepth : ∀ d ∈ (ofTokensTo depth tokens).errors, d.code ≠ 71) :
    ofTokensTo depth tokens = ⟨statements, []⟩ := by
  rcases complete_readAll (complete_expression depth) h with hread | ⟨-, fault, hfault, hcause⟩
  · simp only [ofTokensTo, hread, List.map_nil]
  · refine absurd ?_ (hdepth _ (List.mem_map_of_mem hfault))
    simp [Fault.diagnostic, Diagnostic.onToken, Diagnostic.code, hcause, Diagnostic.Cause.code]

/-- Tokens that some statements yield are read as those, if none nests too deep. -/
theorem ofTokensTo_of_nesting_le {statements : List Node}
    (h : ProgramYields statements (tokens.takeWhile fun t => t.kind ≠ .eof))
    (hnesting : ∀ s ∈ statements, s.nesting ≤ depth) : ofTokensTo depth tokens = ⟨statements, []⟩ := by
  rcases complete_readAll (complete_expression depth) h with hread | ⟨⟨s, hs, hlimit⟩, -⟩
  · simp only [ofTokensTo, hread, List.map_nil]
  · exact absurd (hnesting s hs) (Nat.not_le_of_lt hlimit)

end Program

end LoxCore
