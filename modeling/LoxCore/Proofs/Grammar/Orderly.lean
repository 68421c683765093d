import LoxCore.Proofs.Grammar.Likeness

/-!
The order in which faults are recorded. A fault that stops a statement is recorded where the reading
stands. The fault of an assignment to what is no variable is recorded when the value has been read, so
it comes after the faults of the assignments inside that value, though its equals sign stands before
theirs. Nothing else changes the order of the tokens.
-/
namespace LoxCore

/-- Whether a statement cannot be read on after a fault of this cause. -/
def Diagnostic.Cause.stopsStatement : Diagnostic.Cause → Bool
  | expectExpression | expectToken _ | nestingTooDeep => true
  | _ => false

theorem Diagnostic.Cause.ne_of_stopsStatement {cause : Diagnostic.Cause}
    (h : cause.stopsStatement = true) : cause ≠ .invalidAssignmentTarget := by
  rintro rfl
  cases h

namespace Grammar

/-! Tokens inside an expression. -/

/-- The number of groups that are open after a token, when `groups` are open before it. A token that
ends a statement or starts one has no place inside an expression, nor has one that closes a group when
none is open. -/
def enter (groups : Nat) (t : Token) : Option Nat :=
  match t.kind with
  | .leftParen => some (groups + 1)
  | .rightParen => if groups = 0 then none else some (groups - 1)
  | .semicolon => none
  | kind => if startsStatement kind then none else some groups

/-- The tokens leave neither the expression nor the group in which they start. -/
def Inside (tokens : List Token) : Prop :=
  ∃ groups, tokens.foldlM enter 0 = some groups

/-- The tokens close every group that they open, and no other. -/
def Balanced (tokens : List Token) : Prop :=
  tokens.foldlM enter 0 = some 0

section Inside

variable {groups after : Nat} {t : Token} {tokens more : List Token}

theorem enter_add (h : enter groups t = some after) (further : Nat) :
    enter (groups + further) t = some (after + further) := by
  unfold enter at h ⊢
  split at h <;> simp_all <;> omega

theorem foldlM_enter_add (h : tokens.foldlM enter groups = some after) (further : Nat) :
    tokens.foldlM enter (groups + further) = some (after + further) := by
  induction tokens generalizing groups with
  | nil =>
    obtain rfl := Option.some.inj h
    rfl
  | cons t tokens ih =>
    rw [List.foldlM_cons] at h ⊢
    obtain ⟨next, hnext, hrest⟩ := Option.bind_eq_some_iff.mp h
    rw [enter_add hnext]
    exact ih hrest

theorem Balanced.inside (h : Balanced tokens) : Inside tokens :=
  ⟨0, h⟩

theorem inside_nil : Inside [] :=
  ⟨0, rfl⟩

theorem Inside.append (h : Inside tokens) (hmore : Inside more) : Inside (tokens ++ more) := by
  obtain ⟨groups, h⟩ := h
  obtain ⟨after, hmore⟩ := hmore
  refine ⟨after + groups, ?_⟩
  rw [List.foldlM_append, h]
  simpa using foldlM_enter_add hmore groups

theorem Inside.of_append (h : Inside (tokens ++ more)) : Inside tokens := by
  obtain ⟨groups, h⟩ := h
  rw [List.foldlM_append] at h
  obtain ⟨next, hnext, -⟩ := Option.bind_eq_some_iff.mp h
  exact ⟨next, hnext⟩

theorem Balanced.append (h : Balanced tokens) (hmore : Balanced more) :
    Balanced (tokens ++ more) := by
  rw [Balanced, List.foldlM_append, h]
  exact hmore

theorem balanced_singleton (h : enter 0 t = some 0) : Balanced [t] := by
  simp [Balanced, h]

theorem balanced_of_joins {r : Rank} (h : r.joins t.kind = true) : Balanced [t] := by
  apply balanced_singleton
  unfold enter
  generalize t.kind = kind at h ⊢
  cases r <;> cases kind <;> first | rfl | cases h

theorem balanced_of_isUnaryOperator (h : isUnaryOperator t.kind = true) : Balanced [t] := by
  apply balanced_singleton
  unfold enter
  generalize t.kind = kind at h ⊢
  cases kind <;> first | rfl | cases h

/-- A group is balanced if what it holds is. -/
theorem Balanced.group {opening closing : Token} (hopening : opening.kind = .leftParen)
    (hclosing : closing.kind = .rightParen) (h : Balanced tokens) :
    Balanced (opening :: (tokens ++ [closing])) := by
  have hinner : tokens.foldlM enter 1 = some 1 := foldlM_enter_add h 1
  simp [Balanced, List.foldlM_append, enter, hopening, hclosing, hinner]

/-- Behind a place in balanced tokens, the next closing token closes a group that was open there. -/
theorem Balanced.not_inside_closing {before value : List Token} (h : Balanced (before ++ value))
    {closing : Token} (hclosing : closing.kind = .rightParen) : ¬Inside (value ++ [closing]) := by
  rintro ⟨after, hafter⟩
  rw [List.foldlM_append] at hafter
  obtain ⟨groups, hvalue, hlast⟩ := Option.bind_eq_some_iff.mp hafter
  rw [Balanced, List.foldlM_append] at h
  obtain ⟨outer, hbefore, hrest⟩ := Option.bind_eq_some_iff.mp h
  have hsum := foldlM_enter_add hvalue outer
  rw [Nat.zero_add, hrest] at hsum
  obtain rfl : groups = 0 := by
    have := Option.some.inj hsum
    omega
  simp [enter, hclosing] at hlast

/-- Where a statement ends or starts, no expression goes on. -/
theorem not_inside_of_mem (ht : t ∈ tokens)
    (h : t.kind = .semicolon ∨ startsStatement t.kind = true) : ¬Inside tokens := by
  have hstop (groups : Nat) : enter groups t = none := by
    rcases h with h | h
    · simp [enter, h]
    · unfold enter
      split <;> simp_all [startsStatement]
  obtain ⟨before, after, rfl⟩ := List.append_of_mem ht
  rintro ⟨groups, hgroups⟩
  rw [List.foldlM_append] at hgroups
  obtain ⟨next, -, hnext⟩ := Option.bind_eq_some_iff.mp hgroups
  simp [hstop] at hnext

end Inside

/-! Faults in the order of their tokens, and in the order in which they are recorded. -/

namespace Fault

/-- The first fault is at a token before that of the second. -/
def Before (first second : Fault) : Prop :=
  ∃ t between, first.left = t :: (between ++ second.left)

/-- Both faults are at equals signs of assignments to what is no variable, and the second stands in
the value of the first. -/
def Encloses (outer inner : Fault) : Prop :=
  outer.cause = .invalidAssignmentTarget ∧ inner.cause = .invalidAssignmentTarget ∧
    ∃ equals between, outer.left = equals :: (between ++ inner.left) ∧ Inside between

/-- How two faults lie if the first is recorded earlier. -/
def Recorded (earlier later : Fault) : Prop :=
  (earlier.Before later ∧ ¬earlier.Encloses later) ∨ later.Encloses earlier

/-- The fault is at an equals sign in the tokens up to `left`. -/
def NotedBefore (left : List Token) (f : Fault) : Prop :=
  f.cause = .invalidAssignmentTarget ∧
    ∃ equals value, equals.kind = .equal ∧ f.left = equals :: (value ++ left)

/-- The fault is in a group that is closed before `left`, or in a statement that is over. -/
def ClosedBefore (left : List Token) (f : Fault) : Prop :=
  ∀ equals value, f.left = equals :: (value ++ left) → ¬Inside value

variable {f g : Fault} {left more : List Token}

theorem NotedBefore.append (h : f.NotedBefore (more ++ left)) : f.NotedBefore left := by
  obtain ⟨hcause, equals, value, hequals, hleft⟩ := h
  exact ⟨hcause, equals, value ++ more, hequals, by simp [hleft]⟩

theorem ClosedBefore.append (hnoted : f.NotedBefore (more ++ left))
    (h : f.ClosedBefore (more ++ left)) : f.ClosedBefore left := by
  intro equals value hvalue hinside
  obtain ⟨-, equals', value', -, hleft⟩ := hnoted
  rw [hleft, ← List.append_assoc] at hvalue
  obtain ⟨rfl, htail⟩ := List.cons.inj hvalue
  obtain rfl := List.append_cancel_right htail
  exact h _ value' hleft hinside.of_append

/-- What is recorded behind a fault in a closed group does not stand in the value at that fault. -/
theorem ClosedBefore.recorded (hnoted : f.NotedBefore left) (h : f.ClosedBefore left)
    (hg : g.left <:+ left) : f.Recorded g := by
  obtain ⟨-, equals, value, -, hleft⟩ := hnoted
  obtain ⟨between, rfl⟩ := hg
  refine .inl ⟨⟨equals, value ++ between, by simp [hleft]⟩, ?_⟩
  rintro ⟨-, -, equals', value', hvalue, hinside⟩
  rw [hleft, ← List.append_assoc] at hvalue
  obtain ⟨rfl, htail⟩ := List.cons.inj hvalue
  obtain rfl := List.append_cancel_right htail
  exact h _ value hleft hinside.of_append

/-- A fault that stops a statement is recorded after all that were noted before it. -/
theorem NotedBefore.recorded (h : f.NotedBefore g.left)
    (hg : g.cause ≠ .invalidAssignmentTarget) : f.Recorded g := by
  obtain ⟨-, equals, value, -, hleft⟩ := h
  exact .inl ⟨⟨equals, value, hleft⟩, fun hencloses => hg hencloses.2.1⟩

end Fault

/-! What reading does to the tokens and the faults. -/

namespace Attempt

/-- Reading an expression of some rank uses balanced tokens, and what it notes is in the order of
recording. An expression that is no assignment notes faults in its groups only. -/
def Orderly (r : Rank) (tokens : List Token) : Attempt Node → Prop
  | done _ noted left =>
    noted.Pairwise Fault.Recorded ∧ ∃ used, tokens = used ++ left ∧ Balanced used ∧
      ∀ f ∈ noted, f.NotedBefore left ∧ (r ≠ .assignment → f.ClosedBefore left) ∧
        ∃ before, tokens = before ++ f.left ∧ Inside before
  | failed noted fault =>
    noted.Pairwise Fault.Recorded ∧ fault.cause.stopsStatement = true ∧
      ∃ used, tokens = used ++ fault.left ∧ Inside used ∧
        ∀ f ∈ noted, f.NotedBefore fault.left ∧ ∃ before, tokens = before ++ f.left ∧ Inside before

/-- Add faults that were noted before. -/
def note (noted : List Fault) : Attempt Node → Attempt Node
  | done value more left => done value (noted ++ more) left
  | failed more fault => failed (noted ++ more) fault

variable {r r' : Rank} {tokens outer left : List Token} {a : Attempt Node} {n m : Node}
  {noted : List Fault} {t : Token}

theorem Orderly.map (h : a.Orderly r tokens) (f : Node → Node) : (a.map f).Orderly r tokens := by
  cases a <;> exact h

/-- All ranks but the loosest ask for the same. -/
theorem Orderly.of_ne (h : a.Orderly r tokens) (hr : r ≠ .assignment) : a.Orderly r' tokens := by
  cases a with
  | failed => exact h
  | done =>
    obtain ⟨hnoted, used, hused, hbalanced, hall⟩ := h
    refine ⟨hnoted, used, hused, hbalanced, ?_⟩
    exact fun f hf => ⟨(hall f hf).1, fun _ => (hall f hf).2.1 hr, (hall f hf).2.2⟩

theorem note_nil (a : Attempt Node) : a.note [] = a := by
  cases a <;> rfl

/-- Reading on after tokens whose faults are all in closed groups. -/
theorem Orderly.note (h : a.Orderly r' tokens) (hr : r ≠ .assignment)
    (hfirst : (done n noted tokens).Orderly r outer) : (a.note noted).Orderly r' outer := by
  obtain ⟨hnoted, used, rfl, hused, hfirst⟩ := hfirst
  have hall {more : List Fault} (hmore : more.Pairwise Fault.Recorded)
      (hsuffix : ∀ g ∈ more, ∃ before, tokens = before ++ g.left ∧ Inside before) :
      (noted ++ more).Pairwise Fault.Recorded := by
    refine List.pairwise_append.mpr ⟨hnoted, hmore, ?_⟩
    intro f hf g hg
    obtain ⟨hbefore, hclosed, -⟩ := hfirst f hf
    obtain ⟨before, hleft, -⟩ := hsuffix g hg
    exact (hclosed hr).recorded hbefore ⟨before, hleft.symm⟩
  have hstart {f : Fault} (h : ∃ before, tokens = before ++ f.left ∧ Inside before) :
      ∃ before, used ++ tokens = before ++ f.left ∧ Inside before := by
    obtain ⟨before, hleft, hinside⟩ := h
    exact ⟨used ++ before, by rw [List.append_assoc, ← hleft], hused.inside.append hinside⟩
  cases a with
  | done n more left =>
    obtain ⟨hmore, used', rfl, hused', hsecond⟩ := h
    refine ⟨hall hmore fun g hg => (hsecond g hg).2.2, used ++ used', by simp, hused.append hused', ?_⟩
    intro f hf
    rcases List.mem_append.mp hf with hf | hf
    · obtain ⟨hbefore, hclosed, hinside⟩ := hfirst f hf
      exact ⟨hbefore.append, fun _ => (hclosed hr).append hbefore, hinside⟩
    · obtain ⟨hbefore, hclosed, hinside⟩ := hsecond f hf
      exact ⟨hbefore, hclosed, hstart hinside⟩
  | failed more fault =>
    obtain ⟨hmore, hcause, used', rfl, hused', hsecond⟩ := h
    refine ⟨hall hmore fun g hg => (hsecond g hg).2, hcause, used ++ used', by simp,
      hused.inside.append hused', ?_⟩
    intro f hf
    rcases List.mem_append.mp hf with hf | hf
    · obtain ⟨hbefore, -, hinside⟩ := hfirst f hf
      exact ⟨hbefore.append, hinside⟩
    · obtain ⟨hbefore, hinside⟩ := hsecond f hf
      exact ⟨hbefore, hstart hinside⟩

/-- Reading past a token that neither opens nor closes anything. -/
theorem Orderly.pass (h : (done n noted (t :: left)).Orderly r outer) (ht : Balanced [t]) :
    (done m noted left).Orderly r outer := by
  obtain ⟨hnoted, used, rfl, hused, hall⟩ := h
  refine ⟨hnoted, used ++ [t], by simp, hused.append ht, ?_⟩
  intro f hf
  obtain ⟨hbefore, hclosed, hinside⟩ := hall f hf
  have hbefore : f.NotedBefore ([t] ++ left) := hbefore
  exact ⟨hbefore.append, fun hr => (hclosed hr).append hbefore, hinside⟩

/-- A closing token behind what is read in a group closes the groups of all faults in it. -/
theorem Orderly.expect_closing {opening : Token} (hopening : opening.kind = .leftParen)
    (h : a.Orderly .assignment tokens) :
    (a.expect .rightParen .closingParen).Orderly .primary (opening :: tokens) := by
  have hopen {before : List Token} (h : Inside before) : Inside (opening :: before) := by
    have hfirst : Inside [opening] := ⟨1, by simp [enter, hopening]⟩
    exact hfirst.append h
  have hstart {f : Fault} (h : ∃ before, tokens = before ++ f.left ∧ Inside before) :
      ∃ before, opening :: tokens = before ++ f.left ∧ Inside before := by
    obtain ⟨before, hleft, hinside⟩ := h
    exact ⟨opening :: before, by rw [hleft, List.cons_append], hopen hinside⟩
  cases a with
  | failed noted fault =>
    obtain ⟨hnoted, hcause, used, hused, hinside, hall⟩ := h
    refine ⟨hnoted, hcause, opening :: used, by rw [hused, List.cons_append], hopen hinside, ?_⟩
    exact fun f hf => ⟨(hall f hf).1, hstart (hall f hf).2⟩
  | done n noted left =>
    obtain ⟨hnoted, used, hused, hbalanced, hall⟩ := h
    have hmissing : (failed noted ⟨.expectToken .closingParen, left⟩ : Attempt Node).Orderly .primary
        (opening :: tokens) := by
      refine ⟨hnoted, rfl, opening :: used, by rw [hused, List.cons_append], hopen hbalanced.inside, ?_⟩
      exact fun f hf => ⟨(hall f hf).1, hstart (hall f hf).2.2⟩
    cases left with
    | nil => exact hmissing
    | cons closing left =>
      simp only [Attempt.expect]
      split
      · rename_i hclosing
        refine ⟨hnoted, opening :: (used ++ [closing]), by simp [hused],
          hbalanced.group hopening hclosing, ?_⟩
        intro f hf
        obtain ⟨hbefore, -, hinside⟩ := hall f hf
        have hbefore' : f.NotedBefore ([closing] ++ left) := hbefore
        refine ⟨hbefore'.append, fun _ => ?_, hstart hinside⟩
        -- The tokens used in the group are balanced, and the equals sign stands among them.
        obtain ⟨-, equals, value, hequals, hleft⟩ := hbefore
        obtain ⟨before, hbefore, -⟩ := hinside
        intro equals' value' hvalue
        rw [hleft] at hvalue
        obtain rfl : value ++ [closing] = value' :=
          List.append_cancel_right (by simpa using (List.cons.inj hvalue).2)
        rw [hbefore, hleft] at hused
        obtain rfl : before ++ [equals] ++ value = used :=
          List.append_cancel_right (by simpa using hused)
        exact hbalanced.not_inside_closing hclosing
      · exact hmissing

end Attempt

/-- The reader is orderly on all tokens. -/
def Reader.Orderly (reader : Reader Node) (r : Rank) : Prop :=
  ∀ tokens, (reader.read tokens).Orderly r tokens

namespace Reader

/-- A single token read as an expression. -/
theorem orderly_single {r : Rank} {t : Token} (ht : Balanced [t]) (n : Node) (left : List Token) :
    (Attempt.done n [] left).Orderly r (t :: left) :=
  ⟨.nil, [t], rfl, ht, nofun⟩

/-- Nothing is read. -/
theorem orderly_failed {r : Rank} {tokens : List Token} {cause : Diagnostic.Cause}
    (hcause : cause.stopsStatement = true) : (Attempt.failed [] ⟨cause, tokens⟩).Orderly r tokens :=
  ⟨.nil, hcause, [], rfl, inside_nil, nofun⟩

theorem orderly_tooDeep (r : Rank) : tooDeep.Orderly r :=
  fun _ => orderly_failed rfl

theorem orderly_primary {nested : Reader Node} (hnested : nested.Orderly .assignment) :
    (primary nested).Orderly .primary := by
  intro tokens
  cases tokens with
  | nil => exact orderly_failed rfl
  | cons t rest =>
    simp only [primary]
    split <;> rename_i hkind
    case h_7 => exact ((hnested rest).map _).expect_closing hkind
    case h_8 => exact orderly_failed rfl
    all_goals
      refine orderly_single (balanced_singleton ?_) _ rest
      simp [enter, hkind, startsStatement]

theorem orderly_unary {deeper nested : Reader Node} (hdeeper : deeper.Orderly .unary)
    (hnested : nested.Orderly .assignment) : (Grammar.unary deeper nested).Orderly .unary := by
  intro tokens
  cases tokens with
  | nil => exact (orderly_primary hnested []).of_ne (by decide)
  | cons t rest =>
    simp only [Grammar.unary]
    split
    · rename_i hoperator
      have hsign := orderly_single (r := .unary) (balanced_of_isUnaryOperator hoperator) .null rest
      have hread := (hdeeper rest).note (by decide) hsign
      rw [Attempt.note_nil] at hread
      exact hread.map _
    · exact (orderly_primary hnested (t :: rest)).of_ne (by decide)

theorem orderly_chainFrom {r : Rank} (hr : r ≠ .assignment) {operand : Reader Node}
    (hoperand : operand.Orderly r) {n : Node} {noted : List Fault} {tokens outer : List Token}
    (h : (Attempt.done n noted tokens).Orderly r outer) :
    (chainFrom r.joins operand n noted tokens).Orderly r outer := by
  fun_induction chainFrom r.joins operand n noted tokens with
  | case1 => exact h
  | case2 n noted t rest hjoins right more rest' hread ih =>
    have hright := (hoperand rest).note hr (h.pass (m := .null) (balanced_of_joins hjoins))
    rw [hread] at hright
    exact ih hright
  | case3 n noted t rest hjoins more fault hread =>
    have hright := (hoperand rest).note hr (h.pass (m := .null) (balanced_of_joins hjoins))
    rw [hread] at hright
    exact hright
  | case4 => exact h

theorem orderly_chain {r : Rank} (hr : r ≠ .assignment) {operand : Reader Node}
    (hoperand : operand.Orderly r.tighter) : (chain r.joins operand).Orderly r := by
  have htighter : r.tighter ≠ .assignment := by cases r <;> decide
  have hoperand (tokens : List Token) : (operand.read tokens).Orderly r tokens :=
    (hoperand tokens).of_ne htighter
  intro tokens
  have hfirst := hoperand tokens
  simp only [chain]
  split <;> rename_i hread <;> rw [hread] at hfirst
  · exact orderly_chainFrom hr hoperand hfirst
  · exact hfirst

/-- An assignment to what is no variable is recorded after the faults in its value, all of which its
equals sign encloses. -/
theorem orderly_assignTo {target value : Node} {noted more : List Fault} {equals : Token}
    {outer rest left : List Token} (hequals : equals.kind = .equal)
    (htarget : (Attempt.done target noted (equals :: rest)).Orderly .equality outer)
    (hvalue : (Attempt.done value more left).Orderly .assignment rest) :
    (assignTo target value (noted ++ more) (equals :: rest) left).Orderly .assignment outer := by
  have hpass : Balanced [equals] := balanced_singleton (by simp [enter, hequals, startsStatement])
  have hboth := hvalue.note (by decide) (htarget.pass (m := .null) hpass)
  unfold assignTo
  split
  · exact hboth
  · rename_i other _
    obtain ⟨hnoted, used, hused, hbalanced, hall⟩ := hboth
    obtain ⟨-, before, hbefore, hfirst, hnotedAll⟩ := htarget
    obtain ⟨-, after, hafter, -, hmoreAll⟩ := hvalue
    refine ⟨List.pairwise_append.mpr ⟨hnoted, List.pairwise_singleton _ _, ?_⟩, used, hused,
      hbalanced, ?_⟩
    · intro f hf g hg
      obtain rfl := List.mem_singleton.mp hg
      rcases List.mem_append.mp hf with hf | hf
      · obtain ⟨hnoted, hclosed, -⟩ := hnotedAll f hf
        exact (hclosed (by decide)).recorded hnoted List.suffix_rfl
      · obtain ⟨hnoted, -, inner, hinner, hinside⟩ := hmoreAll f hf
        exact .inr ⟨rfl, hnoted.1, equals, inner, by rw [hinner], hinside⟩
    · intro f hf
      rcases List.mem_append.mp hf with hf | hf
      · exact hall f hf
      · obtain rfl := List.mem_singleton.mp hf
        refine ⟨⟨rfl, equals, after, hequals, ?_⟩, fun hr => absurd rfl hr, before, hbefore,
          hfirst.inside⟩
        rw [hafter]

theorem orderly_assignment {target value : Reader Node} (htarget : target.Orderly .equality)
    (hvalue : value.Orderly .assignment) : (assignment target value).Orderly .assignment := by
  intro tokens
  have hfirst := htarget tokens
  simp only [assignment]
  split <;> rename_i hread <;> rw [hread] at hfirst
  · exact hfirst
  · exact hfirst.of_ne (by decide)
  · rename_i node noted t rest
    split
    · rename_i hequal
      have hsecond := hvalue rest
      split <;> rename_i hreadValue <;> rw [hreadValue] at hsecond
      · have hpass : Balanced [t] := balanced_singleton (by simp [enter, hequal, startsStatement])
        exact hsecond.note (by decide) (hfirst.pass (m := .null) hpass)
      · exact orderly_assignTo hequal hfirst hsecond
    · exact hfirst.of_ne (by decide)

end Reader

/-- Both readers of a level are orderly. -/
def Level.Orderly (level : Level) : Prop :=
  level.unary.Orderly .unary ∧ level.expression.Orderly .assignment

theorem Level.Orderly.above {deeper : Level} (h : deeper.Orderly) : deeper.above.Orderly := by
  have hunary := Reader.orderly_unary h.1 h.2
  have hequality : (equality deeper.above.unary).Orderly .equality :=
    Reader.orderly_chain (r := .equality) (by decide) <|
    Reader.orderly_chain (r := .comparison) (by decide) <|
    Reader.orderly_chain (r := .term) (by decide) <|
    Reader.orderly_chain (r := .factor) (by decide) hunary
  exact ⟨hunary, Reader.orderly_assignment hequality h.2⟩

theorem orderly_expression (depth : Nat) : (expression depth).Orderly .assignment := by
  suffices h : (Level.ofDepth depth).Orderly from h.2
  induction depth with
  | zero => exact Level.Orderly.above ⟨Reader.orderly_tooDeep _, Reader.orderly_tooDeep _⟩
  | succ depth ih => exact ih.above

/-! Statements. -/

/-- Reading a statement uses the tokens up to a semicolon, and all that it notes is over then. -/
def Attempt.OrderlyStatement (tokens : List Token) : Attempt Node → Prop
  | done _ noted left =>
    noted.Pairwise Fault.Recorded ∧ (∃ used, tokens = used ++ left ∧ EndsStatement used) ∧
      ∀ f ∈ noted, f.NotedBefore left ∧ f.ClosedBefore left ∧ f.left <:+ tokens
  | failed noted fault =>
    noted.Pairwise Fault.Recorded ∧ fault.cause.stopsStatement = true ∧ fault.left <:+ tokens ∧
      ∀ f ∈ noted, f.NotedBefore fault.left ∧ f.left <:+ tokens

/-- An expression with a semicolon behind it, as the end of a statement. -/
theorem Attempt.Orderly.expect_semicolon {a : Attempt Node} {tokens : List Token}
    (h : a.Orderly .assignment tokens) (front : List Token) (expected : Diagnostic.Expected) :
    (a.expect .semicolon expected).OrderlyStatement (front ++ tokens) := by
  have hsuffix {f : Fault} (h : ∃ before, tokens = before ++ f.left ∧ Inside before) :
      f.left <:+ front ++ tokens := by
    obtain ⟨before, hleft, -⟩ := h
    exact ⟨front ++ before, by rw [List.append_assoc, ← hleft]⟩
  cases a with
  | failed noted fault =>
    obtain ⟨hnoted, hcause, used, hused, hinside, hall⟩ := h
    exact ⟨hnoted, hcause, hsuffix ⟨used, hused, hinside⟩,
      fun f hf => ⟨(hall f hf).1, hsuffix (hall f hf).2⟩⟩
  | done n noted left =>
    obtain ⟨hnoted, used, hused, hbalanced, hall⟩ := h
    have hmissing : (failed noted ⟨.expectToken expected, left⟩ : Attempt Node).OrderlyStatement
        (front ++ tokens) :=
      ⟨hnoted, rfl, hsuffix ⟨used, hused, hbalanced.inside⟩,
        fun f hf => ⟨(hall f hf).1, hsuffix (hall f hf).2.2⟩⟩
    cases left with
    | nil => exact hmissing
    | cons semicolon left =>
      simp only [Attempt.expect]
      split
      · rename_i hsemicolon
        have hends : EndsStatement [semicolon] := ⟨semicolon, rfl, hsemicolon⟩
        refine ⟨hnoted, ⟨front ++ used ++ [semicolon], by simp [hused], hends.append_left _⟩, ?_⟩
        intro f hf
        obtain ⟨hbefore, -, hinside⟩ := hall f hf
        have hbefore' : f.NotedBefore ([semicolon] ++ left) := hbefore
        refine ⟨hbefore'.append, ?_, hsuffix hinside⟩
        obtain ⟨-, equals, value, -, hleft⟩ := hbefore
        intro equals' value' hvalue
        rw [hleft] at hvalue
        obtain rfl : value ++ [semicolon] = value' :=
          List.append_cancel_right (by simpa using (List.cons.inj hvalue).2)
        exact not_inside_of_mem (by simp) (.inl hsemicolon)
      · exact hmissing

/-- A statement without a value, or with the value behind its equals sign. -/
theorem orderly_initializer {value : Reader Node} (hvalue : value.Orderly .assignment)
    (tokens : List Token) : ∃ front rest, tokens = front ++ rest ∧
      (initializer value tokens).Orderly .assignment rest := by
  have hnone (tokens : List Token) : (Attempt.done .null [] tokens).Orderly .assignment tokens :=
    ⟨.nil, [], rfl, rfl, nofun⟩
  cases tokens with
  | nil => exact ⟨[], [], rfl, hnone []⟩
  | cons t rest =>
    simp only [initializer]
    split
    · exact ⟨[t], rest, rfl, hvalue rest⟩
    · exact ⟨[], t :: rest, rfl, hnone _⟩

theorem orderly_statement {value : Reader Node} (hvalue : value.Orderly .assignment)
    (tokens : List Token) : ((statement value).read tokens).OrderlyStatement tokens := by
  have hfailed {cause : Diagnostic.Cause} {left : List Token} (hcause : cause.stopsStatement = true)
      (hleft : left <:+ tokens) :
      (Attempt.failed [] ⟨cause, left⟩ : Attempt Node).OrderlyStatement tokens :=
    ⟨.nil, hcause, hleft, nofun⟩
  cases tokens with
  | nil => exact hfailed rfl List.suffix_rfl
  | cons t rest =>
    simp only [statement]
    split
    · cases rest with
      | nil => exact hfailed rfl (List.nil_suffix)
      | cons name rest =>
        simp only [varStatement]
        split
        · obtain ⟨front, after, hafter, hinitializer⟩ := orderly_initializer hvalue rest
          have hread := (hinitializer.map (.var name)).expect_semicolon (t :: name :: front)
            .semicolonAfterDeclaration
          rwa [List.cons_append, List.cons_append, ← hafter] at hread
        · exact hfailed rfl (List.suffix_cons t _)
    · exact ((hvalue rest).map .print).expect_semicolon [t] _
    · exact ((hvalue (t :: rest)).map .expression).expect_semicolon [] _

/-! Programs. -/

/-- Where reading goes on: at the end, behind a semicolon, or before a word that starts a
statement. -/
def Resumes (skipped next : List Token) : Prop :=
  next = [] ∨ EndsStatement skipped ∨ ∃ t ∈ next.head?, startsStatement t.kind = true

theorem exists_skipped (previous : Token) (tokens : List Token) :
    ∃ skipped, previous :: tokens = skipped ++ skipAfter previous tokens ∧ skipped ≠ [] ∧
      Resumes skipped (skipAfter previous tokens) := by
  fun_induction skipAfter previous tokens with
  | case1 previous => exact ⟨[previous], rfl, by simp, .inl rfl⟩
  | case2 previous t rest hstop =>
    refine ⟨[previous], rfl, by simp, .inr ?_⟩
    exact hstop.imp (fun h => ⟨previous, rfl, h⟩) fun h => ⟨t, rfl, h⟩
  | case3 previous t rest _ ih =>
    obtain ⟨skipped, hskipped, -, hresumes⟩ := ih
    refine ⟨previous :: skipped, by rw [hskipped, List.cons_append], by simp, ?_⟩
    exact hresumes.imp_right <| .imp_left fun h => h.append_left [previous]

/-- Recovery skips the token at fault, if there is one, and reading goes on where it can. -/
theorem exists_recover (tokens : List Token) : ∃ skipped, tokens = skipped ++ recover tokens ∧
    (skipped = [] → tokens = []) ∧ Resumes skipped (recover tokens) := by
  cases tokens with
  | nil => exact ⟨[], rfl, fun _ => rfl, .inl rfl⟩
  | cons t rest =>
    obtain ⟨skipped, hskipped, hne, hresumes⟩ := exists_skipped t rest
    exact ⟨skipped, hskipped, fun hnil => absurd hnil hne, hresumes⟩

/-- A fault and those found after reading went on: they are all at later tokens, and where reading
resumes is outside of every value that was read before. -/
theorem Fault.recorded_of_resumes {f g : Fault} {left skipped next : List Token}
    (hf : f.NotedBefore left) (hleft : left = skipped ++ next) (hresumes : Resumes skipped next)
    (hg : g.left <:+ next)
    (hequals : g.cause = .invalidAssignmentTarget → ∃ t ∈ g.left.head?, t.kind = .equal) :
    f.Recorded g := by
  obtain ⟨-, equals, value, -, hvalue⟩ := hf
  obtain ⟨between, rfl⟩ := hg
  refine .inl ⟨⟨equals, value ++ (skipped ++ between), by simp [hvalue, hleft]⟩, ?_⟩
  rintro ⟨-, hcause, equals', value', hvalue', hinside⟩
  obtain ⟨t, ht, hkind⟩ := hequals hcause
  rw [hvalue, hleft] at hvalue'
  obtain rfl : value ++ skipped ++ between = value' :=
    List.append_cancel_right (by simpa using (List.cons.inj hvalue').2)
  rcases hresumes with hnil | ⟨last, hlast, hsemicolon⟩ | ⟨first, hfirst, hstarts⟩
  · simp_all
  · have hmem := List.mem_of_mem_getLast? hlast
    exact not_inside_of_mem (by simp [hmem]) (.inl hsemicolon) hinside
  · -- The word that starts the next statement is no equals sign, so it stands before that sign.
    cases between with
    | nil =>
      obtain rfl : t = first := by simp_all
      rw [hkind] at hstarts
      cases hstarts
    | cons u between =>
      obtain rfl : u = first := by simpa using hfirst
      exact not_inside_of_mem (by simp) (.inr hstarts) hinside

/-- The fault is at an equals sign, or it stops a statement. -/
def Fault.IsPlaced (f : Fault) : Prop :=
  (f.cause = .invalidAssignmentTarget ∧ ∃ t ∈ f.left.head?, t.kind = .equal) ∨
    f.cause.stopsStatement = true

theorem Fault.NotedBefore.isPlaced {f : Fault} {left : List Token} (h : f.NotedBefore left) :
    f.IsPlaced := by
  obtain ⟨hcause, equals, value, hequals, hleft⟩ := h
  exact .inl ⟨hcause, equals, by simp [hleft], hequals⟩

/-- The faults of a program are found at its tokens or at its end, and are in the order of
recording. -/
theorem recorded_readAll {value : Reader Node} (hvalue : value.Orderly .assignment)
    (tokens : List Token) : (readAll value tokens).faults.Pairwise Fault.Recorded ∧
      ∀ f ∈ (readAll value tokens).faults, f.left <:+ tokens ∧ f.IsPlaced := by
  fun_induction readAll value tokens with
  | case1 => exact ⟨.nil, List.forall_mem_nil _⟩
  | case2 t rest s noted left hread more ih =>
    have hstatement := orderly_statement hvalue (t :: rest)
    rw [hread] at hstatement
    obtain ⟨hnoted, ⟨used, hused, -⟩, hall⟩ := hstatement
    obtain ⟨hmore, hfollowing⟩ := ih
    refine ⟨List.pairwise_append.mpr ⟨hnoted, hmore, ?_⟩, ?_⟩
    · intro f hf g hg
      exact (hall f hf).2.1.recorded (hall f hf).1 (hfollowing g hg).1
    · intro f hf
      rcases List.mem_append.mp hf with hf | hf
      · exact ⟨(hall f hf).2.2, (hall f hf).1.isPlaced⟩
      · exact ⟨(hfollowing f hf).1.trans ⟨used, hused.symm⟩, (hfollowing f hf).2⟩
  | case3 t rest noted fault hread more ih =>
    have hstatement := orderly_statement hvalue (t :: rest)
    rw [hread] at hstatement
    obtain ⟨hnoted, hcause, hfault, hall⟩ := hstatement
    have hstops := Diagnostic.Cause.ne_of_stopsStatement hcause
    obtain ⟨hmore, hfollowing⟩ := ih
    obtain ⟨skipped, hskipped, hne, hresumes⟩ := exists_recover fault.left
    have hnext (g : Fault) (hg : g ∈ more.faults) : fault.Recorded g := by
      obtain ⟨between, hbetween⟩ := (hfollowing g hg).1
      cases hempty : skipped with
      | nil =>
        -- There is nothing left to read.
        rw [show more = ⟨[], []⟩ by simp [more, hne hempty, recover, readAll]] at hg
        cases hg
      | cons u skipped' =>
        refine .inl ⟨⟨u, skipped' ++ between, ?_⟩, fun hencloses => hstops hencloses.1⟩
        rw [hskipped, hempty, ← hbetween]
        simp
    have hover (f : Fault) (hf : f ∈ noted) (g : Fault) (hg : g ∈ more.faults) : f.Recorded g := by
      refine Fault.recorded_of_resumes (hall f hf).1 hskipped hresumes (hfollowing g hg).1
        fun hinvalid => ?_
      rcases (hfollowing g hg).2 with ⟨-, hequals⟩ | hstop
      · exact hequals
      · exact absurd hinvalid (Diagnostic.Cause.ne_of_stopsStatement hstop)
    refine ⟨List.pairwise_append.mpr ⟨hnoted, List.pairwise_cons.mpr ⟨hnext, hmore⟩, ?_⟩, ?_⟩
    · intro f hf g hg
      rcases List.mem_cons.mp hg with rfl | hg
      · exact (hall f hf).1.recorded hstops
      · exact hover f hf g hg
    · intro f hf
      rcases List.mem_append.mp hf with hf | hf
      · exact ⟨(hall f hf).2, (hall f hf).1.isPlaced⟩
      · rcases List.mem_cons.mp hf with rfl | hf
        · exact ⟨hfault, .inr hcause⟩
        · have hafter : recover fault.left <:+ fault.left := ⟨skipped, hskipped.symm⟩
          exact ⟨((hfollowing f hf).1.trans hafter).trans hfault, (hfollowing f hf).2⟩

end Grammar

end LoxCore
