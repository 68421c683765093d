import LoxCore.Proofs.Grammar.Reading
import Mathlib.Data.List.Forall2

/-!
Reading goes by the kinds of tokens, and it never goes past a semicolon before a statement is over.
Tokens that are alike are read to trees that are alike, with faults of the same causes at tokens that
are alike, whatever may follow the semicolon behind the last of them.
-/
namespace LoxCore.Grammar

/-- A likeness of tokens and of expressions that reading respects: tokens that are alike are of one
kind, and what is put together from parts that are alike is alike. A property of single tokens and
trees is a likeness as well, between each that has it and itself. -/
structure Likeness where
  token : Token → Token → Prop
  node : Node → Node → Prop
  kind_eq {s t : Token} : token s t → s.kind = t.kind
  literal {s t : Token} {v w : Value} : token s t → literalValue? s = some v →
    literalValue? t = some w → node (.literal v) (.literal w)
  ref {s t : Token} : token s t → s.kind = .identifier → node (.ref s) (.ref t)
  grouping {m n : Node} : node m n → node (.grouping m) (.grouping n)
  unary {s t : Token} {m n : Node} : token s t → isUnaryOperator s.kind = true → node m n →
    node (.unary s m) (.unary t n)
  binary {r : Rank} {s t : Token} {l m n o : Node} : token s t → r.joins s.kind = true →
    node l m → node n o → node (.binary l s n) (.binary m t o)
  assign {s t : Token} {m n : Node} : node (.ref s) (.ref t) → node m n →
    node (.assign s m) (.assign t n)
  /-- A variable is like nothing but a variable, so the same targets can be assigned to. -/
  target {m n : Node} : node m n → ((∃ s, m = .ref s) ↔ ∃ t, n = .ref t)

/-- The tokens end with a semicolon. -/
def EndsStatement (tokens : List Token) : Prop :=
  ∃ t ∈ tokens.getLast?, t.kind = .semicolon

/-- A semicolon at the end stays at the end when a token before it is taken away. -/
theorem EndsStatement.of_cons {t : Token} {tokens : List Token} (h : EndsStatement (t :: tokens)) :
    (t.kind = .semicolon ∧ tokens = []) ∨ EndsStatement tokens := by
  obtain ⟨last, hlast, hkind⟩ := h
  cases tokens with
  | nil =>
    obtain rfl : t = last := by simpa using hlast
    exact .inl ⟨hkind, rfl⟩
  | cons u tokens => exact .inr ⟨last, by simpa using hlast, hkind⟩

theorem EndsStatement.ne_nil {tokens : List Token} (h : EndsStatement tokens) : tokens ≠ [] := by
  rintro rfl
  obtain ⟨last, hlast, -⟩ := h
  cases hlast

theorem EndsStatement.append_left {tokens : List Token} (h : EndsStatement tokens)
    (before : List Token) : EndsStatement (before ++ tokens) := by
  obtain ⟨t, ht, hkind⟩ := h
  refine ⟨t, ?_, hkind⟩
  rw [List.getLast?_append, Option.mem_def.mp ht]
  rfl

/-- Two outcomes of one kind, with values, faults and tokens left that are pairwise related. -/
inductive Attempt.Alike (value : Node → Node → Prop) (fault : Fault → Fault → Prop)
    (left : List Token → List Token → Prop) : Attempt Node → Attempt Node → Prop where
  | done {m n : Node} {noted noted' : List Fault} {tokens more : List Token} (hvalue : value m n)
      (hnoted : List.Forall₂ fault noted noted') (hleft : left tokens more) :
      Alike value fault left (.done m noted tokens) (.done n noted' more)
  | failed {noted noted' : List Fault} {f g : Fault} (hnoted : List.Forall₂ fault noted noted')
      (hfault : fault f g) : Alike value fault left (.failed noted f) (.failed noted' g)

namespace Likeness

variable (L : Likeness) (rest : Option (List Token))

/-- The second list has tokens like those of the first, and nothing else, or a given rest behind them.
If there is a rest, the tokens before it end with a semicolon. -/
def Ahead : List Token → List Token → Prop :=
  match rest with
  | none => List.Forall₂ L.token
  | some rest => fun tokens more =>
    EndsStatement tokens ∧ ∃ front, List.Forall₂ L.token tokens front ∧ more = front ++ rest

/-- As `Ahead`, but all tokens before the rest may be used up. -/
def Between (tokens more : List Token) : Prop :=
  (tokens = [] ∧ more = rest.getD []) ∨ L.Ahead rest tokens more

/-- Faults of one cause, at tokens that are alike. -/
def Faults (f g : Fault) : Prop :=
  f.cause = g.cause ∧ L.Ahead rest f.left g.left

/-- The reader reads alike what is alike. -/
def Respects (reader : Reader Node) : Prop :=
  ∀ tokens more, L.Ahead rest tokens more →
    Attempt.Alike L.node (L.Faults rest) (L.Ahead rest) (reader.read tokens) (reader.read more)

/-- Statements with names and expressions that are alike. -/
inductive Statement : Node → Node → Prop where
  | expression {m n : Node} (h : L.node m n) : Statement (.expression m) (.expression n)
  | print {m n : Node} (h : L.node m n) : Statement (.print m) (.print n)
  | declare {s t : Token} (hname : L.token s t) (hkind : s.kind = .identifier) :
      Statement (.var s .null) (.var t .null)
  | define {s t : Token} {m n : Node} (hname : L.token s t) (hkind : s.kind = .identifier)
      (h : L.node m n) : Statement (.var s m) (.var t n)

variable {L} {rest}

namespace Ahead

variable {t : Token} {tokens more : List Token}

theorem nil (h : L.Ahead rest [] more) : more = [] := by
  cases rest with
  | none => exact List.forall₂_nil_left_iff.mp h
  | some rest => exact absurd rfl h.1.ne_nil

theorem cons (h : L.Ahead rest (t :: tokens) more) :
    ∃ t' more', more = t' :: more' ∧ L.token t t' ∧ L.Between rest tokens more' := by
  cases rest with
  | none =>
    obtain ⟨t', more', htoken, htokens, rfl⟩ := List.forall₂_cons_left_iff.mp h
    exact ⟨t', more', rfl, htoken, .inr htokens⟩
  | some rest =>
    obtain ⟨hends, front, hfront, rfl⟩ := h
    obtain ⟨t', front', htoken, htokens, rfl⟩ := List.forall₂_cons_left_iff.mp hfront
    refine ⟨t', front' ++ rest, rfl, htoken, ?_⟩
    rcases hends.of_cons with ⟨-, rfl⟩ | hends
    · obtain rfl := List.forall₂_nil_left_iff.mp htokens
      exact .inl ⟨rfl, rfl⟩
    · exact .inr ⟨hends, front', htokens, rfl⟩

/-- Unless the first token is a semicolon, reading it does not reach the rest. -/
theorem cons_of_ne (h : L.Ahead rest (t :: tokens) more) (hkind : t.kind ≠ .semicolon) :
    ∃ t' more', more = t' :: more' ∧ L.token t t' ∧ L.Ahead rest tokens more' := by
  obtain ⟨t', more', rfl, htoken, hbetween⟩ := h.cons
  refine ⟨t', more', rfl, htoken, ?_⟩
  rcases hbetween with ⟨rfl, rfl⟩ | htokens
  · cases rest with
    | none => exact List.Forall₂.nil
    | some rest =>
      rcases h.1.of_cons with ⟨hsemicolon, -⟩ | hends
      · exact absurd hsemicolon hkind
      · exact absurd rfl hends.ne_nil
  · exact htokens

theorem between (h : L.Ahead rest tokens more) : L.Between rest tokens more :=
  .inr h

end Ahead

/-! Each way to build a reader. -/

section Attempts

variable {value value' : Node → Node → Prop} {fault : Fault → Fault → Prop}
  {left left' : List Token → List Token → Prop} {a b : Attempt Node}

theorem map_alike {f g : Node → Node} (h : Attempt.Alike value fault left a b)
    (hvalue : ∀ m n, value m n → value' (f m) (g n)) :
    Attempt.Alike value' fault left (a.map f) (b.map g) := by
  cases h with
  | done h hnoted hleft => exact .done (hvalue _ _ h) hnoted hleft
  | failed hnoted hfault => exact .failed hnoted hfault

/-- A token that is expected is there in both or in none. What is left after it may be more alike
than `Ahead` says, or less. -/
theorem expect_alike {kind : Token.Kind} {expected : Diagnostic.Expected}
    (h : Attempt.Alike value (L.Faults rest) (L.Ahead rest) a b)
    (hleft : ∀ s t tokens more, s.kind = kind → L.Ahead rest (s :: tokens) (t :: more) →
      left tokens more) :
    Attempt.Alike value (L.Faults rest) left (a.expect kind expected) (b.expect kind expected) := by
  cases h with
  | failed hnoted hfault => exact .failed hnoted hfault
  | @done m n noted noted' tokens more h hnoted hahead =>
    cases tokens with
    | nil =>
      obtain rfl := hahead.nil
      exact .failed hnoted ⟨rfl, hahead⟩
    | cons s tokens =>
      obtain ⟨t, more, rfl, htoken, -⟩ := hahead.cons
      simp only [Attempt.expect, ← L.kind_eq htoken]
      split
      · exact .done h hnoted (hleft s t tokens more ‹_› hahead)
      · exact .failed hnoted ⟨rfl, hahead⟩

end Attempts

/-- The tokens behind a token that is no semicolon. -/
theorem ahead_tail {s t : Token} {tokens more : List Token} (hkind : s.kind ≠ .semicolon)
    (h : L.Ahead rest (s :: tokens) (t :: more)) : L.Ahead rest tokens more := by
  obtain ⟨t', more', heq, -, htokens⟩ := h.cons_of_ne hkind
  obtain ⟨-, rfl⟩ := List.cons.inj heq
  exact htokens

theorem ahead_head {s t : Token} {tokens more : List Token}
    (h : L.Ahead rest (s :: tokens) (t :: more)) : s.kind = t.kind := by
  obtain ⟨t', more', heq, htoken, -⟩ := h.cons
  obtain ⟨rfl, -⟩ := List.cons.inj heq
  exact L.kind_eq htoken

theorem between_tail {s t : Token} {tokens more : List Token}
    (h : L.Ahead rest (s :: tokens) (t :: more)) : L.Between rest tokens more := by
  obtain ⟨t', more', heq, -, htokens⟩ := h.cons
  obtain ⟨-, rfl⟩ := List.cons.inj heq
  exact htokens

theorem respects_tooDeep : L.Respects rest Reader.tooDeep :=
  fun _ _ h => .failed .nil ⟨rfl, h⟩

theorem respects_primary {nested : Reader Node} (hnested : L.Respects rest nested) :
    L.Respects rest (primary nested) := by
  intro tokens more h
  cases tokens with
  | nil =>
    obtain rfl := h.nil
    exact .failed .nil ⟨rfl, h⟩
  | cons s tokens =>
    obtain ⟨t, more, rfl, htoken, -⟩ := h.cons
    have hkinds := L.kind_eq htoken
    simp only [primary, ← hkinds]
    split <;> rename_i hkind
    case h_6 =>
      exact .done (L.ref htoken hkind) .nil (ahead_tail (by simp [hkind]) h)
    case h_7 =>
      have hinner := hnested _ _ (ahead_tail (by simp [hkind]) h)
      refine expect_alike (map_alike hinner fun _ _ => L.grouping) ?_
      intro s t tokens more hclosing hahead
      exact ahead_tail (by simp [hclosing]) hahead
    case h_8 => exact .failed .nil ⟨rfl, h⟩
    -- What is left are the tokens that are literals of their own.
    all_goals
      refine .done (L.literal htoken ?_ ?_) .nil (ahead_tail (by simp [hkind]) h)
      · simp only [literalValue?, hkind]
      · simp only [literalValue?, ← hkinds, hkind]

theorem respects_unary {deeper nested : Reader Node} (hdeeper : L.Respects rest deeper)
    (hnested : L.Respects rest nested) : L.Respects rest (Grammar.unary deeper nested) := by
  intro tokens more h
  cases tokens with
  | nil =>
    obtain rfl := h.nil
    exact respects_primary hnested _ _ h
  | cons s tokens =>
    obtain ⟨t, more, rfl, htoken, -⟩ := h.cons
    simp only [Grammar.unary, ← L.kind_eq htoken]
    split
    · rename_i hoperator
      have hkind : s.kind ≠ .semicolon := by
        intro hkind
        rw [hkind] at hoperator
        cases hoperator
      exact map_alike (hdeeper _ _ (ahead_tail hkind h)) fun _ _ => L.unary htoken hoperator
    · exact respects_primary hnested _ _ h

theorem chainFrom_alike {r : Rank} {operand : Reader Node} (hoperand : L.Respects rest operand)
    {m n : Node} {noted noted' : List Fault} {tokens more : List Token} (hnode : L.node m n)
    (hnoted : List.Forall₂ (L.Faults rest) noted noted') (h : L.Ahead rest tokens more) :
    Attempt.Alike L.node (L.Faults rest) (L.Ahead rest)
      (Reader.chainFrom r.joins operand m noted tokens)
      (Reader.chainFrom r.joins operand n noted' more) := by
  have after {s t : Token} {tokens more : List Token} (hjoins : r.joins s.kind = true)
      (h : L.Ahead rest (s :: tokens) (t :: more)) :
      Attempt.Alike L.node (L.Faults rest) (L.Ahead rest) (operand.read tokens)
        (operand.read more) := by
    refine hoperand _ _ (ahead_tail ?_ h)
    intro hkind
    rw [hkind] at hjoins
    cases r <;> cases hjoins
  fun_induction Reader.chainFrom r.joins operand m noted tokens generalizing n noted' more with
  | case1 m noted =>
    obtain rfl := h.nil
    rw [Reader.chainFrom]
    exact .done hnode hnoted h
  | case2 m noted s tokens hjoins right extra left hread ih =>
    obtain ⟨t, more, rfl, htoken, -⟩ := h.cons
    have hright := after hjoins h
    generalize hread' : operand.read more = outcome at hright
    rw [hread] at hright
    cases hright with
    | done hright hextra hleft =>
      rw [Reader.chainFrom_of_done (L.kind_eq htoken ▸ hjoins) hread']
      exact ih (L.binary htoken hjoins hnode hright) (List.rel_append hnoted hextra) hleft
  | case3 m noted s tokens hjoins extra fault hread =>
    obtain ⟨t, more, rfl, htoken, -⟩ := h.cons
    have hright := after hjoins h
    generalize hread' : operand.read more = outcome at hright
    rw [hread] at hright
    cases hright with
    | failed hextra hfault =>
      rw [Reader.chainFrom_of_failed (L.kind_eq htoken ▸ hjoins) hread']
      exact .failed (List.rel_append hnoted hextra) hfault
  | case4 m noted s tokens hjoins =>
    obtain ⟨t, more, rfl, htoken, -⟩ := h.cons
    rw [Reader.chainFrom, if_neg (L.kind_eq htoken ▸ hjoins)]
    exact .done hnode hnoted h

theorem respects_chain {r : Rank} {operand : Reader Node} (hoperand : L.Respects rest operand) :
    L.Respects rest (Reader.chain r.joins operand) := by
  intro tokens more h
  have hfirst := hoperand _ _ h
  simp only [Reader.chain]
  generalize operand.read tokens = first, operand.read more = first' at hfirst ⊢
  cases hfirst with
  | done hnode hnoted hleft => exact chainFrom_alike hoperand hnode hnoted hleft
  | failed hnoted hfault => exact .failed hnoted hfault

/-- Targets that are alike are both variables or both none, and then the fault is at the equals sign
of each. -/
theorem assignTo_alike {target target' value value' : Node} {noted noted' : List Fault}
    {equals equals' tokens more : List Token} (htarget : L.node target target')
    (hvalue : L.node value value') (hnoted : List.Forall₂ (L.Faults rest) noted noted')
    (hequals : L.Ahead rest equals equals') (hleft : L.Ahead rest tokens more) :
    Attempt.Alike L.node (L.Faults rest) (L.Ahead rest)
      (assignTo target value noted equals tokens) (assignTo target' value' noted' equals' more) := by
  have htargets := L.target htarget
  by_cases href : ∃ name, target = .ref name
  · obtain ⟨name', rfl⟩ := htargets.mp href
    obtain ⟨name, rfl⟩ := href
    exact .done (L.assign htarget hvalue) hnoted hleft
  · have hother {n v : Node} {noted : List Fault} {equals left : List Token}
        (h : ¬∃ name, n = .ref name) : assignTo n v noted equals left =
          .done n (noted ++ [⟨.invalidAssignmentTarget, equals⟩]) left := by
      unfold assignTo
      split
      · exact absurd ⟨_, rfl⟩ h
      · rfl
    rw [hother href, hother (htargets.not.mp href)]
    exact .done htarget (List.rel_append hnoted (.cons ⟨rfl, hequals⟩ .nil)) hleft

theorem respects_assignment {target value : Reader Node} (htarget : L.Respects rest target)
    (hvalue : L.Respects rest value) : L.Respects rest (assignment target value) := by
  intro tokens more h
  have hfirst := htarget _ _ h
  simp only [assignment]
  generalize target.read tokens = first, target.read more = first' at hfirst ⊢
  cases hfirst with
  | failed hnoted hfault => exact .failed hnoted hfault
  | @done m n noted noted' left left' hnode hnoted hleft =>
    cases left with
    | nil =>
      obtain rfl := hleft.nil
      exact .done hnode hnoted hleft
    | cons s left =>
      obtain ⟨t, left', rfl, htoken, -⟩ := hleft.cons
      simp only [← L.kind_eq htoken]
      split
      · rename_i hequal
        have hsecond := hvalue _ _ (ahead_tail (by simp [hequal]) hleft)
        generalize value.read left = second, value.read left' = second' at hsecond ⊢
        cases hsecond with
        | done hnode' hnoted' hleft' =>
          exact assignTo_alike hnode hnode' (List.rel_append hnoted hnoted') hleft hleft'
        | failed hnoted' hfault => exact .failed (List.rel_append hnoted hnoted') hfault
      · exact .done hnode hnoted hleft

/-! Levels. -/

/-- Both readers of a level read alike what is alike. -/
def RespectsLevel (L : Likeness) (rest : Option (List Token)) (level : Level) : Prop :=
  L.Respects rest level.unary ∧ L.Respects rest level.expression

theorem RespectsLevel.above {deeper : Level} (h : L.RespectsLevel rest deeper) :
    L.RespectsLevel rest deeper.above := by
  have hunary := respects_unary h.1 h.2
  have hequality : L.Respects rest (equality deeper.above.unary) :=
    respects_chain (r := .equality) <| respects_chain (r := .comparison) <|
      respects_chain (r := .term) <| respects_chain (r := .factor) hunary
  exact ⟨hunary, respects_assignment hequality h.2⟩

theorem respects_expression (rest : Option (List Token)) (depth : Nat) :
    L.Respects rest (expression depth) := by
  suffices h : L.RespectsLevel rest (Level.ofDepth depth) from h.2
  induction depth with
  | zero => exact RespectsLevel.above ⟨respects_tooDeep, respects_tooDeep⟩
  | succ depth ih => exact ih.above

/-! Statements and programs. -/

theorem initializer_alike {value : Reader Node} (hvalue : L.Respects rest value)
    {tokens more : List Token} (h : L.Ahead rest tokens more) :
    Attempt.Alike (fun m n => (m = .null ∧ n = .null) ∨ L.node m n) (L.Faults rest) (L.Ahead rest)
      (initializer value tokens) (initializer value more) := by
  cases tokens with
  | nil =>
    obtain rfl := h.nil
    exact .done (.inl ⟨rfl, rfl⟩) .nil h
  | cons s tokens =>
    obtain ⟨t, more, rfl, htoken, -⟩ := h.cons
    simp only [initializer, ← L.kind_eq htoken]
    split
    · rename_i hequal
      have hread := hvalue _ _ (ahead_tail (by simp [hequal]) h)
      generalize value.read tokens = attempt, value.read more = attempt' at hread ⊢
      cases hread with
      | done hnode hnoted hleft => exact .done (.inr hnode) hnoted hleft
      | failed hnoted hfault => exact .failed hnoted hfault
    · exact .done (.inl ⟨rfl, rfl⟩) .nil h

/-- Statements are read alike, and all tokens before the rest may be used up with them. -/
theorem statement_alike {value : Reader Node} (hvalue : L.Respects rest value)
    {tokens more : List Token} (h : L.Ahead rest tokens more) :
    Attempt.Alike L.Statement (L.Faults rest) (L.Between rest)
      ((statement value).read tokens) ((statement value).read more) := by
  cases tokens with
  | nil =>
    obtain rfl := h.nil
    exact .failed .nil ⟨rfl, h⟩
  | cons s tokens =>
    obtain ⟨t, more, rfl, htoken, -⟩ := h.cons
    simp only [statement, ← L.kind_eq htoken]
    split <;> rename_i hkind
    · have htail := ahead_tail (by simp [hkind]) h
      cases tokens with
      | nil =>
        obtain rfl := htail.nil
        exact .failed .nil ⟨rfl, htail⟩
      | cons name tokens =>
        obtain ⟨name', more, rfl, hname, -⟩ := htail.cons
        simp only [varStatement, ← L.kind_eq hname]
        split
        · rename_i hidentifier
          have hvalue := initializer_alike hvalue (ahead_tail (by simp [hidentifier]) htail)
          refine expect_alike (map_alike hvalue ?_) fun _ _ _ _ _ => between_tail
          rintro m n (⟨rfl, rfl⟩ | hnode)
          · exact .declare hname hidentifier
          · exact .define hname hidentifier hnode
        · exact .failed .nil ⟨rfl, htail⟩
    · have hvalue := hvalue _ _ (ahead_tail (by simp [hkind]) h)
      exact expect_alike (map_alike hvalue fun _ _ => .print) fun _ _ _ _ _ => between_tail
    · exact expect_alike (map_alike (hvalue _ _ h) fun _ _ => .expression)
        fun _ _ _ _ _ => between_tail

/-- Skipping ends just after a semicolon. -/
theorem skipAfter_of_semicolon {previous : Token} (h : previous.kind = .semicolon)
    (tokens : List Token) : skipAfter previous tokens = tokens := by
  cases tokens with
  | nil => rfl
  | cons t tokens => rw [skipAfter, if_pos (.inl h)]

/-- Tokens that are alike are skipped up to places that are alike. The last semicolon ends the
skipping, so the rest behind it is not touched. -/
theorem skipAfter_alike {s t : Token} {tokens more : List Token}
    (h : L.Ahead rest (s :: tokens) (t :: more)) :
    L.Between rest (skipAfter s tokens) (skipAfter t more) := by
  induction tokens generalizing s t more with
  | nil =>
    by_cases hkind : s.kind = .semicolon
    · rw [skipAfter_of_semicolon ((ahead_head h).symm.trans hkind)]
      exact between_tail h
    · have htail := ahead_tail hkind h
      obtain rfl := htail.nil
      exact htail.between
  | cons u tokens ih =>
    by_cases hkind : s.kind = .semicolon
    · rw [skipAfter_of_semicolon hkind, skipAfter_of_semicolon ((ahead_head h).symm.trans hkind)]
      exact between_tail h
    · have htail := ahead_tail hkind h
      obtain ⟨u', more, rfl, hu, -⟩ := htail.cons
      have hkind' : t.kind ≠ .semicolon := fun heq => hkind ((ahead_head h).trans heq)
      simp only [skipAfter, hkind, hkind', false_or, ← L.kind_eq hu]
      split
      · exact htail.between
      · exact ih htail

/-- Reading goes on at places that are alike. -/
theorem recover_alike {tokens more : List Token} (h : L.Ahead rest tokens more) :
    L.Between rest (recover tokens) (recover more) := by
  cases tokens with
  | nil =>
    obtain rfl := h.nil
    exact h.between
  | cons s tokens =>
    obtain ⟨t, more, rfl, -, -⟩ := h.cons
    exact skipAfter_alike h

/-- What is read from tokens that are alike is alike, and then reading goes on with the rest as if
nothing had stood before it. -/
theorem readAll_alike {value : Reader Node} (hvalue : L.Respects rest value)
    (tokens : List Token) : ∀ more, L.Between rest tokens more →
    ∃ statements faults, List.Forall₂ L.Statement (readAll value tokens).statements statements ∧
      List.Forall₂ (L.Faults rest) (readAll value tokens).faults faults ∧
      readAll value more = ⟨statements ++ (readAll value (rest.getD [])).statements,
        faults ++ (readAll value (rest.getD [])).faults⟩ := by
  fun_induction readAll value tokens with
  | case1 =>
    intro more h
    refine ⟨[], [], .nil, .nil, ?_⟩
    rcases h with ⟨-, rfl⟩ | h
    · rfl
    · cases rest with
      | none =>
        obtain rfl := h.nil
        simp [readAll]
      | some rest => exact absurd rfl h.1.ne_nil
  | case2 t tokens s noted left hread following ih =>
    intro more h
    have h : L.Ahead rest (t :: tokens) more := by simpa [Between] using h
    have hstatement := statement_alike hvalue h
    generalize hread' : (statement value).read more = outcome at hstatement
    rw [hread] at hstatement
    cases hstatement with
    | done hs hnoted hleft =>
      obtain ⟨statements, faults, hstatements, hfaults, hmore⟩ := ih _ hleft
      refine ⟨_ :: statements, _ ++ faults, .cons hs hstatements,
        List.rel_append hnoted hfaults, ?_⟩
      rw [readAll_of_done hread', hmore]
      simp
  | case3 t tokens noted fault hread following ih =>
    intro more h
    have h : L.Ahead rest (t :: tokens) more := by simpa [Between] using h
    obtain ⟨t', more, rfl, -, -⟩ := h.cons
    have hstatement := statement_alike hvalue h
    generalize hread' : (statement value).read (t' :: more) = outcome at hstatement
    rw [hread] at hstatement
    cases hstatement with
    | failed hnoted hfault =>
      obtain ⟨statements, faults, hstatements, hfaults, hmore⟩ := ih _ (recover_alike hfault.2)
      refine ⟨statements, _ ++ _ :: faults, hstatements,
        List.rel_append hnoted (.cons hfault hfaults), ?_⟩
      rw [readAll_of_failed hread' (List.cons_ne_nil _ _), hmore]
      simp

/-- Tokens that are alike have the first end mark at one place. -/
theorem split_alike {tokens more : List Token} (h : List.Forall₂ L.token tokens more)
    (hmark : ∃ t ∈ tokens, t.kind = .eof) :
    List.Forall₂ L.token (tokens.takeWhile fun t => t.kind ≠ .eof)
        (more.takeWhile fun t => t.kind ≠ .eof) ∧
      ∃ s t, L.token s t ∧ tokens.find? (fun t => t.kind = .eof) = some s ∧
        more.find? (fun t => t.kind = .eof) = some t := by
  induction h with
  | nil => simp at hmark
  | @cons s t tokens more hst htokens ih =>
    have hkinds := L.kind_eq hst
    by_cases heof : s.kind = .eof
    · simp only [List.takeWhile_cons, List.find?_cons, ← hkinds, heof]
      exact ⟨.nil, s, t, hst, rfl, rfl⟩
    · have hlater : ∃ t ∈ tokens, t.kind = .eof := by simpa [heof] using hmark
      obtain ⟨hbody, hmarks⟩ := ih hlater
      simp only [List.takeWhile_cons, List.find?_cons, ← hkinds, heof, ne_eq, not_false_eq_true,
        decide_true, decide_false]
      exact ⟨.cons hst hbody, hmarks⟩

/-- Faults that are alike are reported at tokens that are alike. -/
theorem diagnostic_alike {f g : Fault} {s t : Token} (h : L.Faults none f g) (hmark : L.token s t) :
    ∃ cause u v, L.token u v ∧ f.diagnostic s = .onToken u cause ∧
      g.diagnostic t = .onToken v cause := by
  obtain ⟨cause, left⟩ := f
  obtain ⟨cause', left'⟩ := g
  obtain ⟨rfl, hleft⟩ := h
  cases hleft with
  | nil => exact ⟨cause, s, t, hmark, rfl, rfl⟩
  | cons hhead => exact ⟨cause, _, _, hhead, rfl, rfl⟩

end Likeness

end LoxCore.Grammar

namespace LoxCore.Program

open Grammar

/-- Programs of tokens that are alike have statements that are alike, and errors of the same causes at
tokens that are alike. -/
theorem ofTokensTo_alike {L : Likeness} (depth : Nat) {tokens more : List Token}
    (h : List.Forall₂ L.token tokens more) (hmark : ∃ t ∈ tokens, t.kind = .eof) :
    List.Forall₂ L.Statement (ofTokensTo depth tokens).statements
        (ofTokensTo depth more).statements ∧
      List.Forall₂ (fun d e => ∃ cause s t, L.token s t ∧ d = .onToken s cause ∧
        e = .onToken t cause) (ofTokensTo depth tokens).errors (ofTokensTo depth more).errors := by
  obtain ⟨hbody, s, t, hst, hfind, hfind'⟩ := Likeness.split_alike h hmark
  obtain ⟨statements, faults, hstatements, hfaults, hread⟩ :=
    Likeness.readAll_alike (Likeness.respects_expression none depth) _ _ (.inr hbody)
  simp only [ofTokensTo, hfind, hfind', hread, Option.getD_some, Option.getD_none, readAll,
    List.append_nil]
  refine ⟨hstatements, ?_⟩
  rw [List.forall₂_map_left_iff, List.forall₂_map_right_iff]
  exact hfaults.imp fun _ _ hfault => Likeness.diagnostic_alike hfault hst

end LoxCore.Program
