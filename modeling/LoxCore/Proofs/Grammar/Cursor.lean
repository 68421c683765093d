import LoxCore.Proofs.Grammar.Blame

/-!
Reading with a cursor. A walk keeps one list of tokens and the position in it, and looks at the token
there and at the one before. It does what the readers do, with the position in place of the tokens that
are left, and the errors in the order in which they come up. Its loops do not ask whether they come to
an end: they break off if there are not rounds enough, and there always are.
-/
namespace LoxCore.Grammar

/-- The position among the tokens, and the errors so far. -/
structure Cursor where
  position : Nat
  recorded : List Blame
deriving DecidableEq

/-- Why a walk breaks off. A broken statement is the reason in the first two cases. In the others the
walk itself goes wrong, which nothing handles. -/
inductive Break where
  /-- An error that stops a statement. -/
  | raised (b : Blame)
  /-- No deeper level is left. -/
  | tooDeep
  /-- A look before the first token or behind the last. -/
  | noToken
  /-- A step over an end mark. -/
  | pastEnd
  /-- A loop with more rounds than there are tokens. -/
  | unfinished
deriving DecidableEq

/-- A computation with a cursor. -/
abbrev Walk (α : Type) :=
  ExceptT Break (StateM Cursor) α

namespace Walk

variable {α β : Type}

/-- What the walk comes to from a cursor. -/
def outcome (w : Walk α) (c : Cursor) : Except Break α × Cursor :=
  (w.run.run c).run

section Outcome

variable {c : Cursor}

@[simp] theorem outcome_pure (a : α) : (pure a : Walk α).outcome c = (.ok a, c) :=
  rfl

@[simp] theorem outcome_throw (b : Break) :
    (throw b : Walk α).outcome c = (.error b, c) :=
  rfl

@[simp] theorem outcome_get : (get : Walk Cursor).outcome c = (.ok c, c) :=
  rfl

@[simp] theorem outcome_modify (f : Cursor → Cursor) :
    (modify f : Walk PUnit).outcome c = (.ok ⟨⟩, f c) :=
  rfl

@[simp] theorem outcome_bind (w : Walk α) (f : α → Walk β) :
    (w >>= f).outcome c =
      match w.outcome c with
      | (.ok a, c') => (f a).outcome c'
      | (.error b, c') => (.error b, c') := by
  rw [outcome, outcome, ExceptT.run_bind, StateT.run_bind]
  rcases w.run.run c with ⟨a | b, c'⟩ <;> rfl

@[simp] theorem outcome_tryCatch (w : Walk α) (f : Break → Walk α) :
    (tryCatch w f).outcome c =
      match w.outcome c with
      | (.ok a, c') => (.ok a, c')
      | (.error b, c') => (f b).outcome c' := by
  rw [outcome, outcome, ExceptT.run_tryCatch, StateT.run_bind]
  rcases w.run.run c with ⟨a | b, c'⟩ <;> rfl

@[simp] theorem outcome_map (f : α → β) (w : Walk α) :
    (f <$> w).outcome c =
      match w.outcome c with
      | (.ok a, c') => (.ok (f a), c')
      | (.error b, c') => (.error b, c') := by
  rw [map_eq_pure_bind, outcome_bind]
  rfl

end Outcome

variable (tokens : List Token)

/-- The token at a position. -/
def tokenAt (position : Nat) : Walk Token :=
  match tokens[position]? with
  | some t => pure t
  | none => throw .noToken

/-- The token at the cursor. -/
def peek : Walk Token := do
  tokenAt tokens (← get).position

/-- The position before the cursor. -/
def previousPosition : Walk Nat := do
  match (← get).position with
  | 0 => throw .noToken
  | position + 1 => pure position

/-- The token before the cursor. -/
def previous : Walk Token := do
  tokenAt tokens (← previousPosition)

def atEnd : Walk Bool := do
  return (← peek tokens).kind = .eof

/-- Move over a token, which must not be an end mark. -/
def step : Walk Unit := do
  if ← atEnd tokens then throw .pastEnd
  modify fun c => { c with position := c.position + 1 }

/-- Move on, unless the cursor is at an end mark. -/
def advance : Walk Token := do
  unless ← atEnd tokens do step tokens
  previous tokens

/-- Move over a token of a kind that is asked for, if there is one. -/
def take (accepts : Token.Kind → Bool) : Walk Bool := do
  if accepts (← peek tokens).kind then
    let _ ← advance tokens
    return true
  else return false

/-- Break off with an error at the cursor. -/
def raise (cause : Diagnostic.Cause) : Walk α := do
  throw <| .raised ⟨cause, (← get).position⟩

/-- Ask for a token of one kind. -/
def consume (kind : Token.Kind) (expected : Diagnostic.Expected) : Walk Token := do
  if (← peek tokens).kind = kind then advance tokens
  else raise (.expectToken expected)

def record (b : Blame) : Walk Unit :=
  modify fun c => { c with recorded := c.recorded ++ [b] }

/-! Expressions. -/

/-- Extend an operand by operators and further operands, for some rounds. -/
def chainFrom (isOperator : Token.Kind → Bool) (operand : Walk Node) : Nat → Node → Walk Node
  | 0, _ => throw .unfinished
  | rounds + 1, left => do
    if ← take tokens isOperator then
      let operator ← previous tokens
      let right ← operand
      chainFrom isOperator operand rounds (.binary left operator right)
    else return left

def chain (isOperator : Token.Kind → Bool) (operand : Walk Node) : Walk Node := do
  chainFrom tokens isOperator operand tokens.length (← operand)

def primary (nested : Walk Node) : Walk Node := do
  if ← take tokens (· = .falseKeyword) then return .literal (.bool false)
  else if ← take tokens (· = .trueKeyword) then return .literal (.bool true)
  else if ← take tokens (· = .nilKeyword) then return .literal .nil
  else if ← take tokens (· ∈ [.number, .string]) then
    return .literal (← previous tokens).literal.value
  else if ← take tokens (· = .identifier) then return .ref (← previous tokens)
  else if ← take tokens (· = .leftParen) then
    let inner ← nested
    let _ ← consume tokens .rightParen .closingParen
    return .grouping inner
  else raise .expectExpression

def unary (deeper nested : Walk Node) : Walk Node := do
  if ← take tokens isUnaryOperator then
    let operator ← previous tokens
    let right ← deeper
    return .unary operator right
  else primary tokens nested

def equality (operand : Walk Node) : Walk Node :=
  chain tokens isEqualityOperator <| chain tokens isComparisonOperator <|
    chain tokens isTermOperator <| chain tokens isFactorOperator operand

/-- The error of an assignment to what is no variable does not break off the walk. It is recorded once
the value is read. -/
def assignment (target value : Walk Node) : Walk Node := do
  let left ← target
  if ← take tokens (· = .equal) then
    let equals ← previousPosition
    let right ← value
    match left with
    | .ref name => return .assign name right
    | other =>
      record ⟨.invalidAssignmentTarget, equals⟩
      return other
  else return left

/-- The walks for expressions that may nest to some depth. -/
structure Level where
  unary : Walk Node
  expression : Walk Node

def Level.above (deeper : Level) : Level :=
  let operand := Walk.unary tokens deeper.unary deeper.expression
  ⟨operand, assignment tokens (equality tokens operand) deeper.expression⟩

def Level.ofDepth : Nat → Level
  | 0 => Level.above tokens ⟨throw .tooDeep, throw .tooDeep⟩
  | depth + 1 => (Level.ofDepth depth).above tokens

def expression (depth : Nat) : Walk Node :=
  (Level.ofDepth tokens depth).expression

/-! Statements. -/

def initializer (value : Walk Node) : Walk Node := do
  if ← take tokens (· = .equal) then value else return .null

def varStatement (value : Walk Node) : Walk Node := do
  let name ← consume tokens .identifier .variableName
  let initial ← initializer tokens value
  let _ ← consume tokens .semicolon .semicolonAfterDeclaration
  return .var name initial

def statement (value : Walk Node) : Walk Node := do
  if ← take tokens (· = .varKeyword) then varStatement tokens value
  else if ← take tokens (· = .printKeyword) then
    let printed ← value
    let _ ← consume tokens .semicolon .semicolonAfterValue
    return .print printed
  else
    let evaluated ← value
    let _ ← consume tokens .semicolon .semicolonAfterExpression
    return .expression evaluated

/-- Move on until just after a semicolon or just before a word that starts a statement. -/
def skip : Nat → Walk Unit
  | 0 => throw .unfinished
  | rounds + 1 => do
    if ← atEnd tokens then return
    else if (← previous tokens).kind = .semicolon then return
    else if startsStatement (← peek tokens).kind then return
    else
      let _ ← advance tokens
      skip rounds

/-- Move over the token at fault, and on to where a statement can start. -/
def synchronize : Walk Unit := do
  let _ ← advance tokens
  skip tokens tokens.length

/-- Record the error for which a statement broke off, and move on behind it. -/
def handle : Break → Walk (Option Node)
  | .raised b => do
    record b
    synchronize tokens
    return none
  | .tooDeep => do
    record ⟨.nestingTooDeep, (← get).position⟩
    synchronize tokens
    return none
  | other => throw other

/-- A statement, or nothing after an error. -/
def declaration (value : Walk Node) : Walk (Option Node) :=
  tryCatch (some <$> statement tokens value) (handle tokens)

end Walk

/-- What became of the tokens from one position up to another: a statement or nothing, and errors. -/
structure Call where
  start : Nat
  stop : Nat
  statement : Option Node
  recorded : List Blame

namespace Walk

variable (tokens : List Token)

/-- Statement after statement, up to the end mark. -/
def program (value : Walk Node) : Nat → Walk (List Call)
  | 0 => throw .unfinished
  | rounds + 1 => do
    if ← atEnd tokens then return []
    else
      let before ← get
      let s ← declaration tokens value
      let after ← get
      let more ← program value rounds
      return ⟨before.position, after.position, s, after.recorded.drop before.recorded.length⟩ :: more

/-- A program, from the first token on. -/
def parse (depth : Nat) : Except Break (List Call) × Cursor :=
  (program tokens (expression tokens depth) tokens.length).outcome ⟨0, []⟩

end Walk

/-! The readers and the walks. -/

/-- The tokens before the first end mark. -/
structure IsBody (tokens body : List Token) (mark : Token) : Prop where
  exists_eq : ∃ after, tokens = body ++ mark :: after
  mark_kind : mark.kind = .eof
  kind_ne : ∀ t ∈ body, t.kind ≠ .eof

theorem IsBody.length_lt {tokens body left : List Token} {mark : Token}
    (hbody : IsBody tokens body mark) (h : left <:+ body) : left.length < tokens.length := by
  obtain ⟨after, rfl⟩ := hbody.exists_eq
  refine Nat.lt_of_le_of_lt h.length_le ?_
  simp

/-- The cursor before the tokens that are left of some. -/
def Cursor.facing (body left : List Token) (recorded : List Blame) : Cursor :=
  ⟨body.length - left.length, recorded⟩

/-- The break of a walk at a fault. -/
def Fault.toBreak (body : List Token) (f : Fault) : Break :=
  if f.cause = .nestingTooDeep then .tooDeep else .raised (f.blame body)

namespace Attempt

variable {α β : Type}

/-- The outcome of a walk that does what the attempt did. -/
def outcome (body : List Token) (recorded : List Blame) :
    Attempt α → Except Break α × Cursor
  | done value noted left =>
    (.ok value, .facing body left (recorded ++ noted.map (Fault.blame body)))
  | failed noted fault =>
    (.error (fault.toBreak body),
      .facing body fault.left (recorded ++ noted.map (Fault.blame body)))

/-- The attempt leaves a part of the tokens, or fails at one. -/
def Leaves (tokens : List Token) : Attempt α → Prop
  | done _ _ left => left <:+ tokens
  | failed _ fault => fault.left <:+ tokens

theorem Leaves.map {a : Attempt α} {tokens : List Token} (h : a.Leaves tokens) (f : α → β) :
    (a.map f).Leaves tokens := by
  cases a <;> exact h

theorem Leaves.trans {a : Attempt α} {tokens more : List Token} (h : a.Leaves tokens)
    (hsuffix : tokens <:+ more) : a.Leaves more := by
  cases a <;> exact List.IsSuffix.trans h hsuffix

end Attempt

namespace Walk

variable {α β : Type}

/-- The walk does what the reading does, wherever the cursor stands. -/
def Follows (body : List Token) (w : Walk α) (read : List Token → Attempt α) : Prop :=
  ∀ left recorded, left <:+ body → (read left).Leaves left ∧
    w.outcome (.facing body left recorded) = (read left).outcome body recorded

section Follows

variable {tokens body left : List Token} {mark t : Token} {recorded : List Blame}
  {accepts : Token.Kind → Bool} {w : Walk α} {read : List Token → Attempt α}

theorem exists_eq_add_one {count rounds : Nat} (h : count < rounds) :
    ∃ fewer, rounds = fewer + 1 :=
  Nat.exists_eq_add_one_of_ne_zero (Nat.ne_zero_of_lt h)

theorem position_facing (h : t :: left <:+ body) :
    (Cursor.facing body left recorded).position =
      (Cursor.facing body (t :: left) recorded).position + 1 := by
  have := h.length_le
  simp only [Cursor.facing, List.length_cons] at this ⊢
  omega

theorem getElem?_facing (hbody : IsBody tokens body mark) (h : left <:+ body) :
    tokens[(Cursor.facing body left recorded).position]? = some (left.headD mark) := by
  obtain ⟨after, rfl⟩ := hbody.exists_eq
  obtain ⟨before, rfl⟩ := h
  rw [Cursor.facing, List.length_append, Nat.add_sub_cancel, List.append_assoc,
    List.getElem?_append_right (Nat.le_refl _), Nat.sub_self]
  cases left <;> rfl

theorem outcome_record (b : Blame) : (record b).outcome (.facing body left recorded) =
    (.ok ⟨⟩, .facing body left (recorded ++ [b])) :=
  rfl

theorem outcome_peek (hbody : IsBody tokens body mark) (h : left <:+ body) :
    (peek tokens).outcome (.facing body left recorded) =
      (.ok (left.headD mark), .facing body left recorded) := by
  simp [peek, tokenAt, getElem?_facing hbody h]

theorem outcome_previousPosition (h : t :: left <:+ body) :
    previousPosition.outcome (.facing body left recorded) =
      (.ok (body.length - (t :: left).length), .facing body left recorded) := by
  simp [previousPosition, position_facing h]
  rfl

theorem outcome_previous (hbody : IsBody tokens body mark) (h : t :: left <:+ body) :
    (previous tokens).outcome (.facing body left recorded) =
      (.ok t, .facing body left recorded) := by
  have htoken : tokens[(Cursor.facing body (t :: left) recorded).position]? = some t :=
    getElem?_facing hbody h
  rw [Cursor.facing] at htoken
  simp only [previous, outcome_bind, outcome_previousPosition h, tokenAt, htoken, outcome_pure]

theorem outcome_atEnd (hbody : IsBody tokens body mark) (h : left <:+ body) :
    (atEnd tokens).outcome (.facing body left recorded) =
      (.ok left.isEmpty, .facing body left recorded) := by
  cases left with
  | nil => simp [atEnd, outcome_peek hbody h, hbody.mark_kind]
  | cons t left => simp [atEnd, outcome_peek hbody h, hbody.kind_ne t (h.mem (by simp))]

theorem outcome_advance (hbody : IsBody tokens body mark) (h : t :: left <:+ body) :
    (advance tokens).outcome (.facing body (t :: left) recorded) =
      (.ok t, .facing body left recorded) := by
  have hstep : { Cursor.facing body (t :: left) recorded with
      position := (Cursor.facing body (t :: left) recorded).position + 1 } =
        Cursor.facing body left recorded := by
    rw [← position_facing h]
    rfl
  simp [advance, step, outcome_atEnd hbody h, hstep, outcome_previous hbody h]

theorem outcome_take (hbody : IsBody tokens body mark) (h : t :: left <:+ body)
    (haccepts : accepts t.kind = true) :
    (take tokens accepts).outcome (.facing body (t :: left) recorded) =
      (.ok true, .facing body left recorded) := by
  simp [take, outcome_peek hbody h, haccepts, outcome_advance hbody h]

theorem outcome_take_not (hbody : IsBody tokens body mark) (h : left <:+ body)
    (haccepts : accepts (left.headD mark).kind = false) :
    (take tokens accepts).outcome (.facing body left recorded) =
      (.ok false, .facing body left recorded) := by
  simp only [List.headD_eq_head?_getD] at haccepts
  simp [take, outcome_peek hbody h, haccepts]

theorem outcome_raise {cause : Diagnostic.Cause} (hcause : cause ≠ .nestingTooDeep) :
    (raise cause : Walk α).outcome (.facing body left recorded) =
      (.failed [] ⟨cause, left⟩ : Attempt α).outcome body recorded := by
  simp [raise, Attempt.outcome, Fault.toBreak, hcause]
  rfl

/-- Nothing is done behind a walk that does what a failed attempt did. -/
theorem outcome_bind_failed {noted : List Fault} {fault : Fault}
    (h : w.outcome (.facing body left recorded) =
      (Attempt.failed noted fault : Attempt α).outcome body recorded)
    (f : α → Walk β) : (w >>= f).outcome (.facing body left recorded) =
      (Attempt.failed noted fault : Attempt β).outcome body recorded := by
  rw [outcome_bind, h]
  rfl

/-- A walk that does what a successful attempt did goes on before the tokens left by it. -/
theorem outcome_bind_done {value : α} {noted : List Fault} {rest : List Token}
    (h : w.outcome (.facing body left recorded) =
      (Attempt.done value noted rest).outcome body recorded)
    (f : α → Walk β) : (w >>= f).outcome (.facing body left recorded) =
      (f value).outcome (.facing body rest (recorded ++ noted.map (Fault.blame body))) := by
  rw [outcome_bind, h]
  rfl

theorem outcome_consume (hbody : IsBody tokens body mark) (h : t :: left <:+ body)
    (expected : Diagnostic.Expected) :
    (consume tokens t.kind expected).outcome (.facing body (t :: left) recorded) =
      (.ok t, .facing body left recorded) := by
  simp [consume, outcome_peek hbody h, outcome_advance hbody h]

theorem outcome_consume_ne (hbody : IsBody tokens body mark) (h : left <:+ body)
    {kind : Token.Kind} (hkind : (left.headD mark).kind ≠ kind) (expected : Diagnostic.Expected) :
    (consume tokens kind expected).outcome (.facing body left recorded) =
      (.failed [] ⟨.expectToken expected, left⟩ : Attempt Token).outcome body recorded := by
  simp only [List.headD_eq_head?_getD] at hkind
  simp [consume, outcome_peek hbody h, hkind, outcome_raise]

/-- What a walk does behind a token. -/
theorem Follows.behind (h : Follows body w read) (hleft : t :: left <:+ body)
    (recorded : List Blame) : (read left).Leaves (t :: left) ∧
      w.outcome (.facing body left recorded) = (read left).outcome body recorded := by
  have hsuffix := List.suffix_cons t left
  obtain ⟨hleaves, houtcome⟩ := h left recorded (hsuffix.trans hleft)
  exact ⟨hleaves.trans hsuffix, houtcome⟩

/-- A phrase with a token of one kind behind it. -/
theorem Follows.expect (hbody : IsBody tokens body mark) (h : Follows body w read) (f : α → β)
    {kind : Token.Kind} (hkind : kind ≠ .eof) (expected : Diagnostic.Expected) :
    Follows body (do
        let value ← w
        let _ ← consume tokens kind expected
        return f value)
      fun left => ((read left).map f).expect kind expected := by
  intro left recorded hleft
  obtain ⟨hleaves, houtcome⟩ := h left recorded hleft
  dsimp only
  generalize read left = attempt at hleaves houtcome ⊢
  cases attempt with
  | failed noted fault => exact ⟨hleaves, outcome_bind_failed houtcome _⟩
  | done value noted rest =>
    have hrest : rest <:+ body := List.IsSuffix.trans hleaves hleft
    rw [outcome_bind_done houtcome]
    simp only [Attempt.map]
    have hmissing (hne : (rest.headD mark).kind ≠ kind) :
        (do let _ ← consume tokens kind expected; return f value : Walk β).outcome
          (.facing body rest (recorded ++ noted.map (Fault.blame body))) =
        (.failed noted ⟨.expectToken expected, rest⟩ : Attempt β).outcome body recorded := by
      rw [outcome_bind, outcome_consume_ne hbody hrest hne]
      simp [Attempt.outcome]
    cases rest with
    | nil => exact ⟨hleaves, hmissing (by simpa [hbody.mark_kind] using hkind.symm)⟩
    | cons t rest =>
      simp only [Attempt.expect]
      split
      · rename_i heq
        subst heq
        refine ⟨List.IsSuffix.trans (List.suffix_cons t rest) hleaves, ?_⟩
        rw [outcome_bind, outcome_consume hbody hrest]
        simp [Attempt.outcome]
      · rename_i hne
        exact ⟨hleaves, hmissing hne⟩

theorem follows_tooDeep : Follows body (throw .tooDeep) Reader.tooDeep.read := by
  intro left recorded _
  refine ⟨List.suffix_rfl, ?_⟩
  simp [Reader.tooDeep, Attempt.outcome, Fault.toBreak]

variable {walk : Walk Node}

theorem follows_primary (hbody : IsBody tokens body mark) {nested : Reader Node}
    (hnested : Follows body walk nested.read) :
    Follows body (primary tokens walk) (Grammar.primary nested).read := by
  intro left recorded hleft
  cases left with
  | nil =>
    refine ⟨List.suffix_rfl, ?_⟩
    simp [primary, outcome_take_not hbody hleft, hbody.mark_kind, outcome_raise, Grammar.primary]
  | cons t rest =>
    simp only [Grammar.primary]
    split <;> rename_i hkind
    case h_7 =>
      have hgroup := hnested.expect hbody Node.grouping
        (by decide : Token.Kind.rightParen ≠ .eof) .closingParen
      obtain ⟨hleaves, houtcome⟩ := hgroup.behind hleft recorded
      refine ⟨hleaves, ?_⟩
      rw [← houtcome]
      simp [primary, outcome_take_not hbody hleft, outcome_take hbody hleft, hkind]
    case h_8 =>
      refine ⟨List.suffix_rfl, ?_⟩
      simp only [imp_false] at *
      simp [primary, outcome_take_not hbody hleft, outcome_raise, *]
    all_goals
      refine ⟨List.suffix_cons t rest, ?_⟩
      simp [primary, outcome_take_not hbody hleft, outcome_take hbody hleft, hkind,
        outcome_previous hbody hleft, Attempt.outcome]

theorem follows_unary (hbody : IsBody tokens body mark) {deeper nested : Reader Node}
    {inner : Walk Node} (hdeeper : Follows body inner deeper.read)
    (hnested : Follows body walk nested.read) :
    Follows body (unary tokens inner walk) (Grammar.unary deeper nested).read := by
  intro left recorded hleft
  have hprimary := follows_primary hbody hnested left recorded hleft
  cases left with
  | nil =>
    refine ⟨hprimary.1, hprimary.2 ▸ ?_⟩
    simp [unary, outcome_take_not hbody hleft, hbody.mark_kind, isUnaryOperator]
  | cons t rest =>
    simp only [Grammar.unary]
    split
    · rename_i hoperator
      obtain ⟨hleaves, houtcome⟩ := hdeeper.behind hleft recorded
      generalize deeper.read rest = attempt at hleaves houtcome ⊢
      refine ⟨hleaves.map _, ?_⟩
      rw [unary]
      simp only [outcome_bind, outcome_take hbody hleft hoperator, if_true,
        outcome_previous hbody hleft, houtcome]
      cases attempt <;> rfl
    · rename_i hoperator
      refine ⟨hprimary.1, hprimary.2 ▸ ?_⟩
      simp [unary, outcome_take_not hbody hleft, hoperator]

theorem follows_chainFrom (hbody : IsBody tokens body mark) {isOperator : Token.Kind → Bool}
    (heof : isOperator .eof = false) {operand : Reader Node}
    (hoperand : Follows body walk operand.read) (n : Node) (noted : List Fault)
    (hleft : left <:+ body) {rounds : Nat} (hrounds : left.length < rounds)
    (recorded : List Blame) : (Reader.chainFrom isOperator operand n noted left).Leaves left ∧
      (chainFrom tokens isOperator walk rounds n).outcome
          (.facing body left (recorded ++ noted.map (Fault.blame body))) =
        (Reader.chainFrom isOperator operand n noted left).outcome body recorded := by
  have hstop {n : Node} {noted : List Fault} {left : List Token} (hleft : left <:+ body)
      (hkind : isOperator (left.headD mark).kind = false) (rounds : Nat) :
      (chainFrom tokens isOperator walk (rounds + 1) n).outcome
          (.facing body left (recorded ++ noted.map (Fault.blame body))) =
        (Attempt.done n noted left).outcome body recorded := by
    rw [chainFrom, outcome_bind, outcome_take_not hbody hleft hkind]
    rfl
  -- A round that does not end the loop uses up tokens, so the rounds do not run out.
  fun_induction Reader.chainFrom isOperator operand n noted left generalizing rounds with
  | case1 =>
    obtain ⟨rounds, rfl⟩ := exists_eq_add_one hrounds
    exact ⟨List.suffix_rfl, hstop hleft (by rwa [List.headD_nil, hbody.mark_kind]) rounds⟩
  | case2 n noted t rest hkind right more rest' hread ih =>
    obtain ⟨rounds, rfl⟩ := exists_eq_add_one hrounds
    obtain ⟨hleaves, houtcome⟩ := hoperand.behind hleft (recorded ++ noted.map (Fault.blame body))
    have hwithin := operand.within rest
    rw [hread] at hleaves houtcome hwithin
    have hfewer : rest'.length < rounds :=
      Nat.lt_trans hwithin (Nat.lt_of_succ_lt_succ hrounds)
    obtain ⟨hmore, hnext⟩ := ih (List.IsSuffix.trans hleaves hleft) hfewer
    refine ⟨hmore.trans hleaves, ?_⟩
    rw [chainFrom, ← hnext]
    simp [outcome_take hbody hleft hkind, outcome_previous hbody hleft, houtcome, Attempt.outcome]
  | case3 n noted t rest hkind more fault hread =>
    obtain ⟨rounds, rfl⟩ := exists_eq_add_one hrounds
    obtain ⟨hleaves, houtcome⟩ := hoperand.behind hleft (recorded ++ noted.map (Fault.blame body))
    rw [hread] at hleaves houtcome
    refine ⟨hleaves, ?_⟩
    rw [chainFrom]
    simp [outcome_take hbody hleft hkind, outcome_previous hbody hleft, houtcome, Attempt.outcome]
  | case4 n noted t rest hkind =>
    obtain ⟨rounds, rfl⟩ := exists_eq_add_one hrounds
    exact ⟨List.suffix_rfl, hstop hleft (by simpa using hkind) rounds⟩

theorem follows_chain (hbody : IsBody tokens body mark) {isOperator : Token.Kind → Bool}
    (heof : isOperator .eof = false) {operand : Reader Node}
    (hoperand : Follows body walk operand.read) :
    Follows body (chain tokens isOperator walk) (Reader.chain isOperator operand).read := by
  intro left recorded hleft
  obtain ⟨hleaves, houtcome⟩ := hoperand left recorded hleft
  simp only [Reader.chain]
  split <;> rename_i hread <;> rw [hread] at hleaves houtcome
  · rename_i n noted rest
    have hrest := List.IsSuffix.trans hleaves hleft
    obtain ⟨hmore, hnext⟩ := follows_chainFrom hbody heof hoperand n noted hrest
      (hbody.length_lt hrest) recorded
    exact ⟨hmore.trans hleaves, (outcome_bind_done houtcome _).trans hnext⟩
  · exact ⟨hleaves, outcome_bind_failed houtcome _⟩

theorem follows_equality (hbody : IsBody tokens body mark) {operand : Reader Node}
    (hoperand : Follows body walk operand.read) :
    Follows body (equality tokens walk) (Grammar.equality operand).read :=
  follows_chain hbody rfl <| follows_chain hbody rfl <| follows_chain hbody rfl <|
    follows_chain hbody rfl hoperand

theorem follows_assignment (hbody : IsBody tokens body mark) {target value : Reader Node}
    {inner : Walk Node} (htarget : Follows body inner target.read)
    (hvalue : Follows body walk value.read) :
    Follows body (assignment tokens inner walk) (Grammar.assignment target value).read := by
  intro left recorded hleft
  obtain ⟨hleaves, houtcome⟩ := htarget left recorded hleft
  simp only [Grammar.assignment]
  split <;> rename_i hread <;> rw [hread] at hleaves houtcome
  · exact ⟨hleaves, outcome_bind_failed houtcome _⟩
  · refine ⟨hleaves, (outcome_bind_done houtcome _).trans ?_⟩
    have hnil := List.IsSuffix.trans hleaves hleft
    simp [outcome_take_not hbody hnil, hbody.mark_kind, Attempt.outcome]
  · rename_i node noted t rest
    have hcons : t :: rest <:+ body := List.IsSuffix.trans hleaves hleft
    split
    · rename_i hequal
      obtain ⟨hleaves', houtcome'⟩ :=
        hvalue.behind hcons (recorded ++ noted.map (Fault.blame body))
      split <;> rename_i hreadValue <;> rw [hreadValue] at hleaves' houtcome'
      · refine ⟨hleaves'.trans hleaves, (outcome_bind_done houtcome _).trans ?_⟩
        simp [outcome_take hbody hcons, hequal, outcome_previousPosition hcons, houtcome',
          Attempt.outcome]
      · have hread : (assignment tokens inner walk).outcome (.facing body left recorded) = _ :=
          outcome_bind_done houtcome _
        unfold assignTo
        split
        · refine ⟨hleaves'.trans hleaves, hread.trans ?_⟩
          simp [outcome_take hbody hcons, hequal, outcome_previousPosition hcons, houtcome',
            Attempt.outcome]
        · refine ⟨hleaves'.trans hleaves, hread.trans ?_⟩
          simp [outcome_take hbody hcons, hequal, outcome_previousPosition hcons, houtcome',
            Attempt.outcome, outcome_record, Fault.blame]
    · rename_i hequal
      refine ⟨hleaves, (outcome_bind_done houtcome _).trans ?_⟩
      simp [outcome_take_not hbody hcons, hequal, Attempt.outcome]

/-- The walks of a level do what its readers do. -/
def Level.Follows (body : List Token) (walks : Level) (readers : Grammar.Level) : Prop :=
  Walk.Follows body walks.unary readers.unary.read ∧
    Walk.Follows body walks.expression readers.expression.read

theorem Level.Follows.above (hbody : IsBody tokens body mark) {walks : Level}
    {readers : Grammar.Level} (h : walks.Follows body readers) :
    (walks.above tokens).Follows body readers.above := by
  have hunary := follows_unary hbody h.1 h.2
  exact ⟨hunary, follows_assignment hbody (follows_equality hbody hunary) h.2⟩

theorem follows_expression (hbody : IsBody tokens body mark) (depth : Nat) :
    Follows body (expression tokens depth) (Grammar.expression depth).read := by
  suffices h : (Level.ofDepth tokens depth).Follows body (Grammar.Level.ofDepth depth) from h.2
  induction depth with
  | zero => exact Level.Follows.above hbody ⟨follows_tooDeep, follows_tooDeep⟩
  | succ depth ih => exact ih.above hbody

theorem follows_initializer (hbody : IsBody tokens body mark) {value : Reader Node}
    (hvalue : Follows body walk value.read) :
    Follows body (initializer tokens walk) (Grammar.initializer value) := by
  intro left recorded hleft
  cases left with
  | nil =>
    refine ⟨List.suffix_rfl, ?_⟩
    simp [initializer, outcome_take_not hbody hleft, hbody.mark_kind, Grammar.initializer,
      Attempt.outcome]
  | cons t rest =>
    simp only [Grammar.initializer]
    split
    · rename_i hequal
      obtain ⟨hleaves, houtcome⟩ := hvalue.behind hleft recorded
      refine ⟨hleaves, ?_⟩
      simp [initializer, outcome_take hbody hleft, hequal, houtcome]
    · rename_i hequal
      refine ⟨List.suffix_rfl, ?_⟩
      simp [initializer, outcome_take_not hbody hleft, hequal, Attempt.outcome]

theorem follows_varStatement (hbody : IsBody tokens body mark) {value : Reader Node}
    (hvalue : Follows body walk value.read) :
    Follows body (varStatement tokens walk) (Grammar.varStatement value) := by
  intro left recorded hleft
  cases left with
  | nil =>
    have hname : (([] : List Token).headD mark).kind ≠ .identifier := by simp [hbody.mark_kind]
    exact ⟨List.suffix_rfl, outcome_bind_failed (outcome_consume_ne hbody hleft hname _) _⟩
  | cons name rest =>
    simp only [Grammar.varStatement]
    split
    · rename_i hkind
      have hends := (follows_initializer hbody hvalue).expect hbody (Node.var name)
        (by decide : Token.Kind.semicolon ≠ .eof) .semicolonAfterDeclaration
      obtain ⟨hleaves, houtcome⟩ := hends.behind hleft recorded
      refine ⟨hleaves, ?_⟩
      rw [varStatement, outcome_bind, ← hkind, outcome_consume hbody hleft]
      exact houtcome
    · rename_i hkind
      exact ⟨List.suffix_rfl, outcome_bind_failed (outcome_consume_ne hbody hleft hkind _) _⟩

theorem follows_statement (hbody : IsBody tokens body mark) {value : Reader Node}
    (hvalue : Follows body walk value.read) (hleft : t :: left <:+ body) (recorded : List Blame) :
    ((Grammar.statement value).read (t :: left)).Leaves (t :: left) ∧
      (statement tokens walk).outcome (.facing body (t :: left) recorded) =
        ((Grammar.statement value).read (t :: left)).outcome body recorded := by
  simp only [Grammar.statement]
  split <;> rename_i hkind
  · obtain ⟨hleaves, houtcome⟩ := (follows_varStatement hbody hvalue).behind hleft recorded
    refine ⟨hleaves, ?_⟩
    simp [statement, outcome_take hbody hleft, hkind, houtcome]
  · have hends := hvalue.expect hbody Node.print (by decide : Token.Kind.semicolon ≠ .eof)
      .semicolonAfterValue
    obtain ⟨hleaves, houtcome⟩ := hends.behind hleft recorded
    refine ⟨hleaves, ?_⟩
    rw [← houtcome]
    simp [statement, outcome_take_not hbody hleft, outcome_take hbody hleft, hkind]
  · rename_i hvar
    have hends := hvalue.expect hbody Node.expression (by decide : Token.Kind.semicolon ≠ .eof)
      .semicolonAfterExpression
    obtain ⟨hleaves, houtcome⟩ := hends (t :: left) recorded hleft
    refine ⟨hleaves, ?_⟩
    rw [← houtcome]
    simp only [imp_false] at hvar hkind
    simp [statement, outcome_take_not hbody hleft, hvar, hkind]

/-! Programs. -/

theorem outcome_skip (hbody : IsBody tokens body mark) (hleft : t :: left <:+ body) {rounds : Nat}
    (hrounds : left.length < rounds) : (skip tokens rounds).outcome (.facing body left recorded) =
      (.ok ⟨⟩, .facing body (skipAfter t left) recorded) := by
  have hrest := List.IsSuffix.trans (List.suffix_cons t left) hleft
  fun_induction skipAfter t left generalizing rounds with
  | case1 =>
    obtain ⟨rounds, rfl⟩ := exists_eq_add_one hrounds
    rw [skip]
    simp [outcome_atEnd hbody hrest]
  | case2 previous u rest hstop =>
    obtain ⟨rounds, rfl⟩ := exists_eq_add_one hrounds
    rw [skip]
    by_cases hsemicolon : previous.kind = .semicolon
    · simp [outcome_atEnd hbody hrest, outcome_previous hbody hleft, hsemicolon]
    · simp [outcome_atEnd hbody hrest, outcome_previous hbody hleft, outcome_peek hbody hrest,
        hsemicolon, hstop.resolve_left hsemicolon]
  | case3 previous u rest hstop ih =>
    obtain ⟨rounds, rfl⟩ := exists_eq_add_one hrounds
    obtain ⟨hsemicolon, hstart⟩ := not_or.mp hstop
    have hnext := ih hrest (Nat.lt_of_succ_lt_succ hrounds)
      (List.IsSuffix.trans (List.suffix_cons u rest) hrest)
    rw [skip]
    simp [outcome_atEnd hbody hrest, outcome_previous hbody hleft, outcome_peek hbody hrest,
      hsemicolon, hstart, outcome_advance hbody hrest, hnext]

theorem outcome_synchronize (hbody : IsBody tokens body mark) (hne : body ≠ [])
    (hleft : left <:+ body) : (synchronize tokens).outcome (.facing body left recorded) =
      (.ok ⟨⟩, .facing body (recover left) recorded) := by
  cases left with
  | nil =>
    -- The cursor does not move, but the token before it is looked at, so there must be one.
    have hlast : [body.getLast hne] <:+ body := ⟨_, List.dropLast_concat_getLast hne⟩
    obtain ⟨rounds, hrounds⟩ := exists_eq_add_one (hbody.length_lt hleft)
    rw [synchronize, hrounds, skip]
    simp [advance, outcome_atEnd hbody hleft, outcome_previous hbody hlast, recover]
  | cons t rest =>
    have hrest := List.IsSuffix.trans (List.suffix_cons t rest) hleft
    simp [synchronize, outcome_advance hbody hleft, outcome_skip hbody hleft (hbody.length_lt hrest),
      recover]

theorem outcome_handle (hbody : IsBody tokens body mark) (fault : Fault) (hne : body ≠ [])
    (hleft : fault.left <:+ body) :
    (handle tokens (fault.toBreak body)).outcome (.facing body fault.left recorded) =
      (.ok none, .facing body (recover fault.left) (recorded ++ [fault.blame body])) := by
  obtain ⟨cause, left⟩ := fault
  simp only [Fault.toBreak]
  split
  · rename_i hcause
    obtain rfl : cause = .nestingTooDeep := hcause
    simp [handle, outcome_record, outcome_synchronize hbody hne hleft]
    rfl
  · simp [handle, outcome_record, outcome_synchronize hbody hne hleft]

theorem outcome_declaration_done (hbody : IsBody tokens body mark) {value : Reader Node}
    (hvalue : Follows body walk value.read) (hleft : t :: left <:+ body) {s : Node}
    {noted : List Fault} {rest : List Token}
    (hread : (Grammar.statement value).read (t :: left) = .done s noted rest) :
    (declaration tokens walk).outcome (.facing body (t :: left) recorded) =
      (.ok (some s), .facing body rest (recorded ++ noted.map (Fault.blame body))) := by
  obtain ⟨-, houtcome⟩ := follows_statement hbody hvalue hleft recorded
  rw [hread] at houtcome
  simp [declaration, houtcome, Attempt.outcome]

theorem outcome_declaration_failed (hbody : IsBody tokens body mark) {value : Reader Node}
    (hvalue : Follows body walk value.read) (hleft : t :: left <:+ body)
    {noted : List Fault} {fault : Fault}
    (hread : (Grammar.statement value).read (t :: left) = .failed noted fault) :
    (declaration tokens walk).outcome (.facing body (t :: left) recorded) =
      (.ok none, .facing body (recover fault.left)
        (recorded ++ (noted ++ [fault]).map (Fault.blame body))) := by
  obtain ⟨hleaves, houtcome⟩ := follows_statement hbody hvalue hleft recorded
  rw [hread] at hleaves houtcome
  have hne : body ≠ [] := List.ne_nil_of_mem (hleft.mem (List.mem_cons_self ..))
  simp [declaration, houtcome, Attempt.outcome,
    outcome_handle hbody fault hne (List.IsSuffix.trans hleaves hleft)]

end Follows

end Walk

end LoxCore.Grammar
