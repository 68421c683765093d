import LoxCore.Grammar.Expression

/-!
Statements and whole programs. Reading goes on after a statement that fails: the tokens up to the
next likely start of a statement are skipped, so one pass finds every broken statement.
-/
namespace LoxCore.Grammar

/-- The value of a `var` statement, from what follows its name. -/
def initializer (value : Reader Node) : List Token → Attempt Node
  | [] => .done .null [] []
  | t :: rest => if t.kind = .equal then value.read rest else .done .null [] (t :: rest)

theorem initializer_within (value : Reader Node) (name : Token) (tokens : List Token) :
    (initializer value tokens).Within (name :: tokens) := by
  cases tokens with
  | nil => exact Nat.lt_succ_self _
  | cons t rest =>
    simp only [initializer]
    split
    · exact (value.within rest).mono (Nat.le_succ_of_le (Nat.le_succ _))
    · exact Nat.lt_succ_self _

/-- A `var` statement after its first word. -/
def varStatement (value : Reader Node) : List Token → Attempt Node
  | [] => .failed [] ⟨.expectToken .variableName, []⟩
  | name :: rest =>
    if name.kind = .identifier then
      ((initializer value rest).map (.var name)).expect .semicolon .semicolonAfterDeclaration
    else .failed [] ⟨.expectToken .variableName, name :: rest⟩

theorem varStatement_within (value : Reader Node) (tokens : List Token) :
    (varStatement value tokens).Within tokens := by
  cases tokens with
  | nil => exact Nat.le_refl _
  | cons name rest =>
    simp only [varStatement]
    split
    · exact ((initializer_within value name rest).map _).expect _ _
    · exact Nat.le_refl _

/-- One statement: a declaration, a print, or an expression. -/
def statement (value : Reader Node) : Reader Node where
  read
    | [] => .failed [] ⟨.expectExpression, []⟩
    | t :: rest =>
      match t.kind with
      | .varKeyword => varStatement value rest
      | .printKeyword =>
        ((value.read rest).map .print).expect .semicolon .semicolonAfterValue
      | _ =>
        ((value.read (t :: rest)).map .expression).expect .semicolon .semicolonAfterExpression
  within
    | [] => Nat.le_refl _
    | t :: rest => by
      simp only
      split
      · exact (varStatement_within value rest).mono (Nat.le_succ _)
      · exact (((value.within rest).map _).expect _ _).mono (Nat.le_succ _)
      · exact ((value.within (t :: rest)).map _).expect _ _

/-- The words with which a statement can start. -/
def startsStatement : Token.Kind → Bool
  | .classKeyword | .funKeyword | .varKeyword | .forKeyword | .ifKeyword | .whileKeyword
  | .printKeyword | .returnKeyword => true
  | _ => false

/-- Skip tokens until just after a semicolon or just before a word that starts a statement, when
`previous` is the token skipped last. -/
def skipAfter (previous : Token) : List Token → List Token
  | [] => []
  | t :: rest =>
    if previous.kind = .semicolon ∨ startsStatement t.kind then t :: rest else skipAfter t rest

/-- Where reading goes on after a fault at the first of these tokens. That token itself is always
skipped, so a fault cannot hold up the reading. -/
def recover : List Token → List Token
  | [] => []
  | t :: rest => skipAfter t rest

theorem length_skipAfter_le (previous : Token) (tokens : List Token) :
    (skipAfter previous tokens).length ≤ tokens.length := by
  fun_induction skipAfter previous tokens with
  | case1 => exact Nat.le_refl _
  | case2 => exact Nat.le_refl _
  | case3 previous t rest _ ih => exact Nat.le_succ_of_le ih

theorem length_recover_lt {left tokens : List Token} (h : left.length ≤ tokens.length)
    (ne : tokens ≠ []) : (recover left).length < tokens.length := by
  match left with
  | [] => exact List.length_pos_iff.mpr ne
  | t :: rest => exact Nat.lt_of_le_of_lt (length_skipAfter_le t rest) h

/-- The statements of a program that could be read, and everything that was wrong, in the order in
which it was found. -/
structure Reading where
  statements : List Node
  faults : List Fault

/-- Read statements until the tokens are used up. -/
def readAll (value : Reader Node) : List Token → Reading
  | [] => ⟨[], []⟩
  | t :: rest =>
    match _outcome : (statement value).read (t :: rest) with
    | .done s noted left =>
      let more := readAll value left
      ⟨s :: more.statements, noted ++ more.faults⟩
    | .failed noted fault =>
      let more := readAll value (recover fault.left)
      ⟨more.statements, noted ++ fault :: more.faults⟩
termination_by tokens => tokens.length
decreasing_by
  all_goals
    have within := (statement value).within (t :: rest)
    rw [_outcome] at within
  · exact within
  · exact length_recover_lt within (List.cons_ne_nil t rest)

end LoxCore.Grammar

namespace LoxCore

/-- A program read from tokens. -/
structure Program where
  /-- The statements that could be read, even if others could not. -/
  statements : List Node
  errors : List Diagnostic

namespace Program

/-- Read the tokens before the first end mark, allowing expressions to nest to a given depth. -/
def ofTokensTo (depth : Nat) (tokens : List Token) : Program :=
  let body := tokens.takeWhile fun t => t.kind ≠ .eof
  let endMark := (tokens.find? fun t => t.kind = .eof).getD (Token.endMark 0)
  let reading := Grammar.readAll (Grammar.expression depth) body
  ⟨reading.statements, reading.faults.map (Grammar.Fault.diagnostic endMark)⟩

/-- Read the tokens before the first end mark. -/
def ofTokens (tokens : List Token) : Program :=
  ofTokensTo nestingLimit tokens

/-- The statements, if nothing was wrong; else the error that was found first. -/
def checked (p : Program) : Except Diagnostic (List Node) :=
  match p.errors with
  | [] => .ok p.statements
  | first :: _ => .error first

end Program

end LoxCore
