import LoxCore.Node
import LoxCore.Diagnostic

/-!
Readers: functions that read a phrase from the front of a list of tokens. Every reader that succeeds
uses up a token at least, and one that fails does so at a token it was given, so a grammar made of
readers ends on every input.
-/
namespace LoxCore.Grammar

/-- Something wrong in the tokens. The list `left` starts at the token to blame; it is empty when
that is the end of the source. -/
structure Fault where
  cause : Diagnostic.Cause
  left : List Token
deriving DecidableEq

/-- A fault as a diagnostic, in a source that ends with the given mark. -/
def Fault.diagnostic (endMark : Token) (fault : Fault) : Diagnostic :=
  .onToken (fault.left.headD endMark) fault.cause

/-- The outcome of reading a phrase. The faults in `noted` did not stop the reading. -/
inductive Attempt (α : Type) where
  | done (value : α) (noted : List Fault) (left : List Token)
  | failed (noted : List Fault) (fault : Fault)

namespace Attempt

variable {α β : Type}

/-- The outcome of reading at the front of `tokens` leaves fewer tokens, or fails not before them. -/
def Within (tokens : List Token) : Attempt α → Prop
  | done _ _ left => left.length < tokens.length
  | failed _ fault => fault.left.length ≤ tokens.length

theorem Within.mono {tokens more : List Token} {a : Attempt α} (h : a.Within tokens)
    (le : tokens.length ≤ more.length) : a.Within more := by
  cases a with
  | done => exact Nat.lt_of_lt_of_le h le
  | failed => exact Nat.le_trans h le

/-- Change the phrase that was read. -/
def map (f : α → β) : Attempt α → Attempt β
  | done value noted left => done (f value) noted left
  | failed noted fault => failed noted fault

theorem Within.map {tokens : List Token} {a : Attempt α} (h : a.Within tokens) (f : α → β) :
    (a.map f).Within tokens := by
  cases a <;> exact h

/-- Ask for a token of one kind after the phrase. -/
def expect (kind : Token.Kind) (expected : Diagnostic.Expected) : Attempt α → Attempt α
  | done value noted (t :: left) =>
    if t.kind = kind then done value noted left
    else failed noted ⟨.expectToken expected, t :: left⟩
  | done _ noted [] => failed noted ⟨.expectToken expected, []⟩
  | failed noted fault => failed noted fault

theorem Within.expect {tokens : List Token} {a : Attempt α} (h : a.Within tokens)
    (kind : Token.Kind) (expected : Diagnostic.Expected) :
    (a.expect kind expected).Within tokens := by
  match a with
  | failed .. => exact h
  | done _ _ [] => exact Nat.zero_le _
  | done _ _ (t :: left) =>
    simp only [Attempt.expect]
    split
    · exact Nat.lt_trans (Nat.lt_succ_self _) h
    · exact Nat.le_of_lt h

end Attempt

/-- A way to read a phrase. -/
structure Reader (α : Type) where
  read : List Token → Attempt α
  within : ∀ tokens, (read tokens).Within tokens

namespace Reader

/-- Reads nothing, because no deeper level is left. -/
def tooDeep : Reader Node where
  read tokens := .failed [] ⟨.nestingTooDeep, tokens⟩
  within _ := Nat.le_refl _

/-- Extend an operand by operators and further operands, always on the right. -/
def chainFrom (isOperator : Token.Kind → Bool) (operand : Reader Node) (left : Node)
    (noted : List Fault) : List Token → Attempt Node
  | [] => .done left noted []
  | t :: rest =>
    if isOperator t.kind then
      match _outcome : operand.read rest with
      | .done right more rest' =>
        chainFrom isOperator operand (.binary left t right) (noted ++ more) rest'
      | .failed more fault => .failed (noted ++ more) fault
    else .done left noted (t :: rest)
termination_by tokens => tokens.length
decreasing_by
  have := operand.within rest
  rw [_outcome] at this
  exact Nat.lt_succ_of_lt this

theorem chainFrom_within (isOperator : Token.Kind → Bool) (operand : Reader Node) (left : Node)
    (noted : List Fault) (tokens outer : List Token) (h : tokens.length < outer.length) :
    (chainFrom isOperator operand left noted tokens).Within outer := by
  fun_induction chainFrom isOperator operand left noted tokens with
  | case1 => exact h
  | case2 left noted t rest _ right more rest' hread ih =>
    have := operand.within rest
    rw [hread] at this
    exact ih (Nat.lt_trans (Nat.lt_succ_of_lt this) h)
  | case3 left noted t rest _ more fault hread =>
    have := operand.within rest
    rw [hread] at this
    exact Nat.le_of_lt (Nat.lt_of_le_of_lt (Nat.le_succ_of_le this) h)
  | case4 => exact h

/-- Operands joined by operators of one level, which group to the left. -/
def chain (isOperator : Token.Kind → Bool) (operand : Reader Node) : Reader Node where
  read tokens :=
    match operand.read tokens with
    | .done left noted rest => chainFrom isOperator operand left noted rest
    | .failed noted fault => .failed noted fault
  within tokens := by
    have := operand.within tokens
    split <;> rename_i hread <;> rw [hread] at this
    · exact chainFrom_within _ _ _ _ _ _ this
    · exact this

end Reader

end LoxCore.Grammar
