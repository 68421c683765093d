import LoxCore.Token

/-!
The grammar of the language as it is written down, rule by rule, and the derivations that it allows.
Rules see kinds of tokens only. Nothing here depends on how programs are read.
-/
namespace LoxCore.Grammar

open Token (Kind)

/-- The names of the rules. -/
inductive Rule where
  | program | declaration | varDecl | statement | printStmt | exprStmt
  | expression | assignment | equality | comparison | term | factor | unary | primary
deriving DecidableEq, Repr

/-- What can stand on the right of a rule. -/
inductive Phrase where
  | word (kind : Kind)
  | rule (name : Rule)
  | seq (first second : Phrase)
  | alt (left right : Phrase)
  | optional (inner : Phrase)
  | many (inner : Phrase)
deriving DecidableEq, Repr

namespace Phrase

/-- A single word, of any of the given kinds. -/
def oneOf (first : Kind) : List Kind → Phrase
  | [] => word first
  | second :: rest => (word first).alt (oneOf second rest)

/-- Any number of further operands, each behind an operator. The first operand stands before them. -/
def joined (operators operand : Phrase) : Phrase :=
  operand.seq (many (operators.seq operand))

end Phrase

open Phrase in
/-- The right-hand side of each rule. -/
def Rule.body : Rule → Phrase
  | program => (many (rule declaration)).seq (word .eof)
  | declaration => (rule varDecl).alt (rule statement)
  | varDecl =>
    (word .varKeyword).seq <| (word .identifier).seq <|
      (optional <| (word .equal).seq (rule expression)).seq (word .semicolon)
  | statement => (rule printStmt).alt (rule exprStmt)
  | printStmt => (word .printKeyword).seq <| (rule expression).seq (word .semicolon)
  | exprStmt => (rule expression).seq (word .semicolon)
  | expression => rule assignment
  | assignment =>
    ((word .identifier).seq <| (word .equal).seq (rule assignment)).alt (rule equality)
  | equality => joined (oneOf .bangEqual [.equalEqual]) (rule comparison)
  | comparison => joined (oneOf .greater [.greaterEqual, .less, .lessEqual]) (rule term)
  | term => joined (oneOf .minus [.plus]) (rule factor)
  | factor => joined (oneOf .slash [.star]) (rule unary)
  | unary => ((oneOf .bang [.minus]).seq (rule unary)).alt (rule primary)
  | primary =>
    (oneOf .trueKeyword [.falseKeyword, .nilKeyword, .number, .string]).alt <|
      ((word .leftParen).seq <| (rule expression).seq (word .rightParen)).alt (word .identifier)

/-- The kinds of tokens that a phrase derives. -/
inductive Derives : Phrase → List Kind → Prop where
  | word (kind : Kind) : Derives (.word kind) [kind]
  | rule {name : Rule} {kinds : List Kind} (h : Derives name.body kinds) :
      Derives (.rule name) kinds
  | seq {first second : Phrase} {before after : List Kind} (h₁ : Derives first before)
      (h₂ : Derives second after) : Derives (.seq first second) (before ++ after)
  | left {left right : Phrase} {kinds : List Kind} (h : Derives left kinds) :
      Derives (.alt left right) kinds
  | right {left right : Phrase} {kinds : List Kind} (h : Derives right kinds) :
      Derives (.alt left right) kinds
  | absent (inner : Phrase) : Derives (.optional inner) []
  | present {inner : Phrase} {kinds : List Kind} (h : Derives inner kinds) :
      Derives (.optional inner) kinds
  | done (inner : Phrase) : Derives (.many inner) []
  | more {inner : Phrase} {before after : List Kind} (h₁ : Derives inner before)
      (h₂ : Derives (.many inner) after) : Derives (.many inner) (before ++ after)

theorem Derives.oneOf {first kind : Kind} {rest : List Kind} (h : kind ∈ first :: rest) :
    Derives (.oneOf first rest) [kind] := by
  induction rest generalizing first with
  | nil =>
    obtain rfl := List.mem_singleton.mp h
    exact .word kind
  | cons second rest ih =>
    rcases List.mem_cons.mp h with rfl | h
    · exact .left (.word kind)
    · exact .right (ih h)

/-- A repetition can be lengthened at its end as well. -/
theorem Derives.snoc {inner : Phrase} {before after : List Kind}
    (h₁ : Derives (.many inner) before) (h₂ : Derives inner after) :
    Derives (.many inner) (before ++ after) := by
  generalize hphrase : Phrase.many inner = phrase at h₁
  induction h₁ with
  | done =>
    cases hphrase
    simpa using h₂.more (.done inner)
  | more hfirst _ _ ih =>
    cases hphrase
    rw [List.append_assoc]
    exact hfirst.more (ih rfl)
  | _ => cases hphrase

/-- One more operand behind an operator. -/
theorem Derives.joined_snoc {operators operand : Phrase} {before after : List Kind} {kind : Kind}
    (h : Derives (.joined operators operand) before) (hoperator : Derives operators [kind])
    (hoperand : Derives operand after) :
    Derives (.joined operators operand) (before ++ kind :: after) := by
  cases h with
  | seq hfirst hrest =>
    rw [List.append_assoc]
    exact hfirst.seq (hrest.snoc (hoperator.seq hoperand))

/-- Repetitions of words of one language. -/
inductive Iterated (language : List Kind → Prop) : List Kind → Prop where
  | done : Iterated language []
  | more {before after : List Kind} (h₁ : language before) (h₂ : Iterated language after) :
      Iterated language (before ++ after)

/-- What a phrase means when the rules are given any languages as their meanings. -/
def Phrase.Means (meaning : Rule → List Kind → Prop) : Phrase → List Kind → Prop
  | word kind => fun kinds => kinds = [kind]
  | rule name => meaning name
  | seq first second => fun kinds =>
    ∃ before after, kinds = before ++ after ∧ first.Means meaning before ∧
      second.Means meaning after
  | alt left right => fun kinds => left.Means meaning kinds ∨ right.Means meaning kinds
  | optional inner => fun kinds => kinds = [] ∨ inner.Means meaning kinds
  | many inner => Iterated (inner.Means meaning)

theorem Phrase.exists_of_means_oneOf {meaning : Rule → List Kind → Prop} {first : Kind}
    {rest kinds : List Kind} (h : (oneOf first rest).Means meaning kinds) :
    ∃ kind ∈ first :: rest, kinds = [kind] := by
  induction rest generalizing first with
  | nil => exact ⟨first, List.mem_singleton_self first, h⟩
  | cons second rest ih =>
    rcases h with h | h
    · exact ⟨first, List.mem_cons_self, h⟩
    · obtain ⟨kind, hkind, rfl⟩ := ih h
      exact ⟨kind, List.mem_cons_of_mem first hkind, rfl⟩

/-- The rules derive no more than any languages that are closed under the rules. This is the
induction over derivations, with one case for a rule. -/
theorem Derives.means {meaning : Rule → List Kind → Prop}
    (closed : ∀ name kinds, name.body.Means meaning kinds → meaning name kinds)
    {phrase : Phrase} {kinds : List Kind} (h : Derives phrase kinds) :
    phrase.Means meaning kinds := by
  induction h with
  | word => rfl
  | rule _ ih => exact closed _ _ ih
  | seq _ _ ih₁ ih₂ => exact ⟨_, _, rfl, ih₁, ih₂⟩
  | left _ ih => exact Or.inl ih
  | right _ ih => exact Or.inr ih
  | absent => exact Or.inl rfl
  | present _ ih => exact Or.inr ih
  | done => exact .done
  | more _ _ ih₁ ih₂ => exact .more ih₁ ih₂

end LoxCore.Grammar
