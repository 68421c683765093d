import LoxCore.Proofs.Grammar.Likeness
import LoxCore.Proofs.Node.Lines
import Mathlib.Data.List.FinRange
import Mathlib.Data.Set.List

/-!
Reading looks at the kinds of tokens only. The kinds decide which token comes to stand in which place of
which statement, and which is blamed for what. All else that a token says is copied to its place.
-/
namespace LoxCore

/-- A statement or an expression as it is read, with the origins of its tokens in their places. A number
or a string is the value of the token of that origin, and the other literals are the same for all
tokens. -/
inductive Sketch (α : Type) where
  | nil
  | bool (b : Bool)
  | valueOf (origin : α)
  | ref (name : α)
  | assign (name : α) (value : Sketch α)
  | unary (operator : α) (right : Sketch α)
  | binary (left : Sketch α) (operator : α) (right : Sketch α)
  | grouping (inner : Sketch α)
  | expression (inner : Sketch α)
  | print (inner : Sketch α)
  | declare (name : α)
  | define (name : α) (value : Sketch α)

namespace Sketch

variable {α : Type}

/-- The tree with the given tokens in the places of their origins. -/
def fill (tokens : α → Token) : Sketch α → Node
  | nil => .literal .nil
  | bool b => .literal (.bool b)
  | valueOf origin => .literal (tokens origin).literal.value
  | ref name => .ref (tokens name)
  | assign name value => .assign (tokens name) (value.fill tokens)
  | unary operator right => .unary (tokens operator) (right.fill tokens)
  | binary left operator right => .binary (left.fill tokens) (tokens operator) (right.fill tokens)
  | grouping inner => .grouping (inner.fill tokens)
  | expression inner => .expression (inner.fill tokens)
  | print inner => .print (inner.fill tokens)
  | declare name => .var (tokens name) .null
  | define name value => .var (tokens name) (value.fill tokens)

theorem fill_ne_null (tokens : α → Token) (sketch : Sketch α) : sketch.fill tokens ≠ .null := by
  cases sketch <;> exact nofun

theorem mapLines_fill (g : Int → Int) (tokens : α → Token) (sketch : Sketch α) :
    (sketch.fill tokens).mapLines g = sketch.fill fun origin => (tokens origin).mapLine g := by
  unfold Node.mapLines
  induction sketch with
  | nil | bool | valueOf | ref | declare => rfl
  | assign _ _ ih | unary _ _ ih | grouping _ ih | expression _ ih | print _ ih | define _ _ ih =>
    simp only [fill, Node.mapTokens, ih]
  | binary _ _ _ ih₁ ih₂ => simp only [fill, Node.mapTokens, ih₁, ih₂]

/-- A sketch is known from its tree if all tokens denote different strings. -/
theorem fill_injective {tokens : α → Token} {denoted : α → String}
    (hdenoted : denoted.Injective) (h : ∀ origin, (tokens origin).literal = .string (denoted origin)) :
    (fill tokens).Injective := by
  have htokens : tokens.Injective := by
    intro a b hab
    apply hdenoted
    have hliterals := h a
    rw [hab, h b] at hliterals
    exact (Token.Literal.string.inj hliterals).symm
  intro a
  induction a with
  | nil | bool | valueOf | ref | declare =>
    intro b hab
    cases b <;>
      simp_all [fill, Token.Literal.value, htokens.eq_iff, hdenoted.eq_iff, (fill_ne_null _ _).symm]
  | assign _ _ ih | unary _ _ ih | grouping _ ih | expression _ ih | print _ ih | define _ _ ih
  | binary _ _ _ ih₁ ih₂ =>
    intro b hab
    -- Only a tree of the same kind is left.
    cases b <;> simp [fill, htokens.eq_iff, fill_ne_null] at hab
    grind

end Sketch

/-- What is read from tokens: the statements, and the causes of the errors with the tokens that are to
blame, all with origins in the places of tokens. -/
structure Outline (α : Type) where
  statements : List (Sketch α)
  errors : List (Diagnostic.Cause × α)

/-- The program with the given tokens in the places of their origins. -/
def Outline.fill {α : Type} (tokens : α → Token) (outline : Outline α) : Program where
  statements := outline.statements.map (Sketch.fill tokens)
  errors := outline.errors.map fun e => .onToken (tokens e.2) e.1

/-- The program with all its tokens moved to other lines. -/
def Program.mapLines (g : Int → Int) (p : Program) : Program where
  statements := p.statements.map (Node.mapLines g)
  errors := p.errors.map fun d => { d with line := g d.line }

theorem Outline.mapLines_fill {α : Type} (g : Int → Int) (tokens : α → Token)
    (outline : Outline α) :
    (outline.fill tokens).mapLines g = outline.fill fun origin => (tokens origin).mapLine g := by
  simp only [fill, Program.mapLines, List.map_map, Program.mk.injEq]
  exact ⟨List.map_congr_left fun sketch _ => Sketch.mapLines_fill g tokens sketch, rfl⟩

namespace Grammar

variable {α : Type} {first second : α → Token}

/-- Tokens of one origin are alike, and so are expressions that are made from one sketch. -/
def Likeness.ofOrigins (h : ∀ origin, (second origin).kind = (first origin).kind) : Likeness where
  token s t := ∃ origin, s = first origin ∧ t = second origin
  node m n := ∃ sketch : Sketch α, m = sketch.fill first ∧ n = sketch.fill second
  kind_eq := by
    rintro _ _ ⟨origin, rfl, rfl⟩
    exact (h origin).symm
  literal := by
    rintro _ _ v w ⟨origin, rfl, rfl⟩ hv hw
    simp only [literalValue?, h origin] at hv hw
    generalize (first origin).kind = kind at hv hw
    split at hv <;> cases hv <;> cases hw
    · exact ⟨.bool false, rfl, rfl⟩
    · exact ⟨.bool true, rfl, rfl⟩
    · exact ⟨.nil, rfl, rfl⟩
    · exact ⟨.valueOf origin, rfl, rfl⟩
    · exact ⟨.valueOf origin, rfl, rfl⟩
  ref := by
    rintro _ _ ⟨name, rfl, rfl⟩ -
    exact ⟨.ref name, rfl, rfl⟩
  grouping := by
    rintro _ _ ⟨inner, rfl, rfl⟩
    exact ⟨.grouping inner, rfl, rfl⟩
  unary := by
    rintro _ _ _ _ ⟨operator, rfl, rfl⟩ - ⟨right, rfl, rfl⟩
    exact ⟨.unary operator right, rfl, rfl⟩
  binary := by
    rintro _ _ _ _ _ _ _ ⟨operator, rfl, rfl⟩ - ⟨left, rfl, rfl⟩ ⟨right, rfl, rfl⟩
    exact ⟨.binary left operator right, rfl, rfl⟩
  assign := by
    rintro _ _ _ _ ⟨target, hfirst, hsecond⟩ ⟨value, rfl, rfl⟩
    cases target <;> cases hfirst
    cases hsecond
    exact ⟨.assign _ value, rfl, rfl⟩
  target := by
    rintro _ _ ⟨sketch, rfl, rfl⟩
    cases sketch <;> simp [Sketch.fill]

theorem Likeness.exists_sketch {h : ∀ origin, (second origin).kind = (first origin).kind}
    {m n : Node} (hs : (ofOrigins h).Statement m n) :
    ∃ sketch : Sketch α, m = sketch.fill first ∧ n = sketch.fill second := by
  cases hs with
  | expression hinner =>
    obtain ⟨inner, rfl, rfl⟩ := hinner
    exact ⟨.expression inner, rfl, rfl⟩
  | print hinner =>
    obtain ⟨inner, rfl, rfl⟩ := hinner
    exact ⟨.print inner, rfl, rfl⟩
  | declare hname =>
    obtain ⟨name, rfl, rfl⟩ := hname
    exact ⟨.declare name, rfl, rfl⟩
  | define hname _ hvalue =>
    obtain ⟨name, rfl, rfl⟩ := hname
    obtain ⟨value, rfl, rfl⟩ := hvalue
    exact ⟨.define name value, rfl, rfl⟩

end Grammar

/-! Values of known origins. -/

section Origins

variable {σ β γ : Type} {f : σ → β} {g : σ → γ}

theorem exists_map_of_forall₂ {values : List β}
    (h : List.Forall₂ (fun b c => ∃ s, b = f s ∧ c = f s) values values) :
    ∃ origins : List σ, values = origins.map f := by
  have hrange : values ∈ Set.range (List.map f) := by
    rw [Set.range_list_map]
    intro b hb
    obtain ⟨s, rfl, -⟩ := List.forall₂_same.mp h b hb
    exact ⟨s, rfl⟩
  obtain ⟨origins, rfl⟩ := hrange
  exact ⟨origins, rfl⟩

/-- Values of the same origins, if the first of two ways to make values tells the origins apart. -/
theorem eq_map_of_forall₂ (hf : f.Injective) {origins : List σ} {values : List γ}
    (h : List.Forall₂ (fun b c => ∃ s, b = f s ∧ c = g s) (origins.map f) values) :
    values = origins.map g := by
  symm
  rw [← List.forall₂_eq_eq_eq, List.forall₂_map_left_iff]
  rw [List.forall₂_map_left_iff] at h
  refine h.imp ?_
  rintro s _ ⟨s', hs, rfl⟩
  rw [hf hs]

end Origins

namespace Program

open Grammar

variable {n : Nat}

/-- The programs of two lists of tokens of the same kinds, side by side. -/
theorem ofTokensTo_ofOrigins (depth : Nat) (first second : Fin n → Token)
    (h : ∀ i, (second i).kind = (first i).kind) (hmark : ∃ i, (first i).kind = .eof) :
    List.Forall₂ (fun s t => ∃ sketch : Sketch (Fin n), s = sketch.fill first ∧ t = sketch.fill second)
        (ofTokensTo depth (List.ofFn first)).statements
        (ofTokensTo depth (List.ofFn second)).statements ∧
      List.Forall₂ (fun d d' => ∃ e : Diagnostic.Cause × Fin n,
          d = .onToken (first e.2) e.1 ∧ d' = .onToken (second e.2) e.1)
        (ofTokensTo depth (List.ofFn first)).errors (ofTokensTo depth (List.ofFn second)).errors := by
  have htokens : List.Forall₂ (Likeness.ofOrigins h).token (List.ofFn first) (List.ofFn second) := by
    rw [List.ofFn_eq_map, List.ofFn_eq_map, List.forall₂_map_left_iff, List.forall₂_map_right_iff,
      List.forall₂_same]
    exact fun i _ => ⟨i, rfl, rfl⟩
  have hmark : ∃ t ∈ List.ofFn first, t.kind = .eof := by
    obtain ⟨i, hi⟩ := hmark
    exact ⟨first i, List.mem_ofFn.mpr ⟨i, rfl⟩, hi⟩
  obtain ⟨hstatements, herrors⟩ := ofTokensTo_alike depth htokens hmark
  refine ⟨hstatements.imp fun _ _ => Likeness.exists_sketch, herrors.imp ?_⟩
  rintro _ _ ⟨cause, _, _, ⟨i, rfl, rfl⟩, rfl, rfl⟩
  exact ⟨(cause, i), rfl, rfl⟩

/-- Tokens of given kinds, each on a line of its own and with a string of its own length. -/
def numbered (kinds : Fin n → Token.Kind) (i : Fin n) : Token :=
  ⟨kinds i, "", .string (String.ofList (List.replicate i 'x')), i⟩

theorem fill_numbered_injective (kinds : Fin n → Token.Kind) :
    (Sketch.fill (numbered kinds)).Injective := by
  have hdenoted : Function.Injective fun i : Fin n => String.ofList (List.replicate i 'x') := by
    intro i j hij
    have hlength := congrArg String.length hij
    simp only [String.length_ofList, List.length_replicate] at hlength
    exact Fin.ext hlength
  exact Sketch.fill_injective hdenoted fun _ => rfl

theorem onToken_numbered_injective (kinds : Fin n → Token.Kind) :
    Function.Injective fun e : Diagnostic.Cause × Fin n =>
      Diagnostic.onToken (numbered kinds e.2) e.1 := by
  rintro ⟨cause, i⟩ ⟨cause', j⟩ hij
  obtain ⟨hline, hcause, -⟩ := Diagnostic.mk.inj hij
  have hposition : i = j := Fin.ext (Int.ofNat.inj hline)
  rw [hposition, show cause = cause' from hcause]

/-- The kinds of tokens make out what is read from them. -/
theorem exists_outline (depth : Nat) {kinds : Fin n → Token.Kind} (hmark : ∃ i, kinds i = .eof) :
    ∃ outline : Outline (Fin n), ∀ tokens : Fin n → Token, (∀ i, (tokens i).kind = kinds i) →
      ofTokensTo depth (List.ofFn tokens) = outline.fill tokens := by
  -- The numbered tokens show where each of them has come to stand.
  have hnumbered := ofTokensTo_ofOrigins depth (numbered kinds) (numbered kinds) (fun _ => rfl) hmark
  obtain ⟨statements, hstatements⟩ := exists_map_of_forall₂ hnumbered.1
  obtain ⟨errors, herrors⟩ := exists_map_of_forall₂ hnumbered.2
  refine ⟨⟨statements, errors⟩, fun tokens h => ?_⟩
  obtain ⟨hs, he⟩ := ofTokensTo_ofOrigins depth (numbered kinds) tokens h hmark
  rw [hstatements] at hs
  rw [herrors] at he
  exact congrArg₂ Program.mk (eq_map_of_forall₂ (fill_numbered_injective kinds) hs)
    (eq_map_of_forall₂ (onToken_numbered_injective kinds) he)

/-- Reading decides by the kinds of tokens and by nothing else, also where it fails and goes on. Other
tokens of the same kinds, whatever their texts, values and lines, are read to the same statements with
each token replaced by the one at its place, and each number or string by what that token denotes. There
are the same errors in the same order, each blamed on the token at the same place. Tokens on other lines
are read to the same program on those lines. -/
theorem ofTokensTo_outline (depth : Nat) {tokens : List Token} (h : ∃ t ∈ tokens, t.kind = .eof) :
    (∃ outline : Outline (Fin tokens.length),
      ofTokensTo depth tokens = outline.fill tokens.get ∧
      (∀ f : Token → Token, (∀ t ∈ tokens, (f t).kind = t.kind) →
        ofTokensTo depth (tokens.map f) = outline.fill fun i => f (tokens.get i)) ∧
      ∀ others : Fin tokens.length → Token, (∀ i, (others i).kind = (tokens.get i).kind) →
        ofTokensTo depth (List.ofFn others) = outline.fill others) ∧
    ∀ g : Int → Int, ofTokensTo depth (tokens.map (Token.mapLine g)) =
      (ofTokensTo depth tokens).mapLines g := by
  have hmark : ∃ i, (tokens.get i).kind = .eof := by
    obtain ⟨t, ht, hkind⟩ := h
    obtain ⟨i, rfl⟩ := List.get_of_mem ht
    exact ⟨i, hkind⟩
  obtain ⟨outline, hall⟩ := exists_outline depth hmark
  have hself : ofTokensTo depth tokens = outline.fill tokens.get := by
    rw [← hall _ fun _ => rfl, List.ofFn_get]
  have hmap (f : Token → Token) (hf : ∀ t ∈ tokens, (f t).kind = t.kind) :
      ofTokensTo depth (tokens.map f) = outline.fill fun i => f (tokens.get i) := by
    rw [← hall _ fun i => hf _ (List.get_mem tokens i)]
    exact congrArg _ (List.ofFn_getElem_eq_map tokens f).symm
  refine ⟨⟨outline, hself, hmap, hall⟩, fun g => ?_⟩
  rw [hmap (Token.mapLine g) fun _ _ => rfl, hself, Outline.mapLines_fill]

/-- An assignment of a string, a number that is assigned to, and groups that nest too deep, with other
texts, values and lines. -/
theorem ofTokensTo_outline_malformed :
    let word kind line : Token := ⟨kind, "?", .string "x", line⟩
    let tokens := [word .identifier 1, word .equal 1, word .string 1, word .semicolon 1,
      word .number 2, word .equal 2, word .identifier 2, word .semicolon 2,
      word .leftParen 3, word .leftParen 3, word .nilKeyword 3, word .semicolon 3, Token.endMark 4]
    let f (t : Token) : Token := ⟨t.kind, "!", .string "y", 2 * t.line⟩
    (∃ t ∈ tokens, t.kind = .eof) ∧ (∀ t ∈ tokens, (f t).kind = t.kind) ∧
      (∃ outline : Outline (Fin tokens.length), ofTokensTo 1 tokens = outline.fill tokens.get ∧
        ofTokensTo 1 (tokens.map f) = outline.fill fun i => f (tokens.get i)) ∧
      ofTokensTo 1 (tokens.map (Token.mapLine (2 * ·))) = (ofTokensTo 1 tokens).mapLines (2 * ·) ∧
      ofTokensTo 1 (tokens.map f) =
        ⟨[.expression (.assign ⟨.identifier, "!", .string "y", 2⟩ (.literal (.string "y"))),
            .expression (.literal (.string "y"))],
          [⟨4, .invalidAssignmentTarget, .at "!"⟩, ⟨6, .nestingTooDeep, .at "!"⟩]⟩ := by
  intro word tokens f
  have hmark : ∃ t ∈ tokens, t.kind = .eof := by decide
  have hf : ∀ t ∈ tokens, (f t).kind = t.kind := fun _ _ => rfl
  obtain ⟨⟨outline, hself, hmap, -⟩, hlines⟩ := ofTokensTo_outline 1 hmark
  exact ⟨hmark, hf, ⟨outline, hself, hmap f hf⟩, hlines _, by with_unfolding_all rfl⟩

end Program

end LoxCore
