import LoxCore.Proofs.Grammar.Orderly

/-!
The tokens that errors are blamed on, and the order in which the errors of a program are recorded.
-/
namespace LoxCore.Grammar

/-- The cause of an error, and the position of the token that it is blamed on. -/
structure Blame where
  cause : Diagnostic.Cause
  position : Nat
deriving DecidableEq

namespace Blame

/-- The diagnostic points at the token at that position, which is an equals sign if the target of an
assignment is to blame. -/
def Explains (tokens : List Token) (b : Blame) (d : Diagnostic) : Prop :=
  ∃ t ∈ tokens[b.position]?, d = .onToken t b.cause ∧
    (b.cause = .invalidAssignmentTarget → t.kind = .equal)

/-- Both errors are at equals signs behind what is no variable, and the second sign stands in the value
assigned at the first. That is so unless between the two a statement ends or starts, or a group is
closed that is open at the first. -/
def Encloses (tokens : List Token) (outer inner : Blame) : Prop :=
  outer.cause = .invalidAssignmentTarget ∧ inner.cause = .invalidAssignmentTarget ∧
    outer.position < inner.position ∧
    Inside ((tokens.take inner.position).drop (outer.position + 1))

/-- How two errors lie if the first is recorded earlier: in the order of their tokens, unless the
second encloses the first. -/
def Recorded (tokens : List Token) (earlier later : Blame) : Prop :=
  (earlier.position < later.position ∧ ¬earlier.Encloses tokens later) ∨
    later.Encloses tokens earlier

end Blame

/-- The error of a fault among some tokens. -/
def Fault.blame (tokens : List Token) (f : Fault) : Blame :=
  ⟨f.cause, tokens.length - f.left.length⟩

namespace Fault

variable {body : List Token} {f g : Fault}

theorem position_blame {before : List Token} (h : body = before ++ f.left) :
    (f.blame body).position = before.length := by
  simp [blame, h]

/-- A fault is blamed on the first token that is left, or on the end mark. -/
theorem explains_blame (h : f.left <:+ body) (hplaced : f.IsPlaced) (mark : Token)
    (after : List Token) :
    (f.blame body).Explains (body ++ mark :: after) (f.diagnostic mark) := by
  obtain ⟨before, rfl⟩ := h
  refine ⟨f.left.headD mark, ?_, rfl, fun hcause => ?_⟩
  · rw [position_blame rfl, List.append_assoc, List.getElem?_append_right (Nat.le_refl _),
      Nat.sub_self]
    cases f.left <;> rfl
  · rcases hplaced with ⟨-, t, ht, hequal⟩ | hstops
    · rwa [List.headD_eq_head?_getD, Option.mem_def.mp ht]
    · exact absurd hcause (Diagnostic.Cause.ne_of_stopsStatement hstops)

/-- The tokens between two faults, by their positions. -/
theorem between_blame {before between : List Token} {equals : Token}
    (h : body = before ++ equals :: (between ++ g.left)) (rest : List Token) :
    ((body ++ rest).take (g.blame body).position).drop (before.length + 1) = between := by
  have hbody : body = before ++ equals :: between ++ g.left := by simp [h]
  rw [position_blame hbody, hbody, List.append_assoc _ g.left, List.take_left]
  simp

theorem position_lt_of_before (hf : f.left <:+ body) (h : f.Before g) :
    (f.blame body).position < (g.blame body).position := by
  obtain ⟨t, between, hleft⟩ := h
  obtain ⟨before, rfl⟩ := hf
  have hbody : before ++ f.left = before ++ t :: between ++ g.left := by simp [hleft]
  rw [position_blame rfl, position_blame hbody]
  simp

theorem before_of_position_lt (hf : f.left <:+ body) (hg : g.left <:+ body)
    (h : (f.blame body).position < (g.blame body).position) : f.Before g := by
  have hlengthF := hf.length_le
  have hlengthG := hg.length_le
  simp only [blame] at h
  obtain ⟨front, hfront⟩ := List.suffix_of_suffix_length_le hg hf (by omega)
  cases front with
  | nil =>
    rw [← hfront] at h
    exact absurd h (Nat.lt_irrefl _)
  | cons t between => exact ⟨t, between, hfront.symm⟩

theorem encloses_blame_iff (hf : f.left <:+ body) (hg : g.left <:+ body) (rest : List Token) :
    (f.blame body).Encloses (body ++ rest) (g.blame body) ↔ f.Encloses g := by
  obtain ⟨before, hbefore⟩ := id hf
  have hbetween {equals : Token} {between : List Token}
      (hleft : f.left = equals :: (between ++ g.left)) :
      ((body ++ rest).take (g.blame body).position).drop ((f.blame body).position + 1) = between := by
    rw [position_blame hbefore.symm]
    exact between_blame (by rw [← hbefore, hleft]) rest
  constructor
  · rintro ⟨hcauseF, hcauseG, hlt, hinside⟩
    obtain ⟨equals, between, hleft⟩ := before_of_position_lt hf hg hlt
    rw [hbetween hleft] at hinside
    exact ⟨hcauseF, hcauseG, equals, between, hleft, hinside⟩
  · rintro ⟨hcauseF, hcauseG, equals, between, hleft, hinside⟩
    refine ⟨hcauseF, hcauseG, position_lt_of_before hf ⟨equals, between, hleft⟩, ?_⟩
    rwa [hbetween hleft]

theorem recorded_blame (hf : f.left <:+ body) (hg : g.left <:+ body) (h : f.Recorded g)
    (rest : List Token) : (f.blame body).Recorded (body ++ rest) (g.blame body) := by
  unfold Blame.Recorded
  rw [encloses_blame_iff hf hg, encloses_blame_iff hg hf]
  exact h.imp_left <| .imp_left (position_lt_of_before hf)

end Fault

end LoxCore.Grammar

namespace LoxCore.Program

open Grammar

/-- The errors of a program that is read from tokens, in the order in which they are recorded. -/
def blamesTo (depth : Nat) (tokens : List Token) : List Blame :=
  let body := tokens.takeWhile fun t => t.kind ≠ .eof
  (readAll (expression depth) body).faults.map (Fault.blame body)

/-- The tokens up to the first end mark. -/
theorem exists_mark {tokens : List Token} (h : ∃ t ∈ tokens, t.kind = .eof) :
    ∃ mark after, tokens = tokens.takeWhile (fun t => t.kind ≠ .eof) ++ mark :: after ∧
      mark.kind = .eof ∧ tokens.find? (fun t => t.kind = .eof) = some mark := by
  have hsome : (tokens.find? fun t => t.kind = .eof).isSome = true :=
    List.find?_isSome.mpr (by simpa using h)
  obtain ⟨mark, hfind⟩ := Option.isSome_iff_exists.mp hsome
  obtain ⟨hmark, body, after, htokens, hbody⟩ := List.find?_eq_some_iff_append.mp hfind
  have htake : tokens.takeWhile (fun t => t.kind ≠ .eof) = body := by
    rw [htokens, List.takeWhile_append_of_pos (by simpa using hbody),
      List.takeWhile_cons_of_neg (by simpa using hmark), List.append_nil]
  exact ⟨mark, after, by rw [htake, htokens], by simpa using hmark, hfind⟩

variable (depth : Nat) {tokens : List Token}

/-- The errors of a program are those of its faults. -/
theorem explains_errors (h : ∃ t ∈ tokens, t.kind = .eof) :
    List.Forall₂ (Blame.Explains tokens) (blamesTo depth tokens) (ofTokensTo depth tokens).errors := by
  obtain ⟨mark, after, htokens, -, hfind⟩ := exists_mark h
  have hplaced := (recorded_readAll (orderly_expression depth)
    (tokens.takeWhile fun t => t.kind ≠ .eof)).2
  simp only [blamesTo, ofTokensTo, hfind, Option.getD_some]
  rw [List.forall₂_map_left_iff, List.forall₂_map_right_iff, List.forall₂_same]
  intro f hf
  have hexplains := Fault.explains_blame (hplaced f hf).1 (hplaced f hf).2 mark after
  rwa [← htokens] at hexplains

/-- Any two errors of a program lie as their order of recording says. -/
theorem recorded_blames (h : ∃ t ∈ tokens, t.kind = .eof) :
    (blamesTo depth tokens).Pairwise (Blame.Recorded tokens) := by
  obtain ⟨mark, after, htokens, -, -⟩ := exists_mark h
  obtain ⟨hrecorded, hplaced⟩ := recorded_readAll (orderly_expression depth)
    (tokens.takeWhile fun t => t.kind ≠ .eof)
  refine List.pairwise_map.mpr (hrecorded.imp_of_mem fun hf hg hfg => ?_)
  have hblames := Fault.recorded_blame (hplaced _ hf).1 (hplaced _ hg).1 hfg (mark :: after)
  rwa [← htokens] at hblames

/-- Errors are recorded in the order of their tokens exactly if no assignment to what is no variable has
another one in its value. Of two such assignments the inner one is recorded before the outer one, and
any other two errors are recorded in the order of their tokens. So the first error recorded, which is
the one raised, is the earliest, or else it stands in the value at each token before it that is
blamed. -/
theorem errors_in_order_iff (h : ∃ t ∈ tokens, t.kind = .eof) :
    List.Forall₂ (Blame.Explains tokens) (blamesTo depth tokens) (ofTokensTo depth tokens).errors ∧
    (blamesTo depth tokens).Pairwise (Blame.Recorded tokens) ∧
    (((blamesTo depth tokens).map Blame.position).Pairwise (· < ·) ↔
      ∀ outer ∈ blamesTo depth tokens, ∀ inner ∈ blamesTo depth tokens,
        ¬outer.Encloses tokens inner) ∧
    ∀ d, (ofTokensTo depth tokens).checked = .error d → ∃ first ∈ (blamesTo depth tokens).head?,
      first.Explains tokens d ∧
        ∀ b ∈ blamesTo depth tokens, b.position < first.position → b.Encloses tokens first := by
  have hexplains := explains_errors depth h
  have hrecorded := recorded_blames depth h
  generalize blamesTo depth tokens = blames at hexplains hrecorded ⊢
  refine ⟨hexplains, hrecorded, ?_, ?_⟩
  · constructor
    · intro hincreasing outer houter inner hinner hencloses
      have hlt := hencloses.2.2.1
      obtain ⟨i, hi, rfl⟩ := List.getElem_of_mem houter
      obtain ⟨j, hj, rfl⟩ := List.getElem_of_mem hinner
      rw [List.pairwise_map] at hincreasing
      rcases Nat.lt_trichotomy i j with hij | rfl | hji
      · rcases List.pairwise_iff_getElem.mp hrecorded i j hi hj hij with ⟨-, hnot⟩ | hinverse
        · exact hnot hencloses
        · exact Nat.lt_asymm hlt hinverse.2.2.1
      · exact Nat.lt_irrefl _ hlt
      · exact Nat.lt_asymm hlt (List.pairwise_iff_getElem.mp hincreasing j i hj hi hji)
    · intro hnone
      refine List.pairwise_map.mpr (hrecorded.imp_of_mem fun hearlier hlater hboth => ?_)
      rcases hboth with ⟨hlt, -⟩ | hencloses
      · exact hlt
      · exact absurd hencloses (hnone _ hlater _ hearlier)
  · intro d hd
    unfold checked at hd
    split at hd
    · cases hd
    · rename_i first rest herrors
      obtain rfl := Except.error.inj hd
      rw [herrors] at hexplains
      obtain ⟨b, more, hfirst, -, hblames⟩ := List.forall₂_cons_right_iff.mp hexplains
      rw [hblames] at hrecorded ⊢
      refine ⟨b, rfl, hfirst, fun later hlater hlt => ?_⟩
      rcases List.mem_cons.mp hlater with rfl | hmore
      · exact absurd hlt (Nat.lt_irrefl _)
      · rcases (List.pairwise_cons.mp hrecorded).1 later hmore with ⟨hgt, -⟩ | hencloses
        · exact absurd hlt (Nat.lt_asymm hgt)
        · exact hencloses

/-- A number is assigned to in each of two groups, and a semicolon is missing behind them. -/
theorem errors_in_order_iff_groups :
    let word kind : Token := ⟨kind, "?", .nil, 1⟩
    let tokens := [word .leftParen, word .number, word .equal, word .number, word .rightParen,
      word .plus, word .leftParen, word .number, word .equal, word .number, word .rightParen,
      Token.endMark 1]
    let blames := blamesTo nestingLimit tokens
    (∃ t ∈ tokens, t.kind = .eof) ∧
      blames = [⟨.invalidAssignmentTarget, 2⟩, ⟨.invalidAssignmentTarget, 8⟩,
        ⟨.expectToken .semicolonAfterExpression, 11⟩] ∧
      ∀ outer ∈ blames, ∀ inner ∈ blames, ¬outer.Encloses tokens inner := by
  intro word tokens blames
  have hmark : ∃ t ∈ tokens, t.kind = .eof := by decide
  have hblames : blames = [⟨.invalidAssignmentTarget, 2⟩, ⟨.invalidAssignmentTarget, 8⟩,
      ⟨.expectToken .semicolonAfterExpression, 11⟩] := by with_unfolding_all rfl
  refine ⟨hmark, hblames, (errors_in_order_iff nestingLimit hmark).2.2.1.mp ?_⟩
  change (blames.map Blame.position).Pairwise (· < ·)
  rw [hblames]
  decide

/-- Two numbers that are assigned to on two lines, one assignment in the value of the other: the error
on the second line is recorded first and is the one raised. -/
theorem errors_not_in_order :
    let word kind line : Token := ⟨kind, "=", .nil, line⟩
    let tokens := [word .number 1, word .equal 1, word .number 2, word .equal 2, word .number 3,
      word .semicolon 3, Token.endMark 3]
    (∃ t ∈ tokens, t.kind = .eof) ∧
      blamesTo nestingLimit tokens = [⟨.invalidAssignmentTarget, 3⟩, ⟨.invalidAssignmentTarget, 1⟩] ∧
      ¬((blamesTo nestingLimit tokens).map Blame.position).Pairwise (· < ·) ∧
      (ofTokensTo nestingLimit tokens).checked = .error ⟨2, .invalidAssignmentTarget, .at "="⟩ := by
  intro word tokens
  have hblames : blamesTo nestingLimit tokens =
      [⟨.invalidAssignmentTarget, 3⟩, ⟨.invalidAssignmentTarget, 1⟩] := by with_unfolding_all rfl
  refine ⟨by decide, hblames, ?_, by with_unfolding_all rfl⟩
  rw [hblames]
  decide

end LoxCore.Program
