import LoxCore.Proofs.Token.Account

/-!
Lines of source text. A token stands on the line that the text before it ends on.
-/
namespace LoxCore

namespace Piece

/-- A located piece stands where the text before it ends. -/
theorem isPrefix_of_mem_located {before start : List Char} {p : Piece} {pieces : List Piece}
    (h : (start, p) ∈ located before pieces) : start ++ p.text <+: before ++ pieces.flatMap text := by
  induction pieces generalizing before with
  | nil => cases h
  | cons q more ih =>
    rw [List.flatMap_cons, ← List.append_assoc]
    rcases List.mem_cons.mp h with heq | hmem
    · obtain ⟨rfl, rfl⟩ := Prod.mk.inj heq
      exact List.prefix_append _ _
    · exact ih hmem

theorem lineAfter_le_of_isPrefix {before after : List Char} (h : before <+: after) :
    lineAfter before ≤ lineAfter after :=
  Nat.add_le_add_left (h.sublist.count_le '\n') 1

end Piece

namespace Scan

variable {source : String} {t : Token}

/-- The line of a token is that of some place in the text. -/
theorem exists_line_of_mem_body (h : t ∈ (ofSource source).body) :
    ∃ before, before <+: source.toList ∧ t.line = Piece.lineAfter before := by
  rw [body_eq] at h
  obtain ⟨⟨before, p⟩, hmem, hp⟩ := List.mem_filterMap.mp h
  have hprefix := Piece.isPrefix_of_mem_located hmem
  rw [List.nil_append, Piece.flatMap_text_split] at hprefix
  refine ⟨before, (List.prefix_append _ _).trans hprefix, ?_⟩
  cases p with
  | token kind text =>
    obtain rfl := Option.some.inj hp
    rfl
  | _ => cases hp

/-- Tokens stand on the lines from the first to that of the end mark. -/
theorem line_bounds (h : t ∈ (ofSource source).tokens) :
    1 ≤ t.line ∧ t.line ≤ (ofSource source).endLine := by
  have hbounds {before : List Char} (hbefore : before <+: source.toList) :
      1 ≤ (Piece.lineAfter before : Int) ∧
        (Piece.lineAfter before : Int) ≤ (ofSource source).endLine :=
    ⟨Int.ofNat_le.mpr (Nat.le_add_right 1 _),
      Int.ofNat_le.mpr (Piece.lineAfter_le_of_isPrefix hbefore)⟩
  rcases List.mem_append.mp h with hbody | hmark
  · obtain ⟨before, hbefore, hline⟩ := exists_line_of_mem_body hbody
    rw [hline]
    exact hbounds hbefore
  · obtain rfl := List.mem_singleton.mp hmark
    exact hbounds List.prefix_rfl

end Scan

end LoxCore
