import LoxCore.Proofs.Token.Join

/-!
Scanning slice by slice. A slice is matched up to the first character with which nothing can start, and
its lines are counted from one. Scanning starts again behind that character, unless it is a quote, and
the lines before it are counted in the text itself. All lines are those of the whole text nevertheless.
-/
namespace LoxCore

namespace Piece

/-- Whether something is matched by the piece. -/
def isMatched : Piece → Bool
  | stray _ | unclosed _ => false
  | _ => true

def isToken : Piece → Bool
  | token .. => true
  | _ => false

/-- What is matched at the front of a text. -/
def matched (cs : List Char) : List Piece :=
  (split cs).takeWhile isMatched

end Piece

/-- Scan a text that starts on a line, slice by slice. -/
def Scan.restarting (line : Nat) (cs : List Char) : Scan :=
  let position := ((Piece.matched cs).flatMap Piece.text).length
  let body := (Piece.numbered 1 (Piece.matched cs)).filterMap Piece.token?
    |>.map (Token.mapLine fun inSlice => line + inSlice - 1)
  let stop := line + (cs.take position).count '\n'
  match _left : cs.drop position with
  | [] => ⟨body, [], line + cs.count '\n'⟩
  | c :: rest =>
    if c = '"' then
      ⟨body, [.onLine stop .unterminatedString], stop + (cs.drop position).count '\n'⟩
    else
      let more := restarting stop rest
      ⟨body ++ more.body, .onLine stop .unexpectedCharacter :: more.errors, more.endLine⟩
termination_by cs.length
decreasing_by
  have := congrArg List.length _left
  simp only [List.length_drop, List.length_cons] at this
  omega

namespace Piece

variable {c : Char} {rest : List Char}

theorem numbered_append (line : Nat) (front after : List Piece) : numbered line (front ++ after) =
    numbered line front ++ numbered (line + (front.flatMap text).count '\n') after := by
  induction front generalizing line with
  | nil => rfl
  | cons p front ih =>
    rw [List.cons_append, numbered, ih, List.flatMap_cons, List.count_append, ← Nat.add_assoc]
    rfl

/-- What follows some pieces of a text is cut as it would be alone. -/
theorem split_drop {cs : List Char} {front after : List Piece} (h : split cs = front ++ after) :
    split (cs.drop (front.flatMap text).length) = after := by
  induction front generalizing cs with
  | nil => exact h
  | cons p front ih =>
    cases cs with
    | nil =>
      rw [split] at h
      cases h
    | cons c rest =>
      rw [split] at h
      obtain ⟨rfl, hfront⟩ := List.cons.inj h
      rw [List.flatMap_cons, List.length_append, ← List.drop_drop, ih hfront]

theorem pairwise_located (before : List Char) (pieces : List Piece) :
    (located before pieces).Pairwise fun first second => first.1 <+: second.1 := by
  have hbefore (before : List Char) (pieces : List Piece) :
      ∀ place ∈ located before pieces, before <+: place.1 := by
    induction pieces generalizing before with
    | nil => exact nofun
    | cons p pieces ih =>
      refine List.forall_mem_cons.mpr ⟨List.prefix_rfl, fun place hplace => ?_⟩
      exact (List.prefix_append before p.text).trans (ih _ place hplace)
  induction pieces generalizing before with
  | nil => exact .nil
  | cons p pieces ih =>
    refine List.pairwise_cons.mpr ⟨fun place hplace => ?_, ih _⟩
    exact (List.prefix_append before p.text).trans (hbefore _ pieces place hplace)

theorem first_quote_isMatched_or (rest : List Char) :
    first '"' rest = unclosed ('"' :: rest) ∨ (first '"' rest).isMatched = true := by
  by_cases h : '"' ∈ rest
  · obtain ⟨inner, after, rfl, hinner⟩ := List.eq_append_cons_of_mem h
    rw [first_string hinner]
    exact .inr rfl
  · exact .inl (first_unclosed h)

/-- A piece that is not matched is a string never closed, if it starts with a quote, or the one
character at the front of the text. -/
theorem first_of_not_isMatched (h : (first c rest).isMatched = false) :
    if c = '"' then first c rest = unclosed (c :: rest) else first c rest = stray c := by
  have hfits := fits_first c rest
  have hprefix := first_isPrefix c rest
  split
  · rename_i hquote
    subst hquote
    exact (first_quote_isMatched_or rest).resolve_right (by simp [h])
  · rename_i hquote
    cases hfirst : first c rest with
    | stray d =>
      rw [hfirst] at hprefix
      obtain ⟨rfl, -⟩ := List.cons_prefix_cons.mp hprefix
      rfl
    | unclosed opened =>
      rw [hfirst] at hprefix hfits
      obtain ⟨inner, rfl, -⟩ := hfits
      exact absurd (List.cons_prefix_cons.mp hprefix).1.symm hquote
    | _ =>
      rw [hfirst] at h
      cases h

theorem diagnostics_of_isMatched {pieces : List Piece} (h : ∀ p ∈ pieces, p.isMatched = true)
    (line : Nat) : (numbered line pieces).filterMap diagnostic? = [] := by
  induction pieces generalizing line with
  | nil => rfl
  | cons p pieces ih =>
    obtain ⟨hp, hpieces⟩ := List.forall_mem_cons.mp h
    rw [numbered, List.filterMap_cons, ih hpieces]
    cases p <;> first | rfl | cases hp

/-- The lines of a slice, counted from one, and those of the text. -/
theorem tokens_mapLine (line : Nat) (pieces : List Piece) :
    ((numbered 1 pieces).filterMap token?).map
        (Token.mapLine fun inSlice => line + inSlice - 1) =
      (numbered line pieces).filterMap token? := by
  have hmove (more : Nat) : (numbered more pieces).filterMap token? =
      ((numbered 0 pieces).filterMap token?).map (Token.mapLine (· + more)) := by
    rw [← Nat.zero_add more, numbered_add, List.filterMap_map, List.map_filterMap]
    congr 1
    funext ⟨line, p⟩
    rw [Nat.zero_add]
    exact token?_add line more p
  rw [hmove 1, hmove line, List.map_map]
  congr 1
  funext t
  simp only [Function.comp_apply, Token.mapLine]
  congr 1
  omega

end Piece

namespace Scan

open Piece

/-- What is matched at the front of a text, and the pieces of what is left, which does not start with
anything that is matched. -/
theorem numbered_split (line : Nat) (cs : List Char) :
    let position := ((matched cs).flatMap text).length
    numbered line (split cs) = numbered line (matched cs) ++
        numbered (line + (cs.take position).count '\n') (split (cs.drop position)) ∧
      ∀ c rest, cs.drop position = c :: rest → (first c rest).isMatched = false := by
  intro position
  have hsplit : split cs = matched cs ++ (split cs).dropWhile isMatched :=
    List.takeWhile_append_dropWhile.symm
  have hafter : split (cs.drop position) = (split cs).dropWhile isMatched := split_drop hsplit
  have htake : cs.take position = (matched cs).flatMap text := by
    have htext := flatMap_text_split cs
    rw [hsplit, List.flatMap_append] at htext
    exact (congrArg (List.take position) htext).symm.trans List.take_left
  refine ⟨?_, fun c rest hdrop => ?_⟩
  · rw [htake, hafter, ← numbered_append, ← hsplit]
  · have hhead := List.head?_dropWhile_not isMatched (split cs)
    rw [← hafter, hdrop, split] at hhead
    simpa using hhead

/-- Scanning slice by slice finds what is in the pieces of the text, on their lines. -/
theorem restarting_eq (line : Nat) (cs : List Char) : restarting line cs =
    ⟨(numbered line (split cs)).filterMap token?, (numbered line (split cs)).filterMap diagnostic?,
      line + cs.count '\n'⟩ := by
  have hmatched (line : Nat) (cs : List Char) :
      (numbered line (matched cs)).filterMap diagnostic? = [] :=
    diagnostics_of_isMatched (fun p hp => List.all_eq_true.mp List.all_takeWhile p hp) line
  have hcount (position : Nat) (cs : List Char) :
      (cs.take position).count '\n' + (cs.drop position).count '\n' = cs.count '\n' := by
    rw [← List.count_append, List.take_append_drop]
  fun_induction restarting line cs with
  | case1 line cs position body hdrop =>
    obtain ⟨hsplit, -⟩ := numbered_split line cs
    rw [hdrop, split, numbered, List.append_nil] at hsplit
    rw [hsplit, hmatched, ← tokens_mapLine]
  | case2 line cs position body stop rest hdrop =>
    obtain ⟨hsplit, hfirst⟩ := numbered_split line cs
    have hunclosed := first_of_not_isMatched (hfirst _ _ hdrop)
    rw [if_pos rfl] at hunclosed
    have hpieces : split ('"' :: rest) = [unclosed ('"' :: rest)] := by
      rw [split, hunclosed, text, List.drop_length, split]
    rw [hdrop, hpieces] at hsplit
    rw [hsplit, List.filterMap_append, List.filterMap_append, hmatched, ← tokens_mapLine,
      ← hcount position cs, ← Nat.add_assoc]
    simp [numbered, token?, diagnostic?, body, stop, position]
  | case3 line cs position body stop c rest hdrop hquote more ih =>
    obtain ⟨hsplit, hfirst⟩ := numbered_split line cs
    have hstray := first_of_not_isMatched (hfirst _ _ hdrop)
    rw [if_neg hquote] at hstray
    have hpieces : split (c :: rest) = stray c :: split rest := by
      rw [split, hstray]
      rfl
    have hlineFeed : c ≠ '\n' := by
      rintro rfl
      rw [first_of_isBlank rfl] at hstray
      cases hstray
    have hnumbered : numbered stop (stray c :: split rest) =
        (stop, stray c) :: numbered stop (split rest) := by
      simp [numbered, lineFeeds, text, hlineFeed]
    have htokens : (numbered stop (stray c :: split rest)).filterMap token? = more.body := by
      rw [hnumbered, show more = _ from ih]
      rfl
    have herrors : (numbered stop (stray c :: split rest)).filterMap diagnostic? =
        .onLine stop .unexpectedCharacter :: more.errors := by
      rw [hnumbered, show more = _ from ih]
      rfl
    have hend : more.endLine = line + cs.count '\n' := by
      rw [show more = _ from ih, ← hcount position cs, ← Nat.add_assoc, hdrop,
        List.count_cons_of_ne hlineFeed]
    rw [hdrop, hpieces] at hsplit
    rw [hsplit, List.filterMap_append, List.filterMap_append, hmatched, ← tokens_mapLine, htokens,
      herrors, hend]
    rfl

theorem errors_eq (source : String) : (ofSource source).errors =
    (located [] (split source.toList)).filterMap
      fun (before, p) => diagnostic? (lineAfter before, p) := by
  change (numbered (lineAfter []) _).filterMap diagnostic? = _
  rw [numbered_eq_located, List.filterMap_map]
  rfl

/-- What is found in the pieces of a text stands on lines that never go back. -/
theorem pairwise_line {α : Type} {f : Nat × Piece → Option α} {line : α → Int}
    (hline : ∀ n p a, f (n, p) = some a → line a = n) (before : List Char) (pieces : List Piece) :
    (((located before pieces).filterMap fun (start, p) => f (lineAfter start, p)).map line).Pairwise
      (· ≤ ·) := by
  rw [List.pairwise_map, List.pairwise_filterMap]
  refine (pairwise_located before pieces).imp fun {first second} hprefix a ha b hb => ?_
  rw [hline _ _ a ha, hline _ _ b hb]
  exact Int.ofNat_le.mpr (lineAfter_le_of_isPrefix hprefix)

theorem line_token? (n : Nat) (p : Piece) (t : Token) (h : token? (n, p) = some t) : t.line = n := by
  cases p <;> cases h
  rfl

theorem line_diagnostic? (n : Nat) (p : Piece) (d : Diagnostic) (h : diagnostic? (n, p) = some d) :
    d.line = n := by
  cases p <;> cases h <;> rfl

/-- What is found in some of the places. -/
theorem forall₂_filter_filterMap {α β : Type} {f : α → Option β} {p : α → Bool} {R : α → β → Prop}
    (places : List α) (hsome : ∀ a ∈ places, p a = true → ∃ b, f a = some b ∧ R a b)
    (hnone : ∀ a, p a = false → f a = none) :
    List.Forall₂ R (places.filter p) (places.filterMap f) := by
  induction places with
  | nil => exact .nil
  | cons a places ih =>
    obtain ⟨ha, hplaces⟩ := List.forall_mem_cons.mp hsome
    cases hp : p a with
    | true =>
      obtain ⟨b, hb, hR⟩ := ha hp
      rw [List.filter_cons_of_pos hp, List.filterMap_cons_some hb]
      exact .cons hR (ih hplaces)
    | false =>
      rw [List.filter_cons_of_neg (by simp [hp]), List.filterMap_cons_none (hnone a hp)]
      exact ih hplaces

/-- The pieces of a source text, each with the text before it. -/
def places (source : String) : List (List Char × Piece) :=
  located [] (split source.toList)

/-- A token stands on the line of the place where its text starts, an error on that of its character
or opening quote, and the end mark on the last line. So the lines of the tokens never go back, nor do
those of the errors. Scanning slice by slice, with each slice counted from one, finds the same. -/
theorem lines_exact (source : String) :
    (∀ place ∈ places source, place.1 ++ place.2.text <+: source.toList) ∧
    List.Forall₂
      (fun place (t : Token) =>
        place.2 = .token t.kind t.lexeme.toList ∧ t.line = lineAfter place.1)
      ((places source).filter fun place => place.2.isToken) (ofSource source).body ∧
    List.Forall₂
      (fun place d =>
        (∃ c, place.2 = .stray c ∧ d = .onLine (lineAfter place.1) .unexpectedCharacter) ∨
        ∃ rest, place.2 = .unclosed ('"' :: rest) ∧
          d = .onLine (lineAfter place.1) .unterminatedString)
      ((places source).filter fun place => !place.2.isMatched) (ofSource source).errors ∧
    (ofSource source).tokens =
      (ofSource source).body ++ [Token.endMark (lineAfter source.toList)] ∧
    ((ofSource source).tokens.map Token.line).Pairwise (· ≤ ·) ∧
    ((ofSource source).errors.map Diagnostic.line).Pairwise (· ≤ ·) ∧
    restarting 1 source.toList = ofSource source := by
  have hplaces : ∀ place ∈ places source, place.1 ++ place.2.text <+: source.toList := by
    intro place hplace
    have hprefix := isPrefix_of_mem_located hplace
    rwa [List.nil_append, flatMap_text_split] at hprefix
  refine ⟨hplaces, ?_, ?_, rfl, ?_, ?_, restarting_eq 1 source.toList⟩
  · rw [body_eq]
    refine forall₂_filter_filterMap (places source) ?_ ?_
    · rintro ⟨before, p⟩ - hp
      cases p with
      | token kind text => exact ⟨_, rfl, by simp, rfl⟩
      | _ => cases hp
    · rintro ⟨before, p⟩ hp
      cases p <;> first | rfl | cases hp
  · rw [errors_eq]
    refine forall₂_filter_filterMap (places source) ?_ ?_
    · rintro ⟨before, p⟩ hplace hp
      cases p with
      | stray c => exact ⟨_, rfl, .inl ⟨c, rfl, rfl⟩⟩
      | unclosed opened =>
        obtain ⟨after, rest, rfl, -⟩ := exists_fits_of_mem (mem_of_mem_located hplace)
        exact ⟨_, rfl, .inr ⟨rest, rfl, rfl⟩⟩
      | _ => cases hp
    · rintro ⟨before, p⟩ hp
      cases p <;> first | rfl | cases hp
  · rw [tokens, List.map_append, List.pairwise_append]
    refine ⟨?_, List.pairwise_singleton _ _, ?_⟩
    · rw [body_eq]
      exact pairwise_line line_token? [] _
    · rintro _ htoken _ hmark
      obtain ⟨t, ht, rfl⟩ := List.mem_map.mp htoken
      obtain rfl := List.mem_singleton.mp hmark
      exact (line_bounds (List.mem_append_left _ ht)).2
  · rw [errors_eq]
    exact pairwise_line line_diagnostic? [] _

end Scan

end LoxCore
