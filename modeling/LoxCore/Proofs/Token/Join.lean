import LoxCore.Proofs.Node.Lines
import LoxCore.Proofs.Token.Line

/-!
Scanning texts that are joined by a line feed. Only a string can go on past a line feed, so unless a
string of the first text is never closed, each text is cut as if it stood alone, the second some lines
further down.
-/
namespace LoxCore.Piece

/-! The first piece of a text with a line feed behind it. -/

section First

variable {p : Char → Bool} {c : Char} (rest more : List Char)

/-- A run of a class without the line feed ends at the line feed at the latest. -/
theorem takeWhile_lineFeed (hp : p '\n' = false) :
    (rest ++ '\n' :: more).takeWhile p = rest.takeWhile p := by
  induction rest with
  | nil => simp [hp]
  | cons d rest ih => simp only [List.cons_append, List.takeWhile_cons, ih]

theorem dropWhile_lineFeed (hp : p '\n' = false) :
    (rest ++ '\n' :: more).dropWhile p = rest.dropWhile p ++ '\n' :: more := by
  induction rest with
  | nil => simp [hp]
  | cons d rest ih =>
    simp only [List.cons_append, List.dropWhile_cons, ih]
    split <;> rfl

theorem fraction_lineFeed : fraction (rest ++ '\n' :: more) = fraction rest := by
  have hdigits (rest : List Char) : (rest ++ '\n' :: more).takeWhile Char.isDigit =
      rest.takeWhile Char.isDigit := takeWhile_lineFeed rest more (by decide)
  match rest with
  | [] => rfl
  | [d] => by_cases hd : d = '.' <;> simp [fraction, hd]
  | d :: e :: rest =>
    by_cases hd : d = '.'
    · subst hd
      simp only [List.cons_append, fraction, hdigits]
    · simp [fraction, hd]

/-- A piece that is neither blank nor an open string does not change when a line feed follows the
text it is cut from. -/
theorem first_lineFeed (hblank : isBlank c = false) (hclosed : ∀ text, first c rest ≠ .unclosed text) :
    first c (rest ++ '\n' :: more) = first c rest := by
  by_cases hword : startsWord c = true
  · rw [first_of_startsWord hword, first_of_startsWord hword, takeWhile_lineFeed rest more rfl]
  by_cases hdigit : c.isDigit = true
  · rw [first_of_isDigit hdigit, first_of_isDigit hdigit, takeWhile_lineFeed rest more rfl,
      dropWhile_lineFeed rest more rfl, fraction_lineFeed]
  by_cases hquote : c = '"'
  · subst hquote
    by_cases hmem : '"' ∈ rest
    · obtain ⟨inner, after, rfl, hinner⟩ := List.eq_append_cons_of_mem hmem
      rw [List.append_assoc, List.cons_append, first_string hinner, first_string hinner]
    · exact absurd (first_unclosed hmem) (hclosed _)
  cases rest with
  | nil => simp [first, hblank, hword, hdigit, hquote]
  | cons d rest =>
    by_cases hcomment : c = '/' ∧ d = '/'
    · obtain ⟨rfl, rfl⟩ := hcomment
      rw [List.cons_append, first_comment, first_comment, takeWhile_lineFeed rest more rfl]
    · simp [first, hblank, hword, hdigit, hquote, hcomment]

end First

/-! What is found in the pieces of a text, apart from its blanks. -/

section Found

variable {α : Type} {f : Nat × Piece → Option α}

/-- A blank character at the front of a text only moves what is found after it. -/
theorem filterMap_split_cons_blank (hf : ∀ line text, f (line, .blank text) = none) {c : Char}
    (hc : isBlank c = true) (line : Nat) (rest : List Char) :
    (numbered line (split (c :: rest))).filterMap f =
      (numbered (line + [c].count '\n') (split rest)).filterMap f := by
  rw [split, first_of_isBlank hc, numbered, List.filterMap_cons_none (hf _ _)]
  cases rest with
  | nil => simp [text, split, numbered]
  | cons d rest =>
    by_cases hd : isBlank d = true
    · -- The run of blanks goes on, so it is the first piece of the rest as well.
      rw [split, first_of_isBlank hd, numbered, List.filterMap_cons_none (hf _ _)]
      have hline : line + [c].count '\n' + (d :: rest.takeWhile isBlank).count '\n' =
          line + (c :: d :: rest.takeWhile isBlank).count '\n' := by
        rw [Nat.add_assoc, ← List.count_append]
        rfl
      simp only [text, lineFeeds, List.takeWhile_cons, hd, if_true, hline]
      rfl
    · simp [text, lineFeeds, hd]

theorem filterMap_split_blanks (hf : ∀ line text, f (line, .blank text) = none) {run : List Char}
    (hrun : ∀ c ∈ run, isBlank c = true) (line : Nat) (rest : List Char) :
    (numbered line (split (run ++ rest))).filterMap f =
      (numbered (line + run.count '\n') (split rest)).filterMap f := by
  induction run generalizing line with
  | nil => rfl
  | cons c run ih =>
    obtain ⟨hc, hrun⟩ := List.forall_mem_cons.mp hrun
    have hline : line + [c].count '\n' + run.count '\n' = line + (c :: run).count '\n' := by
      rw [Nat.add_assoc, ← List.count_append]
      rfl
    rw [List.cons_append, filterMap_split_cons_blank hf hc, ih hrun, hline]

/-- Behind a text whose strings are all closed, and a line feed, a text is cut as if it stood alone. -/
theorem filterMap_split_join (hf : ∀ line text, f (line, .blank text) = none) {cs : List Char}
    (hclosed : ∀ p ∈ split cs, ∀ text, p ≠ .unclosed text) (line : Nat) (more : List Char) :
    (numbered line (split (cs ++ '\n' :: more))).filterMap f =
      (numbered line (split cs)).filterMap f ++
        (numbered (line + cs.count '\n' + 1) (split more)).filterMap f := by
  fun_induction split cs generalizing line with
  | case1 => exact filterMap_split_cons_blank hf rfl line more
  | case2 c rest ih =>
    obtain ⟨hfirst, hrest⟩ := List.forall_mem_cons.mp hclosed
    have happend := List.prefix_iff_eq_append.mp (first_isPrefix c rest)
    generalize hafter : (c :: rest).drop (first c rest).text.length = after at happend ih hrest
    have hcount : (c :: rest).count '\n' = (first c rest).lineFeeds + after.count '\n' := by
      rw [← happend, List.count_append, lineFeeds]
    have ih := ih hrest (line + (first c rest).lineFeeds)
    rw [numbered, hcount, ← Nat.add_assoc]
    by_cases hblank : isBlank c = true
    · -- A run of blanks at the end of the text may go on behind it.
      rw [first_of_isBlank hblank] at happend ih ⊢
      have hrun : ∀ d ∈ c :: rest.takeWhile isBlank, isBlank d = true :=
        List.forall_mem_cons.mpr ⟨hblank, fun d hd => List.mem_takeWhile_imp hd⟩
      rw [← happend, List.append_assoc, text, filterMap_split_blanks hf hrun,
        List.filterMap_cons_none (hf _ _)]
      exact ih
    · rw [Bool.not_eq_true] at hblank
      have hjoin := first_lineFeed rest more hblank hfirst
      rw [List.cons_append, split, hjoin, ← List.cons_append, ← happend, List.append_assoc,
        List.drop_left, numbered, List.filterMap_cons, List.filterMap_cons, ih]
      split <;> rfl

/-- Pieces further down. -/
theorem numbered_add (line more : Nat) (pieces : List Piece) : numbered (line + more) pieces =
    (numbered line pieces).map fun (line, p) => (line + more, p) := by
  induction pieces generalizing line with
  | nil => rfl
  | cons p pieces ih =>
    rw [numbered, Nat.add_right_comm, ih]
    rfl

end Found

theorem token?_add (line more : Nat) (p : Piece) :
    token? (line + more, p) = (token? (line, p)).map (Token.mapLine (· + more)) := by
  cases p <;> rfl

theorem diagnostic?_add (line more : Nat) (p : Piece) : diagnostic? (line + more, p) =
    (diagnostic? (line, p)).map fun d => { d with line := d.line + more } := by
  cases p <;> rfl

end LoxCore.Piece

namespace LoxCore.Scan

variable {source : String}

/-- A string is never closed only if that is reported. -/
theorem not_unclosed (h : ∀ d ∈ (ofSource source).errors, d.cause ≠ .unterminatedString) :
    ∀ p ∈ Piece.split source.toList, ∀ text, p ≠ .unclosed text := by
  rintro _ hp text rfl
  have hnumbered (line : Nat) (pieces : List Piece) (hmem : .unclosed text ∈ pieces) :
      ∃ line', (line', .unclosed text) ∈ Piece.numbered line pieces := by
    induction pieces generalizing line with
    | nil => cases hmem
    | cons q pieces ih =>
      rcases List.mem_cons.mp hmem with rfl | hmem
      · exact ⟨line, List.mem_cons_self⟩
      · obtain ⟨line', hline'⟩ := ih (line + q.lineFeeds) hmem
        exact ⟨line', List.mem_cons_of_mem _ hline'⟩
  obtain ⟨line, hline⟩ := hnumbered 1 _ hp
  exact h _ (List.mem_filterMap.mpr ⟨_, hline, rfl⟩) rfl

/-- What is found in a text behind another one and a line feed. -/
theorem filterMap_join {α : Type} {f : Nat × Piece → Option α} {move : α → α}
    (hf : ∀ line text, f (line, .blank text) = none)
    (hmove : ∀ line p, f (line + (ofSource source).endLine, p) = (f (line, p)).map move)
    (h : ∀ d ∈ (ofSource source).errors, d.cause ≠ .unterminatedString) (more : String) :
    (Piece.numbered 1 (Piece.split (source ++ "\n" ++ more).toList)).filterMap f =
      (Piece.numbered 1 (Piece.split source.toList)).filterMap f ++
        ((Piece.numbered 1 (Piece.split more.toList)).filterMap f).map move := by
  have htext : (source ++ "\n" ++ more).toList = source.toList ++ '\n' :: more.toList := by simp
  have hline : 1 + source.toList.count '\n' + 1 = 1 + (ofSource source).endLine := by
    rw [ofSource, Nat.add_comm _ 1]
  rw [htext, Piece.filterMap_split_join hf (not_unclosed h), hline, Piece.numbered_add,
    List.filterMap_map, List.map_filterMap]
  congr 2
  funext ⟨line, p⟩
  exact hmove line p

section Closed

variable (h : ∀ d ∈ (ofSource source).errors, d.cause ≠ .unterminatedString) (more : String)
include h

/-- The tokens of two texts with a line feed between them, if each string of the first is closed. -/
theorem body_join : (ofSource (source ++ "\n" ++ more)).body = (ofSource source).body ++
    (ofSource more).body.map (Token.mapLine (· + (ofSource source).endLine)) :=
  filterMap_join (fun _ _ => rfl) (fun line p => Piece.token?_add line _ p) h more

/-- The diagnostics of two texts with a line feed between them, if each string of the first is
closed. -/
theorem errors_join : (ofSource (source ++ "\n" ++ more)).errors = (ofSource source).errors ++
    (ofSource more).errors.map fun d => { d with line := d.line + (ofSource source).endLine } :=
  filterMap_join (fun _ _ => rfl) (fun line p => Piece.diagnostic?_add line _ p) h more

end Closed

/-- Scanning respects line breaks: of two texts with a line feed between them, it finds the tokens of
the first without its end mark and then those of the second, and the errors of both, if each string of
the first is closed. What is found in the second stands as many lines further down as the first text
and the line feed take up. -/
theorem ofSource_join (h : ∀ d ∈ (ofSource source).errors, d.cause ≠ .unterminatedString)
    (more : String) :
    let lines : Int := source.toList.count '\n' + 1
    let whole := ofSource (source ++ "\n" ++ more)
    whole.tokens = (ofSource source).tokens.dropLast ++
        (ofSource more).tokens.map (Token.mapLine (· + lines)) ∧
      whole.errors = (ofSource source).errors ++
        (ofSource more).errors.map fun d => { d with line := d.line + lines } := by
  intro lines whole
  have hlines : ((ofSource source).endLine : Int) = lines := by
    simp only [ofSource, lines]
    omega
  have hend : (whole.endLine : Int) = (ofSource more).endLine + lines := by
    have hbreak : "\n".toList.count '\n' = 1 := rfl
    simp only [whole, lines, ofSource, String.toList_append, List.count_append, hbreak]
    omega
  have hmark : Token.endMark whole.endLine =
      Token.mapLine (· + lines) (Token.endMark (ofSource more).endLine) := by
    rw [hend]
    rfl
  refine ⟨?_, ?_⟩
  · rw [tokens, tokens, tokens, List.dropLast_concat, List.map_append, List.map_singleton, ← hmark,
      ← hlines, ← List.append_assoc]
    exact congrArg (· ++ _) (body_join h more)
  · rw [← hlines]
    exact errors_join h more

/-- A text with characters that nothing starts with, before and behind a line feed, and one with a
string that is never closed. -/
theorem ofSource_join_stray :
    let source := "a @\n? \"\n\""
    let more := "#\n\"b"
    let whole := ofSource (source ++ "\n" ++ more)
    (∀ d ∈ (ofSource source).errors, d.cause ≠ .unterminatedString) ∧
      whole.tokens.map Token.line = [1, 2, 5] ∧
      whole.errors = [.onLine 1 .unexpectedCharacter, .onLine 2 .unexpectedCharacter,
        .onLine 4 .unexpectedCharacter, .onLine 5 .unterminatedString] := by
  intro source more whole
  have hclosed : ∀ d ∈ (ofSource source).errors, d.cause ≠ .unterminatedString := by decide +kernel
  obtain ⟨htokens, herrors⟩ := ofSource_join hclosed more
  refine ⟨hclosed, ?_, ?_⟩
  · rw [htokens]
    decide +kernel
  · rw [herrors]
    decide +kernel

end LoxCore.Scan
