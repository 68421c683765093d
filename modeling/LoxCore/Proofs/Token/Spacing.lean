import LoxCore.Proofs.Token.Cut
import LoxCore.Proofs.Token.Join

/-!
Scanning takes apart what was put together from tokens. A gap of blanks and comments keeps two tokens
apart, whatever they are and whatever its comments say.
-/
namespace LoxCore

open Token (Kind)

/-- The word is spelled like the tokens of a kind. A reserved word is not an identifier. -/
structure Token.Kind.Spells (kind : Kind) (word : String) : Prop where
  spelled : (Terminal.ofKind kind).Matches word.toList
  identifier : kind = .identifier → ∀ keyword ∈ Kind.keywords, keyword.spelling? ≠ some word

/-- Blanks and comments, each comment with the line feed that ends it. -/
inductive Gap : List Char → Prop where
  | nil : Gap []
  | blank {c : Char} {rest : List Char} (hblank : Piece.isBlank c = true) (h : Gap rest) :
      Gap (c :: rest)
  | comment (run : List Char) {rest : List Char} (hrun : '\n' ∉ run) (h : Gap rest) :
      Gap ('/' :: '/' :: (run ++ '\n' :: rest))

/-- A gap that can stand behind any token: with a slash before it, a comment would start early. -/
structure Separates (gap : List Char) : Prop where
  isGap : Gap gap
  head : ∃ c ∈ gap.head?, Piece.isBlank c = true

/-- A text of some words, each of a kind, with gaps between neighbours. -/
inductive Spaced : List (Kind × String) → List Char → Prop where
  | nil : Spaced [] []
  | single (word : Kind × String) : Spaced [word] word.2.toList
  | cons {word next : Kind × String} {more : List (Kind × String)} {gap text : List Char}
      (hgap : Separates gap) (h : Spaced (next :: more) text) :
      Spaced (word :: next :: more) (word.2.toList ++ gap ++ text)

/-- What is spelled like a word is a reserved word or an identifier. -/
theorem Terminal.Matches.kind_of_word {kind : Kind} {text : List Char}
    (h : (ofKind kind).Matches text) (hword : identifier.Matches text) :
    kind ∈ Kind.keywords ∨ kind = .identifier := by
  obtain ⟨c, run, rfl, hstart, -⟩ := hword
  have hfixed (h : (fixed kind).Matches (c :: run)) : kind ∈ Kind.keywords := by
    rcases h.fixed_cases with ⟨hkeyword, -⟩ | ⟨d, heq, hmark⟩ | ⟨d, shorter, heq, hmark, -⟩
    · exact hkeyword
    all_goals
      obtain ⟨rfl, -⟩ := List.cons.inj heq
      simp [(Piece.classes_of_mark hmark).2.1] at hstart
  cases kind with
  | identifier => exact .inr rfl
  | string =>
    obtain ⟨inner, heq, -⟩ := h
    obtain ⟨rfl, -⟩ := List.cons.inj heq
    cases hstart
  | number =>
    obtain ⟨whole, hne, hwhole, hother⟩ := h
    obtain ⟨d, digits, rfl⟩ := List.exists_cons_of_ne_nil hne
    have hd : c = d := by
      rcases hother with hother | ⟨digits, -, -, hother⟩ <;> exact (List.cons.inj hother).1
    simp [Piece.not_startsWord_of_isDigit (hwhole c (by simp [hd]))] at hstart
  | _ => exact .inl (hfixed h)

/-- A word that is spelled like the tokens of a kind is one that scanning can give. -/
theorem Token.Kind.Spells.isCut {kind : Kind} {word : String} (h : kind.Spells word) (line : Int) :
    Token.IsCut ⟨kind, word, Piece.literal kind word.toList, line⟩ := by
  refine ⟨h.spelled, fun keyword hkeyword => ⟨?_, fun hspelling => ?_⟩, rfl⟩
  · rintro rfl
    have hspelled := h.spelled
    rw [Terminal.ofKind_of_keyword hkeyword] at hspelled
    simpa [Terminal.Matches] using hspelled
  · have hword : Terminal.identifier.Matches word.toList :=
      Piece.identifier_of_keyword hkeyword (by simpa using hspelling)
    rcases h.spelled.kind_of_word hword with hkind | hkind
    · have hspelled := h.spelled
      rw [Terminal.ofKind_of_keyword hkind] at hspelled
      have hsame : kind.spelling? = some word := by simpa [Terminal.Matches] using hspelled
      exact Piece.keyword_eq_of_spelling? _ hkind _ hkeyword (hsame.trans hspelling.symm)
    · exact absurd hspelling (h.identifier hkind keyword hkeyword)

theorem Separates.apart {gap : List Char} (h : Separates gap) (rest : List Char) :
    Apart (gap ++ rest) := by
  obtain ⟨c, hhead, hblank⟩ := h.head
  obtain ⟨more, rfl⟩ := List.head?_eq_some_iff.mp hhead
  rintro _ ⟨⟩
  simp only [Piece.isBlank, Bool.or_eq_true, decide_eq_true_eq] at hblank
  rcases hblank with ((rfl | rfl) | rfl) | rfl <;> simp [Piece.continuesWord, Piece.startsWord]

namespace Piece

/-- A word is the first piece of a text if what follows does not go on with it. -/
theorem split_word {kind : Kind} {word : String} (h : kind.Spells word) {rest : List Char}
    (hrest : Apart rest) :
    split (word.toList ++ rest) = .token kind word.toList :: split rest := by
  obtain ⟨c, spelling, hword⟩ := List.exists_cons_of_ne_nil h.spelled.ne_nil
  rw [hword, List.cons_append, split, (h.isCut 1).first hword hrest]
  simp [text]

section Found

variable {α : Type} {f : Nat × Piece → Option α}

/-- A gap at the front of a text only moves what is found after it. -/
theorem filterMap_split_gap (hblank : ∀ line text, f (line, .blank text) = none)
    (hcomment : ∀ line text, f (line, .comment text) = none) {gap : List Char} (h : Gap gap)
    (line : Nat) (rest : List Char) :
    (numbered line (split (gap ++ rest))).filterMap f =
      (numbered (line + gap.count '\n') (split rest)).filterMap f := by
  induction h generalizing line with
  | nil => rfl
  | @blank c more hc _ ih =>
    have hline : line + [c].count '\n' + more.count '\n' = line + (c :: more).count '\n' := by
      rw [Nat.add_assoc, ← List.count_append]
      rfl
    rw [List.cons_append, filterMap_split_cons_blank hblank hc, ih, hline]
  | @comment run more hrun _ ih =>
    have hline : ∀ c ∈ run, decide (c ≠ '\n') = true := by
      intro c hc
      simp only [decide_eq_true_eq]
      rintro rfl
      exact hrun hc
    have htake : (run ++ '\n' :: (more ++ rest)).takeWhile (· ≠ '\n') = run :=
      (takeWhile_append_of_head hline (by simp)).1
    have hsplit : split ('/' :: '/' :: (run ++ '\n' :: (more ++ rest))) =
        .comment ('/' :: '/' :: run) :: split ('\n' :: (more ++ rest)) := by
      rw [split, first_comment, htake]
      simp [text]
    have hfeeds : ('/' :: '/' :: run).count '\n' = 0 := by simpa [List.count_eq_zero] using hrun
    have hcount : ('/' :: '/' :: (run ++ '\n' :: more)).count '\n' = 1 + more.count '\n' := by
      simp [List.count_eq_zero.mpr hrun, Nat.add_comm]
    rw [List.cons_append, List.cons_append, List.append_assoc, List.cons_append, hsplit, numbered,
      List.filterMap_cons_none (hcomment _ _), lineFeeds, text, hfeeds, Nat.add_zero,
      filterMap_split_cons_blank hblank rfl, ih, hcount, Nat.add_assoc]
    rfl

/-- A word at the front of a text is found first. -/
theorem filterMap_split_word {kind : Kind} {word : String} (h : kind.Spells word) (line : Nat)
    {rest : List Char} (hrest : Apart rest) :
    (numbered line (split (word.toList ++ rest))).filterMap f =
      (f (line, .token kind word.toList)).toList ++
        (numbered (line + word.toList.count '\n') (split rest)).filterMap f := by
  rw [split_word h hrest, numbered, List.filterMap_cons]
  cases f (line, .token kind word.toList) <;> rfl

end Found

/-- The tokens of a spaced text are its words, and nothing else is found in it. -/
theorem tokens_of_spaced {words : List (Kind × String)} {cs : List Char} (h : Spaced words cs)
    (hwords : ∀ w ∈ words, w.1.Spells w.2) (line : Nat) :
    ((numbered line (split cs)).filterMap token?).map (fun t => (t.kind, t.lexeme)) = words ∧
      (numbered line (split cs)).filterMap diagnostic? = [] := by
  induction h generalizing line with
  | nil => simp [split, numbered]
  | single word =>
    have hword := hwords word (by simp)
    have hend : Apart [] := by simp [Apart]
    rw [← List.append_nil word.2.toList, filterMap_split_word hword line hend,
      filterMap_split_word hword line hend]
    simp [split, numbered, token?, diagnostic?]
  | @cons word next more gap rest hgap _ ih =>
    obtain ⟨hword, hmore⟩ := List.forall_mem_cons.mp hwords
    obtain ⟨htokens, hdiagnostics⟩ := ih hmore (line + word.2.toList.count '\n' + gap.count '\n')
    have hapart := hgap.apart rest
    rw [List.append_assoc, filterMap_split_word hword line hapart,
      filterMap_split_word hword line hapart,
      filterMap_split_gap (fun _ _ => rfl) (fun _ _ => rfl) hgap.isGap,
      filterMap_split_gap (fun _ _ => rfl) (fun _ _ => rfl) hgap.isGap, List.map_append, htokens,
      hdiagnostics]
    simp [token?, diagnostic?]

end Piece

namespace Scan

/-- Whatever a token of a source text is, it denotes what its text says. -/
theorem carries_of_mem_tokens {source : String} {t : Token} (h : t ∈ (ofSource source).tokens) :
    t.Carries := by
  rcases List.mem_append.mp h with hbody | hmark
  · have hcut := isCut_of_mem_body hbody
    have hcarries := (Piece.carries_of_matches t.line hcut.spelled).2
    rwa [String.ofList_toList, ← hcut.literal] at hcarries
  · obtain rfl := List.mem_singleton.mp hmark
    rfl

/-- Scanning undoes the writing of tokens. A text is made of any words, each spelled like the tokens
of its kind, and of any gaps between them: runs of blanks and of comments up to the end of a line, that
start with a blank. Scanning it finds these words, of these kinds and in this order, and then the end
mark, and nothing is wrong. Each number denotes the number nearest to its decimal, each string the text
between its quotes. -/
theorem ofSource_spaced {words : List (Kind × String)} {source : String}
    (hwords : ∀ w ∈ words, w.1.Spells w.2) (h : Spaced words source.toList) :
    (ofSource source).errors = [] ∧
      (ofSource source).tokens.map (fun t => (t.kind, t.lexeme)) = words ++ [(.eof, "")] ∧
      ∀ t ∈ (ofSource source).tokens, t.Carries := by
  obtain ⟨htokens, hdiagnostics⟩ := Piece.tokens_of_spaced h hwords 1
  refine ⟨hdiagnostics, ?_, fun t => carries_of_mem_tokens⟩
  rw [tokens, List.map_append]
  exact congrArg (· ++ _) htokens

/-- Neighbours that would be cut otherwise without the gap between them, a word that a reserved word
starts, a quote in a comment, and slashes in a string that goes on to the next line. -/
theorem ofSource_spaced_comments :
    let words : List (Kind × String) :=
      [(.slash, "/"), (.identifier, "orchid"), (.number, "1"), (.dot, "."), (.string, "\"//\n\"")]
    let source := "/ // \"\n//\n orchid\t1 .\r\"//\n\""
    (∀ w ∈ words, w.1.Spells w.2) ∧ Spaced words source.toList ∧
      (ofSource source).errors = [] ∧
      (ofSource source).tokens.map (fun t => (t.kind, t.lexeme)) = words ++ [(.eof, "")] ∧
      ∀ t ∈ (ofSource source).tokens, t.Carries := by
  intro words source
  have hwords : ∀ w ∈ words, w.1.Spells w.2 := by
    simp only [words, List.forall_mem_cons]
    have hrun : ∀ c ∈ "rchid".toList, Piece.continuesWord c := List.all_eq_true.mp (by decide)
    exact ⟨⟨rfl, nofun⟩, ⟨⟨'o', "rchid".toList, rfl, rfl, hrun⟩, fun _ => by decide⟩,
      ⟨⟨['1'], by simp, by simp, .inl rfl⟩, nofun⟩, ⟨rfl, nofun⟩,
      ⟨⟨"//\n".toList, rfl, by decide⟩, nofun⟩, nofun⟩
  have hblank {c : Char} {more : List Char} (hc : Piece.isBlank c = true) (h : Gap more) :
      Separates (c :: more) := ⟨.blank hc h, c, rfl, hc⟩
  have hcomments : Separates " // \"\n//\n ".toList :=
    hblank rfl (.comment " \"".toList (by decide) (.comment [] (by simp) (.blank rfl .nil)))
  have htext : source.toList = "/".toList ++ " // \"\n//\n ".toList ++ ("orchid".toList ++ ['\t'] ++
      ("1".toList ++ [' '] ++ (".".toList ++ ['\r'] ++ "\"//\n\"".toList))) := by simp [source]
  have hspaced : Spaced words source.toList := by
    rw [htext]
    exact .cons hcomments (.cons (hblank rfl .nil) (.cons (hblank rfl .nil)
      (.cons (hblank rfl .nil) (.single (.string, "\"//\n\"")))))
  exact ⟨hwords, hspaced, ofSource_spaced hwords hspaced⟩

end Scan

end LoxCore
