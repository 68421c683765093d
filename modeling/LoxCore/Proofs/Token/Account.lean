import LoxCore.Proofs.Token.Terminal

/-!
Scanning accounts for every character of a source text exactly once: the text is cut into tokens,
runs of blanks, comments, characters that nothing starts with, and at most one string that is never
closed.
-/
namespace LoxCore

open Token (Kind)

/-- Some token, comment or run of blanks starts with the character. -/
def Terminal.CanStart (c : Char) : Prop :=
  ∃ terminal : Terminal, ∃ rest, terminal.Matches (c :: rest)

namespace Piece

/-- A piece is what it claims to be when `after` is the text that follows it. -/
def Fits : Piece → List Char → Prop
  | blank text, after => Terminal.blank.Matches text ∧ LongestMatch text (text ++ after)
  | comment text, after =>
    Terminal.comment.Matches text ∧ (after = [] ∨ after.head? = some '\n')
  | token kind text, after =>
    (Terminal.ofKind kind).Matches text ∧ LongestMatch text (text ++ after) ∧
      ∀ keyword ∈ Kind.keywords,
        kind = keyword ↔ keyword.spelling? = some (String.ofList text)
  | stray c, _ => ¬Terminal.CanStart c
  | unclosed text, after => ∃ rest, text = '"' :: rest ∧ '"' ∉ rest ∧ after = []

/-- What is neither a string nor a comment, nor the start of a string that is never closed. -/
def IsCode : Piece → Prop
  | comment _ | token .string _ | unclosed _ => False
  | _ => True

/-- The pieces of a list, each with the text before it. -/
def located (before : List Char) : List Piece → List (List Char × Piece)
  | [] => []
  | p :: more => (before, p) :: located (before ++ p.text) more

/-- The line on which what follows a text starts. -/
def lineAfter (before : List Char) : Nat :=
  1 + before.count '\n'

/-- The kind, the text and the line of a piece that is a token. -/
def spelled? : List Char × Piece → Option (Kind × String × Int)
  | (before, token kind text) => some (kind, String.ofList text, lineAfter before)
  | _ => none

/-- The diagnostic of a piece that is a character nothing starts with. -/
def unexpected? : List Char × Piece → Option Diagnostic
  | (before, stray _) => some (.onLine (lineAfter before) .unexpectedCharacter)
  | _ => none

/-- The diagnostic of a piece that is a string never closed. -/
def unterminated? : List Char × Piece → Option Diagnostic
  | (before, unclosed _) => some (.onLine (lineAfter before) .unterminatedString)
  | _ => none

end Piece

/-- A numeral denotes the number nearest to its decimal, a string the text between its quotes, and
any other token nothing. -/
def Token.Carries (token : Token) : Prop :=
  match token.kind with
  | .number => ∃ whole fraction, (∀ d ∈ whole, d.isDigit) ∧ (∀ d ∈ fraction, d.isDigit) ∧
      token.lexeme.toList = whole ++ (if fraction = [] then [] else '.' :: fraction) ∧
      token.literal = .number (Decimal.toFloat false (Decimal.ofDigits whole fraction 0))
  | .string => ∃ inner, token.lexeme = "\"" ++ inner ++ "\"" ∧ token.literal = .string inner
  | _ => token.literal = .nil

/-- A cut of a source text into pieces that explains all a scan returns. -/
structure Accounts (source : String) (scan : Scan) (pieces : List Piece) : Prop where
  /-- The pieces follow each other and are the whole text. -/
  text : pieces.flatMap Piece.text = source.toList
  fits : ∀ before p after, pieces = before ++ p :: after → p.Fits (after.flatMap Piece.text)
  /-- Outside strings and comments, a character that nothing starts with is a piece of its own. -/
  strays : ∀ p ∈ pieces, p.IsCode → ∀ c ∈ p.text, ¬Terminal.CanStart c ↔ p = .stray c
  ending : scan.tokens = scan.body ++ [Token.endMark (Piece.lineAfter source.toList)]
  /-- The tokens before the end are the token pieces, in their order. -/
  tokens : scan.body.map (fun token => (token.kind, token.lexeme, token.line)) =
    (Piece.located [] pieces).filterMap Piece.spelled?
  literals : ∀ token ∈ scan.body, token.kind ≠ .eof ∧ token.Carries
  /-- Each stray character has its diagnostic, in order. One more stands after them exactly when the
  last piece is a string never closed. -/
  errors : scan.errors = (Piece.located [] pieces).filterMap Piece.unexpected? ++
    ((Piece.located [] pieces).getLast?.bind Piece.unterminated?).toList

namespace Terminal

theorem matches_of_mark {c : Char} {kind : Kind} (h : Piece.mark? c = some kind) :
    (fixed kind).Matches [c] := by
  unfold Piece.mark? at h
  split at h <;> first | cases h; done | (obtain rfl := Option.some.inj h; rfl)

theorem matches_of_longer_mark {c : Char} {kind longer : Kind} (h : Piece.mark? c = some kind)
    (hlonger : Piece.withEqual? kind = some longer) : (fixed longer).Matches [c, '='] := by
  unfold Piece.mark? at h
  split at h <;> first | cases h; done | (obtain rfl := Option.some.inj h)
  all_goals first | cases hlonger; done | (obtain rfl := Option.some.inj hlonger; rfl)

theorem ofKind_of_mark {c : Char} {kind : Kind} (h : Piece.mark? c = some kind) :
    ofKind kind = fixed kind := by
  unfold Piece.mark? at h
  split at h <;> first | cases h; done | (obtain rfl := Option.some.inj h; rfl)

theorem ofKind_of_longer {kind longer : Kind} (h : Piece.withEqual? kind = some longer) :
    ofKind longer = fixed longer := by
  cases kind <;> first | cases h; done | (obtain rfl := Option.some.inj h; rfl)

theorem not_keyword_of_mark {c : Char} {kind : Kind} (h : Piece.mark? c = some kind) :
    kind ∉ Kind.keywords := by
  unfold Piece.mark? at h
  split at h <;> first | cases h; done | (obtain rfl := Option.some.inj h; decide)

theorem not_keyword_of_longer {kind longer : Kind} (h : Piece.withEqual? kind = some longer) :
    longer ∉ Kind.keywords := by
  cases kind <;> first | cases h; done | (obtain rfl := Option.some.inj h; decide)

theorem ofKind_of_keyword {kind : Kind} (h : kind ∈ Kind.keywords) : ofKind kind = fixed kind := by
  revert kind
  decide

/-- What can start is told by the class of its first character. -/
theorem canStart_iff (c : Char) : CanStart c ↔ Piece.isBlank c ∨ Piece.startsWord c ∨ c.isDigit ∨
    c = '"' ∨ ∃ kind, Piece.mark? c = some kind := by
  constructor
  · rintro ⟨terminal, rest, h⟩
    have hidentifier : identifier.Matches (c :: rest) → Piece.startsWord c := by
      rintro ⟨d, run, hd, hword, -⟩
      obtain ⟨rfl, -⟩ := List.cons.inj hd
      exact hword
    cases terminal with
    | blank => exact .inl (h.2 c (by simp))
    | identifier => exact .inr (.inl (hidentifier h))
    | number =>
      obtain ⟨whole, hne, hwhole, hother⟩ := h
      obtain ⟨d, run, rfl⟩ := List.exists_cons_of_ne_nil hne
      have hd : c = d := by
        rcases hother with hother | ⟨digits, -, -, hother⟩ <;> exact (List.cons.inj hother).1
      exact .inr (.inr (.inl (hd ▸ hwhole d (by simp))))
    | string =>
      obtain ⟨inner, hinner, -⟩ := h
      exact .inr (.inr (.inr (.inl (List.cons.inj hinner).1)))
    | comment =>
      obtain ⟨run, hrun, -⟩ := h
      obtain ⟨rfl, -⟩ := List.cons.inj hrun
      exact .inr (.inr (.inr (.inr ⟨_, rfl⟩)))
    | fixed kind =>
      rcases h.fixed_cases with ⟨-, hword⟩ | ⟨d, hd, hmark⟩ | ⟨d, shorter, hd, hmark, -⟩
      · exact .inr (.inl (hidentifier hword))
      · obtain ⟨rfl, -⟩ := List.cons.inj hd
        exact .inr (.inr (.inr (.inr ⟨_, hmark⟩)))
      · obtain ⟨rfl, -⟩ := List.cons.inj hd
        exact .inr (.inr (.inr (.inr ⟨_, hmark⟩)))
  · rintro (h | h | h | rfl | ⟨kind, h⟩)
    · exact ⟨blank, [], by simp, by simpa using h⟩
    · exact ⟨identifier, [], c, [], rfl, h, by simp⟩
    · exact ⟨number, [], [c], by simp, by simpa using h, .inl rfl⟩
    · exact ⟨string, ['"'], [], rfl, by simp⟩
    · exact ⟨fixed kind, [], matches_of_mark h⟩

/-- Outside strings and comments, every character of a spelling can start one. -/
theorem Matches.canStart {terminal : Terminal} {text : List Char} (h : terminal.Matches text)
    (hstring : terminal ≠ string) (hcomment : terminal ≠ comment) {c : Char} (hc : c ∈ text) :
    CanStart c := by
  have hidentifier : identifier.Matches text → CanStart c := by
    rintro ⟨d, run, rfl, hword, hrun⟩
    rw [canStart_iff]
    rcases List.mem_cons.mp hc with rfl | hc
    · exact .inr (.inl hword)
    · have := hrun c hc
      rw [Piece.continuesWord, Bool.or_eq_true] at this
      exact .inr (this.imp_right .inl)
  cases terminal with
  | string => contradiction
  | comment => contradiction
  | identifier => exact hidentifier h
  | blank => exact (canStart_iff c).mpr (.inl (h.2 c hc))
  | number =>
    obtain ⟨whole, -, hwhole, hother⟩ := h
    have hdigit : c.isDigit → CanStart c := fun hd => (canStart_iff c).mpr (.inr (.inr (.inl hd)))
    rcases hother with rfl | ⟨digits, -, hdigits, rfl⟩
    · exact hdigit (hwhole c hc)
    · rcases List.mem_append.mp hc with hc | hc
      · exact hdigit (hwhole c hc)
      · rcases List.mem_cons.mp hc with rfl | hc
        · exact ⟨fixed .dot, [], rfl⟩
        · exact hdigit (hdigits c hc)
  | fixed kind =>
    rcases h.fixed_cases with ⟨-, hword⟩ | ⟨d, rfl, hmark⟩ | ⟨d, shorter, rfl, hmark, -⟩
    · exact hidentifier hword
    · obtain rfl := List.mem_singleton.mp hc
      exact ⟨_, [], matches_of_mark hmark⟩
    · rcases List.mem_cons.mp hc with rfl | hc
      · exact ⟨_, [], matches_of_mark hmark⟩
      · obtain rfl := List.mem_singleton.mp hc
        exact ⟨fixed .equal, [], rfl⟩

end Terminal

namespace Piece

/-- The kind of a word: the reserved word that it spells, or else an identifier. -/
theorem ofWord_cases (word : String) :
    (Kind.ofWord word ∈ Kind.keywords ∧ (Kind.ofWord word).spelling? = some word) ∨
      (Kind.ofWord word = .identifier ∧ ∀ kind ∈ Kind.keywords, kind.spelling? ≠ some word) := by
  unfold Kind.ofWord
  cases h : Kind.keywords.find? fun kind => kind.spelling? == some word with
  | none =>
    right
    refine ⟨rfl, ?_⟩
    intro kind hkind
    simpa using List.find?_eq_none.mp h kind hkind
  | some kind =>
    left
    exact ⟨List.mem_of_find?_eq_some h, by simpa using List.find?_some h⟩

/-- No two reserved words are spelled alike. -/
theorem keyword_eq_of_spelling? : ∀ a ∈ Kind.keywords, ∀ b ∈ Kind.keywords,
    a.spelling? = b.spelling? → a = b := by
  decide

theorem identifier_of_keyword {keyword : Kind} (h : keyword ∈ Kind.keywords) {text : List Char}
    (hspelling : keyword.spelling? = some (String.ofList text)) :
    Terminal.identifier.Matches text := by
  rcases Terminal.Matches.fixed_cases hspelling with ⟨-, hword⟩ | ⟨c, -, hmark⟩ |
    ⟨c, shorter, -, -, hlonger⟩
  · exact hword
  · exact absurd h (Terminal.not_keyword_of_mark hmark)
  · exact absurd h (Terminal.not_keyword_of_longer hlonger)

/-- A token that is not spelled like a word has no reserved kind. -/
theorem not_keyword_of_not_word {kind : Kind} {text : List Char} {c : Char}
    (hkind : (Terminal.ofKind kind).Matches (c :: text)) (hc : startsWord c = false) :
    ∀ keyword ∈ Kind.keywords,
      kind = keyword ↔ keyword.spelling? = some (String.ofList (c :: text)) := by
  have hword : ¬Terminal.identifier.Matches (c :: text) := by
    rintro ⟨d, run, hd, hstart, -⟩
    obtain ⟨rfl, -⟩ := List.cons.inj hd
    rw [hc] at hstart
    contradiction
  intro keyword hkeyword
  constructor
  · rintro rfl
    rw [Terminal.ofKind_of_keyword hkeyword] at hkind
    exact hkind
  · intro hspelling
    exact absurd (identifier_of_keyword hkeyword hspelling) hword

theorem isDigit_of_mem_takeWhile {cs : List Char} {d : Char} (h : d ∈ cs.takeWhile Char.isDigit) :
    d.isDigit :=
  List.mem_takeWhile_imp h

/-- The digits of a number and the fraction after them are a numeral. -/
theorem number_matches {c : Char} (h : c.isDigit) (rest : List Char) :
    Terminal.number.Matches
      (c :: (rest.takeWhile Char.isDigit ++ fraction (rest.dropWhile Char.isDigit))) := by
  refine ⟨c :: rest.takeWhile Char.isDigit, by simp, ?_, ?_⟩
  · intro d hd
    rcases List.mem_cons.mp hd with rfl | hd
    · exact h
    · exact isDigit_of_mem_takeWhile hd
  · unfold fraction
    split
    · rename_i d more heq
      split
      · rename_i hd
        refine .inr ⟨d :: more.takeWhile Char.isDigit, by simp, ?_, rfl⟩
        intro e he
        rcases List.mem_cons.mp he with rfl | he
        · exact hd
        · exact isDigit_of_mem_takeWhile he
      · exact .inl (by simp)
    · exact .inl (by simp)

/-- The token with which a text opens is of the kind that its own text spells. -/
theorem Opens.matches {text spelling : List Char} {kind : Kind}
    (h : Opens text (token kind spelling)) :
    (Terminal.ofKind kind).Matches spelling ∧ ∀ keyword ∈ Kind.keywords,
      kind = keyword ↔ keyword.spelling? = some (String.ofList spelling) := by
  cases h with
  | @word c rest hword =>
    have hmatches : Terminal.identifier.Matches (c :: rest.takeWhile continuesWord) :=
      ⟨c, _, rfl, hword, fun d hd => List.mem_takeWhile_imp hd⟩
    rcases ofWord_cases (String.ofList (c :: rest.takeWhile continuesWord)) with
      ⟨hkeyword, hspelling⟩ | ⟨hidentifier, hnone⟩
    · refine ⟨?_, ?_⟩
      · rw [Terminal.ofKind_of_keyword hkeyword]
        exact hspelling
      · intro keyword hmem
        constructor
        · rintro rfl
          exact hspelling
        · intro heq
          exact keyword_eq_of_spelling? _ hkeyword _ hmem (hspelling.trans heq.symm)
    · rw [hidentifier]
      refine ⟨hmatches, ?_⟩
      intro keyword hmem
      constructor
      · rintro rfl
        exact absurd hmem (by decide)
      · intro heq
        exact absurd heq (hnone keyword hmem)
  | @number c rest hdigit =>
    have hmatches := number_matches hdigit rest
    exact ⟨hmatches, not_keyword_of_not_word hmatches (not_startsWord_of_isDigit hdigit)⟩
  | @string inner rest hinner =>
    have hmatches : Terminal.string.Matches ('"' :: (inner ++ ['"'])) := ⟨inner, rfl, hinner⟩
    exact ⟨hmatches, not_keyword_of_not_word hmatches (by decide)⟩
  | mark hmark =>
    have hmatches := Terminal.matches_of_mark hmark
    rw [← Terminal.ofKind_of_mark hmark] at hmatches
    exact ⟨hmatches, not_keyword_of_not_word hmatches (classes_of_mark hmark).2.1⟩
  | longerMark hmark hlonger =>
    have hmatches := Terminal.matches_of_longer_mark hmark hlonger
    rw [← Terminal.ofKind_of_longer hlonger] at hmatches
    exact ⟨hmatches, not_keyword_of_not_word hmatches (classes_of_mark hmark).2.1⟩

/-- A run within the line is followed by the end of the text or of the line. -/
theorem dropWhile_line (cs : List Char) :
    cs.dropWhile (· ≠ '\n') = [] ∨ (cs.dropWhile (· ≠ '\n')).head? = some '\n' := by
  cases h : cs.dropWhile (· ≠ '\n') with
  | nil => exact .inl rfl
  | cons d more =>
    have hd := List.head?_dropWhile_not (fun c : Char => decide (c ≠ '\n')) cs
    rw [h] at hd
    right
    simpa using hd

theorem longestMatch_first (c : Char) (rest : List Char) :
    LongestMatch (first c rest).text (c :: rest) :=
  ⟨first_isPrefix c rest, fun _ _ h hstart => Terminal.length_le_first h hstart⟩

/-- The first piece of a text fits what follows it. -/
theorem fits_first (c : Char) (rest : List Char) :
    (first c rest).Fits ((c :: rest).drop (first c rest).text.length) := by
  have happend := List.prefix_iff_eq_append.mp (first_isPrefix c rest)
  have hlongest := longestMatch_first c rest
  have hopens := opens_first c rest
  rw [← happend] at hlongest
  generalize (c :: rest).drop (first c rest).text.length = after at happend hlongest
  cases hpiece : first c rest with
  | token kind text =>
    rw [hpiece] at hopens hlongest
    exact ⟨hopens.matches.1, hlongest, hopens.matches.2⟩
  | blank text =>
    rw [hpiece] at hopens hlongest
    refine ⟨?_, hlongest⟩
    cases hopens with
    | blank hblank =>
      refine ⟨by simp, ?_⟩
      intro d hd
      rcases List.mem_cons.mp hd with rfl | hd
      · exact hblank
      · exact List.mem_takeWhile_imp hd
  | comment text =>
    rw [hpiece] at hopens happend
    cases hopens with
    | @comment line =>
      refine ⟨⟨_, rfl, ?_⟩, ?_⟩
      · intro hmem
        simpa using List.mem_takeWhile_imp hmem
      · obtain rfl : after = line.dropWhile (· ≠ '\n') := by
          have htail := (List.cons.inj (List.cons.inj happend).2).2
          refine List.append_cancel_left (htail.trans ?_)
          exact List.takeWhile_append_dropWhile.symm
        exact dropWhile_line line
  | stray d =>
    rw [hpiece] at hopens
    cases hopens with
    | stray hblank hword hdigit hquote hmark =>
      intro hstart
      simp [Terminal.canStart_iff, hblank, hword, hdigit, hquote, hmark] at hstart
  | unclosed text =>
    rw [hpiece] at hopens happend
    cases hopens with
    | unclosed hclosed => exact ⟨_, rfl, hclosed, by simpa [text] using happend⟩

/-- Every piece of a text fits the text that follows it. -/
theorem fits_of_split (cs : List Char) : ∀ before p after, split cs = before ++ p :: after →
    p.Fits (after.flatMap text) := by
  fun_induction split cs with
  | case1 =>
    intro before p after h
    simp at h
  | case2 c rest ih =>
    intro before p after h
    cases before with
    | nil =>
      obtain ⟨rfl, rfl⟩ := List.cons.inj h
      rw [flatMap_text_split]
      exact fits_first c rest
    | cons q before => exact ih before p after (List.cons.inj h).2

theorem exists_fits_of_mem {cs : List Char} {p : Piece} (h : p ∈ split cs) :
    ∃ after, p.Fits after := by
  obtain ⟨before, after, hsplit⟩ := List.append_of_mem h
  exact ⟨_, fits_of_split cs before p after hsplit⟩

theorem text_ne_nil_of_mem {cs : List Char} {p : Piece} (h : p ∈ split cs) : p.text ≠ [] := by
  fun_induction split cs with
  | case1 => cases h
  | case2 c rest ih =>
    rcases List.mem_cons.mp h with rfl | h
    · exact first_text_ne_nil c rest
    · exact ih h

/-- A piece of code is made of characters that can start something, unless it is a stray one. -/
theorem Fits.stray_iff {p : Piece} {after : List Char} (h : p.Fits after) (hcode : p.IsCode)
    {c : Char} (hc : c ∈ p.text) : ¬Terminal.CanStart c ↔ p = .stray c := by
  cases p with
  | comment text => exact False.elim hcode
  | unclosed text => exact False.elim hcode
  | blank text =>
    have hstart := h.1.canStart nofun nofun hc
    simp [hstart]
  | token kind text =>
    have hstart : Terminal.CanStart c := by
      apply h.1.canStart _ _ hc
      · intro hstring
        cases kind <;> first | cases hstring; done | exact hcode
      · intro hcomment
        cases kind <;> cases hcomment
    simp [hstart]
  | stray d =>
    obtain rfl := List.mem_singleton.mp hc
    exact iff_of_true h rfl

/-! A located piece starts on the line that the text before it ends on. -/

theorem numbered_eq_located (before : List Char) (pieces : List Piece) :
    numbered (lineAfter before) pieces =
      (located before pieces).map fun (before, p) => (lineAfter before, p) := by
  induction pieces generalizing before with
  | nil => rfl
  | cons p more ih =>
    have hline : lineAfter before + p.lineFeeds = lineAfter (before ++ p.text) := by
      simp [lineAfter, lineFeeds, List.count_append, Nat.add_assoc]
    simp only [numbered, located, List.map_cons, hline, ih]

theorem mem_of_mem_located {before start : List Char} {p : Piece} {pieces : List Piece}
    (h : (start, p) ∈ located before pieces) : p ∈ pieces := by
  induction pieces generalizing before with
  | nil => cases h
  | cons q more ih =>
    rcases List.mem_cons.mp h with heq | hmem
    · obtain ⟨-, rfl⟩ := Prod.mk.inj heq
      exact List.mem_cons_self
    · exact List.mem_cons_of_mem q (ih hmem)

/-- A string that is never closed is the last piece, so its diagnostic comes last. -/
theorem diagnostics_eq {pieces : List Piece} (before : List Char)
    (h : ∀ start text after, pieces = start ++ unclosed text :: after → after = []) :
    (numbered (lineAfter before) pieces).filterMap diagnostic? =
      (located before pieces).filterMap unexpected? ++
        ((located before pieces).getLast?.bind unterminated?).toList := by
  rw [numbered_eq_located, List.filterMap_map]
  induction pieces generalizing before with
  | nil => rfl
  | cons p more ih =>
    have hmore := ih (before ++ p.text) fun start text after heq =>
      h (p :: start) text after (by rw [heq]; rfl)
    cases more with
    | nil => cases p <;> rfl
    | cons q rest =>
      have hlast : (located before (p :: q :: rest)).getLast? =
          (located (before ++ p.text) (q :: rest)).getLast? := by
        simp [located, List.getLast?_cons_cons]
      rw [hlast]
      cases p with
      | unclosed text =>
        have := h [] text (q :: rest) rfl
        contradiction
      | stray c =>
        simp only [located, List.filterMap_cons] at hmore ⊢
        exact congrArg _ hmore
      | _ => exact hmore

end Piece

theorem Piece.numeral_whole {whole : List Char} (h : ∀ d ∈ whole, d.isDigit) :
    numeral whole = Decimal.toFloat false (Decimal.ofDigits whole [] 0) := by
  have hpoint : ∀ d ∈ whole, decide (d ≠ '.') = true := by
    intro d hd
    simp only [decide_eq_true_eq]
    rintro rfl
    exact absurd (h _ hd) (by decide)
  simp only [numeral, List.takeWhile_eq_self_iff.mpr hpoint, List.dropWhile_eq_nil_iff.mpr hpoint,
    List.drop_nil]

theorem Piece.numeral_point {whole : List Char} (h : ∀ d ∈ whole, d.isDigit)
    (fraction : List Char) :
    numeral (whole ++ '.' :: fraction) =
      Decimal.toFloat false (Decimal.ofDigits whole fraction 0) := by
  have hpoint : ∀ d ∈ whole, decide (d ≠ '.') = true := by
    intro d hd
    simp only [decide_eq_true_eq]
    rintro rfl
    exact absurd (h _ hd) (by decide)
  rw [numeral, List.takeWhile_append_of_pos hpoint, List.dropWhile_append_of_pos hpoint]
  simp

/-- A token cut from a text carries what its text denotes. -/
theorem Piece.carries_of_matches {kind : Kind} {text : List Char} (line : Int)
    (h : (Terminal.ofKind kind).Matches text) :
    kind ≠ .eof ∧ Token.Carries ⟨kind, String.ofList text, literal kind text, line⟩ := by
  cases kind with
  | eof => cases h
  | number =>
    obtain ⟨whole, hne, hwhole, hother⟩ := h
    refine ⟨nofun, ?_⟩
    rcases hother with rfl | ⟨digits, hdigits, hall, rfl⟩
    · exact ⟨text, [], hwhole, by simp, by simp, congrArg _ (numeral_whole hwhole)⟩
    · exact ⟨whole, digits, hwhole, hall, by simp [hdigits],
        congrArg _ (numeral_point hwhole digits)⟩
  | string =>
    obtain ⟨inner, rfl, -⟩ := h
    refine ⟨nofun, String.ofList inner, ?_, ?_⟩
    · simp [← String.toList_inj]
    · simp [literal]
  | _ => exact ⟨nofun, rfl⟩

namespace Scan

theorem body_eq (source : String) : (ofSource source).body =
    (Piece.located [] (Piece.split source.toList)).filterMap
      fun (before, p) => Piece.token? (Piece.lineAfter before, p) := by
  change (Piece.numbered (Piece.lineAfter []) _).filterMap Piece.token? = _
  rw [Piece.numbered_eq_located, List.filterMap_map]
  rfl

/-- Every source text has a cut into pieces that accounts for what scanning it returns. -/
theorem exists_accounts (source : String) :
    ∃ pieces, Accounts source (ofSource source) pieces := by
  refine ⟨Piece.split source.toList, ?_, ?_, ?_, ?_, ?_, ?_, ?_⟩
  · exact Piece.flatMap_text_split source.toList
  · exact Piece.fits_of_split source.toList
  · intro p hp hcode c hc
    obtain ⟨after, hfits⟩ := Piece.exists_fits_of_mem hp
    exact hfits.stray_iff hcode hc
  · rfl
  · rw [body_eq, List.map_filterMap]
    congr 1
    funext ⟨before, p⟩
    cases p <;> rfl
  · intro token htoken
    rw [body_eq] at htoken
    obtain ⟨⟨before, p⟩, hmem, hp⟩ := List.mem_filterMap.mp htoken
    cases p with
    | token kind text =>
      obtain rfl := Option.some.inj hp
      obtain ⟨after, hfits⟩ := Piece.exists_fits_of_mem (Piece.mem_of_mem_located hmem)
      exact Piece.carries_of_matches _ hfits.1
    | _ => cases hp
  · apply Piece.diagnostics_eq []
    intro start text after hsplit
    obtain ⟨rest, -, -, hafter⟩ := Piece.fits_of_split source.toList start _ after hsplit
    cases after with
    | nil => rfl
    | cons q more =>
      have hq : q ∈ Piece.split source.toList := by
        rw [hsplit]
        simp
      rw [List.flatMap_cons, List.append_eq_nil_iff] at hafter
      exact absurd hafter.1 (Piece.text_ne_nil_of_mem hq)

end Scan

end LoxCore
