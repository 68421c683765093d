import LoxCore.Proofs.Token.Account

/-!
Tokens that were cut from source text are cut again, just as they were, from a text that spells them
with something between them.
-/
namespace LoxCore

open Token (Kind)

/-- The token is one that scanning can give: its text spells its kind, and what it denotes is what
its text says. -/
structure Token.IsCut (t : Token) : Prop where
  spelled : (Terminal.ofKind t.kind).Matches t.lexeme.toList
  keyword : ∀ keyword ∈ Kind.keywords, t.kind = keyword ↔ keyword.spelling? = some t.lexeme
  literal : t.literal = Piece.literal t.kind t.lexeme.toList

theorem Scan.isCut_of_mem_body {source : String} {t : Token} (h : t ∈ (ofSource source).body) :
    t.IsCut := by
  rw [body_eq] at h
  obtain ⟨⟨before, p⟩, hmem, hp⟩ := List.mem_filterMap.mp h
  cases p with
  | token kind text =>
    obtain rfl := Option.some.inj hp
    obtain ⟨after, hspelled, -, hkeyword⟩ :=
      Piece.exists_fits_of_mem (Piece.mem_of_mem_located hmem)
    refine ⟨?_, hkeyword, ?_⟩
    · simpa using hspelled
    · simp
  | _ => cases hp

/-- What can follow a token in a rendering. None of it goes on with a word, a number or a mark. -/
def Ends (rest : List Char) : Prop :=
  ∃ c ∈ [' ', ')', ';'], rest.head? = some c

theorem ends_cons {c : Char} (h : c ∈ [' ', ')', ';']) (rest : List Char) : Ends (c :: rest) :=
  ⟨c, h, rfl⟩

/-- A text that no word, number or mark before it goes on into. -/
def Apart (rest : List Char) : Prop :=
  ∀ c ∈ rest.head?, Piece.continuesWord c = false ∧ c ≠ '.' ∧ c ≠ '/' ∧ c ≠ '='

theorem Ends.apart {rest : List Char} (h : Ends rest) : Apart rest := by
  obtain ⟨c, hc, hhead⟩ := h
  have hclass : ∀ c ∈ [' ', ')', ';'],
      Piece.continuesWord c = false ∧ c ≠ '.' ∧ c ≠ '/' ∧ c ≠ '=' := by
    simp [Piece.continuesWord, Piece.startsWord]
  rw [Apart, hhead]
  rintro _ ⟨⟩
  exact hclass c hc

/-- Digits go on with a word as well. -/
theorem Apart.not_isDigit {rest : List Char} (h : Apart rest) :
    ∀ c ∈ rest.head?, c.isDigit = false := by
  intro c hc
  have hword := (h c hc).1
  rw [Piece.continuesWord, Bool.or_eq_false_iff] at hword
  exact hword.2

/-- A run of one class goes up to what ends it. -/
theorem takeWhile_append_of_head {p : Char → Bool} {run rest : List Char}
    (hrun : ∀ c ∈ run, p c = true) (hrest : ∀ c ∈ rest.head?, p c = false) :
    (run ++ rest).takeWhile p = run ∧ (run ++ rest).dropWhile p = rest := by
  rw [List.takeWhile_append_of_pos hrun, List.dropWhile_append_of_pos hrun]
  cases rest with
  | nil => simp
  | cons c more => simp [hrest c rfl]

/-- Every spelling has a character. -/
theorem Terminal.Matches.ne_nil {terminal : Terminal} {text : List Char}
    (h : terminal.Matches text) : text ≠ [] := by
  rintro rfl
  cases terminal with
  | identifier =>
    obtain ⟨c, run, heq, -⟩ := h
    cases heq
  | string =>
    obtain ⟨inner, heq, -⟩ := h
    cases heq
  | number =>
    obtain ⟨whole, hne, -, heq | ⟨digits, -, -, heq⟩⟩ := h
    · exact hne heq.symm
    · simp at heq
  | comment =>
    obtain ⟨run, heq, -⟩ := h
    cases heq
  | blank => exact h.1 rfl
  | fixed kind =>
    rcases h.fixed_cases with ⟨-, c, run, heq, -⟩ | ⟨c, heq, -⟩ | ⟨c, shorter, heq, -⟩ <;> cases heq

/-- Only strings and runs of blanks may hold a line feed. -/
theorem Terminal.Matches.not_mem_lineFeed {terminal : Terminal} {text : List Char}
    (h : terminal.Matches text) (hstring : terminal ≠ .string) (hblank : terminal ≠ .blank) :
    '\n' ∉ text := by
  have hidentifier : Terminal.identifier.Matches text → '\n' ∉ text := by
    rintro ⟨c, run, rfl, hstart, hrun⟩ hmem
    rcases List.mem_cons.mp hmem with rfl | hmem
    · exact absurd hstart (by decide)
    · exact absurd (hrun _ hmem) (by decide)
  cases terminal with
  | string => contradiction
  | blank => contradiction
  | identifier => exact hidentifier h
  | comment =>
    obtain ⟨run, rfl, hline⟩ := h
    simpa using hline
  | number =>
    obtain ⟨whole, -, hwhole, hother⟩ := h
    have hdigits {digits : List Char} (h : ∀ d ∈ digits, d.isDigit) : '\n' ∉ digits :=
      fun hmem => absurd (h _ hmem) (by decide)
    rcases hother with rfl | ⟨digits, -, hall, rfl⟩
    · exact hdigits hwhole
    · simp [hdigits hwhole, hdigits hall]
  | fixed kind =>
    rcases h.fixed_cases with ⟨-, hword⟩ | ⟨c, rfl, hmark⟩ | ⟨c, shorter, rfl, hmark, -⟩
    · exact hidentifier hword
    · rw [List.mem_singleton]
      rintro rfl
      cases hmark
    · rintro hmem
      obtain rfl : '\n' = c := by simpa using hmem
      cases hmark

namespace Token.IsCut

variable {t : Token} {c : Char} {spelling rest : List Char}

/-- A reserved word or an identifier. -/
theorem first_word (h : t.IsCut) (hkind : t.kind ∈ Kind.keywords ∨ t.kind = .identifier)
    (hword : Terminal.identifier.Matches t.lexeme.toList)
    (hlexeme : t.lexeme.toList = c :: spelling) (hrest : Apart rest) :
    Piece.first c (spelling ++ rest) = .token t.kind (c :: spelling) := by
  obtain ⟨d, run, heq, hstart, hrun⟩ := hword
  obtain ⟨rfl, rfl⟩ := List.cons.inj (hlexeme.symm.trans heq)
  have htake := (takeWhile_append_of_head hrun fun c hc => (hrest c hc).1).1
  have hkind : Kind.ofWord t.lexeme = t.kind := by
    rcases Piece.ofWord_cases t.lexeme with ⟨hkeyword, hspelling⟩ | ⟨hidentifier, hnone⟩
    · exact ((h.keyword _ hkeyword).mpr hspelling).symm
    · rcases hkind with hkind | hkind
      · exact absurd ((h.keyword _ hkind).mp rfl) (hnone _ hkind)
      · rw [hidentifier, hkind]
  rw [Piece.first_of_startsWord hstart, htake, ← hlexeme, String.ofList_toList, hkind]

theorem first_fixed (h : t.IsCut) (hfixed : (Terminal.fixed t.kind).Matches t.lexeme.toList)
    (hlexeme : t.lexeme.toList = c :: spelling) (hrest : Apart rest) :
    Piece.first c (spelling ++ rest) = .token t.kind (c :: spelling) := by
  rcases hfixed.fixed_cases with ⟨hkeyword, hword⟩ | ⟨d, heq, hmark⟩ |
    ⟨d, shorter, heq, hmark, hlonger⟩
  · exact h.first_word (.inl hkeyword) hword hlexeme hrest
  · obtain ⟨rfl, rfl⟩ := List.cons.inj (hlexeme.symm.trans heq)
    apply Piece.first_of_mark hmark
    · rintro ⟨-, hhead⟩
      exact (hrest _ hhead).2.2.1 rfl
    · exact .inr fun hhead => (hrest _ hhead).2.2.2 rfl
  · obtain ⟨rfl, rfl⟩ := List.cons.inj (hlexeme.symm.trans heq)
    exact Piece.first_of_longer_mark hmark hlonger rest

theorem first_number (h : Terminal.number.Matches (c :: spelling)) (hrest : Apart rest) :
    Piece.first c (spelling ++ rest) = .token .number (c :: spelling) := by
  obtain ⟨whole, hne, hwhole, hother⟩ := h
  obtain ⟨d, run, rfl⟩ := List.exists_cons_of_ne_nil hne
  have hrun : ∀ e ∈ run, e.isDigit := fun e he => hwhole e (List.mem_cons_of_mem d he)
  rcases hother with heq | ⟨digits, hdigits, hall, heq⟩
  · obtain ⟨rfl, rfl⟩ := List.cons.inj heq
    obtain ⟨htake, hdrop⟩ := takeWhile_append_of_head hrun hrest.not_isDigit
    have hfraction : Piece.fraction rest = [] := by
      unfold Piece.fraction
      split
      · exact absurd rfl (hrest _ rfl).2.1
      · rfl
    rw [Piece.first_of_isDigit (hwhole c (by simp)), htake, hdrop, hfraction, List.append_nil]
  · obtain ⟨rfl, rfl⟩ := List.cons.inj heq
    obtain ⟨e, more, rfl⟩ := List.exists_cons_of_ne_nil hdigits
    have hmore : ∀ x ∈ more, x.isDigit := fun x hx => hall x (List.mem_cons_of_mem e hx)
    obtain ⟨htake, -⟩ := takeWhile_append_of_head hmore hrest.not_isDigit
    have hpoint : Char.isDigit '.' = false := by decide
    change Piece.first c ((run ++ '.' :: e :: more) ++ rest) =
      .token .number (c :: (run ++ '.' :: e :: more))
    rw [Piece.first_of_isDigit (hwhole c (by simp)), List.append_assoc,
      List.takeWhile_append_of_pos hrun, List.dropWhile_append_of_pos hrun]
    simp [Piece.fraction, hpoint, hall e (by simp), htake]

/-- The token is cut again from its text, as soon as something ends it. -/
theorem first (h : t.IsCut) (hlexeme : t.lexeme.toList = c :: spelling) (hrest : Apart rest) :
    Piece.first c (spelling ++ rest) = .token t.kind (c :: spelling) := by
  have hspelled := h.spelled
  cases hkind : t.kind with
  | string =>
    -- The closing quote ends a string, whatever follows it.
    rw [hkind, hlexeme] at hspelled
    obtain ⟨inner, heq, hinner⟩ := hspelled
    obtain ⟨rfl, rfl⟩ := List.cons.inj heq
    rw [List.append_assoc]
    exact Piece.first_string hinner rest
  | identifier =>
    rw [hkind] at hspelled
    rw [← hkind]
    exact h.first_word (.inr hkind) hspelled hlexeme hrest
  | number =>
    rw [hkind, hlexeme] at hspelled
    exact first_number hspelled hrest
  | _ =>
    have hfixed : (Terminal.fixed t.kind).Matches t.lexeme.toList := by
      rw [hkind] at hspelled ⊢
      exact hspelled
    rw [← hkind]
    exact h.first_fixed hfixed hlexeme hrest

/-- The text of a token is not blank, since it is cut off as a token. -/
theorem not_isBlank (h : t.IsCut) (rest : List Char) :
    ∀ d ∈ (t.lexeme.toList ++ rest).head?, Piece.isBlank d = false := by
  intro d hd
  obtain ⟨c, spelling, hlexeme⟩ := List.exists_cons_of_ne_nil h.spelled.ne_nil
  obtain rfl : c = d := by simpa [hlexeme] using hd
  have hends : Ends [' '] := ends_cons (by decide) []
  have hfirst := h.first hlexeme hends.apart
  rw [← Bool.not_eq_true]
  intro hblank
  rw [Piece.first_of_isBlank hblank] at hfirst
  cases hfirst

theorem not_mem_lineFeed (h : t.IsCut) (hstring : t.kind ≠ .string) : '\n' ∉ t.lexeme.toList := by
  apply h.spelled.not_mem_lineFeed
  · intro hterminal
    cases hkind : t.kind <;> simp_all [Terminal.ofKind]
  · intro hterminal
    cases hkind : t.kind <;> simp_all [Terminal.ofKind]

theorem of_keyword {kind : Kind} (h : kind ∈ Kind.keywords) {lexeme : String}
    (hspelling : kind.spelling? = some lexeme) (line : Int) : IsCut ⟨kind, lexeme, .nil, line⟩ := by
  refine ⟨?_, ?_, ?_⟩
  · rw [Terminal.ofKind_of_keyword h]
    simpa [Terminal.Matches] using hspelling
  · intro keyword hkeyword
    constructor
    · rintro rfl
      exact hspelling
    · intro heq
      exact Piece.keyword_eq_of_spelling? _ h _ hkeyword (hspelling.trans heq.symm)
  · cases kind <;> first | rfl | cases hspelling

theorem of_numeral {text : List Char} (h : Terminal.number.Matches text) (line : Int) :
    IsCut ⟨.number, String.ofList text, .number (Piece.numeral text), line⟩ := by
  obtain ⟨c, spelling, rfl⟩ := List.exists_cons_of_ne_nil h.ne_nil
  have hc : Piece.startsWord c = false := by
    obtain ⟨whole, hne, hwhole, hother⟩ := h
    obtain ⟨d, run, rfl⟩ := List.exists_cons_of_ne_nil hne
    have hd : c = d := by
      rcases hother with hother | ⟨digits, -, -, hother⟩ <;> exact (List.cons.inj hother).1
    exact Piece.not_startsWord_of_isDigit (hwhole c (by simp [hd]))
  refine ⟨?_, Piece.not_keyword_of_not_word h hc, ?_⟩
  · rw [String.toList_ofList]
    exact h
  · simp [Piece.literal]

end Token.IsCut

/-- Scanning goes over the front of a text, all of it on the first line, and finds some tokens. -/
inductive Cuts : List Char → List Token → List Char → Prop where
  | done (rest : List Char) : Cuts rest [] rest
  | space {rest after : List Char} {tokens : List Token}
      (hrest : ∀ c ∈ rest.head?, Piece.isBlank c = false) (h : Cuts rest tokens after) :
      Cuts (' ' :: rest) tokens after
  | token {c : Char} {spelling rest after : List Char} {kind : Kind} {tokens : List Token}
      (hfirst : Piece.first c (spelling ++ rest) = .token kind (c :: spelling))
      (hline : '\n' ∉ c :: spelling) (h : Cuts rest tokens after) :
      Cuts (c :: (spelling ++ rest))
        (⟨kind, String.ofList (c :: spelling), Piece.literal kind (c :: spelling), 1⟩ :: tokens)
        after

namespace Cuts

variable {text middle rest : List Char} {tokens more : List Token}

theorem trans (h : Cuts text tokens middle) (hmore : Cuts middle more rest) :
    Cuts text (tokens ++ more) rest := by
  induction h with
  | done => exact hmore
  | space hrest _ ih => exact .space hrest (ih hmore)
  | token hfirst hline _ ih => exact .token hfirst hline (ih hmore)

/-- A parenthesis or a semicolon is cut off whatever follows it. -/
theorem of_mark {c : Char} {kind : Kind} (hmark : Piece.mark? c = some kind) (hslash : c ≠ '/')
    (hlonger : Piece.withEqual? kind = none) (hliteral : Piece.literal kind [c] = .nil)
    (rest : List Char) : Cuts (c :: rest) [⟨kind, String.singleton c, .nil, 1⟩] rest := by
  have hfirst : Piece.first c ([] ++ rest) = .token kind [c] :=
    Piece.first_of_mark hmark (fun h => hslash h.1) (.inl hlonger)
  have hline : '\n' ∉ [c] := by
    rw [List.mem_singleton]
    rintro rfl
    cases hmark
  have h := token hfirst hline (done rest)
  rw [hliteral] at h
  exact h

theorem opening (rest : List Char) : Cuts ('(' :: rest) [⟨.leftParen, "(", .nil, 1⟩] rest :=
  of_mark rfl (by decide) rfl rfl rest

theorem closing (rest : List Char) : Cuts (')' :: rest) [⟨.rightParen, ")", .nil, 1⟩] rest :=
  of_mark rfl (by decide) rfl rfl rest

theorem semicolon (rest : List Char) : Cuts (';' :: rest) [⟨.semicolon, ";", .nil, 1⟩] rest :=
  of_mark rfl (by decide) rfl rfl rest

/-- A token that was cut from source text is cut again from its own text. -/
theorem of_isCut {t : Token} (h : t.IsCut) (hstring : t.kind ≠ .string) (hrest : Ends rest) :
    Cuts (t.lexeme.toList ++ rest) [{ t with line := 1 }] rest := by
  cases hlexeme : t.lexeme.toList with
  | nil => exact absurd hlexeme h.spelled.ne_nil
  | cons c spelling =>
    have hline := h.not_mem_lineFeed hstring
    rw [hlexeme] at hline
    have hcut := token (h.first hlexeme hrest.apart) hline (done rest)
    have htoken : ({ t with line := 1 } : Token) = ⟨t.kind, String.ofList (c :: spelling),
        Piece.literal t.kind (c :: spelling), 1⟩ := by
      rw [← hlexeme, ← h.literal, String.ofList_toList]
    rw [htoken]
    exact hcut

/-- What scanning gives for a text that it goes over to the end. -/
theorem scan (h : Cuts text tokens []) : Scan.ofSource (String.ofList text) = ⟨tokens, [], 1⟩ := by
  suffices hpieces : (Piece.numbered 1 (Piece.split text)).filterMap Piece.token? = tokens ∧
      (Piece.numbered 1 (Piece.split text)).filterMap Piece.diagnostic? = [] ∧ '\n' ∉ text by
    obtain ⟨htokens, hdiagnostics, hline⟩ := hpieces
    simp [Scan.ofSource, htokens, hdiagnostics, List.count_eq_zero.mpr hline]
  generalize hend : ([] : List Char) = after at h
  induction h with
  | done rest =>
    subst hend
    simp [Piece.split, Piece.numbered]
  | @space rest after tokens hrest _ ih =>
    obtain ⟨htokens, hdiagnostics, hline⟩ := ih hend
    have hrun : rest.takeWhile Piece.isBlank = [] := by
      cases rest with
      | nil => rfl
      | cons c more => simp [hrest c rfl]
    have hsplit : Piece.split (' ' :: rest) = .blank [' '] :: Piece.split rest := by
      rw [Piece.split, Piece.first_of_isBlank (by decide), hrun]
      rfl
    have hnumbered : Piece.numbered 1 (Piece.split (' ' :: rest)) =
        (1, .blank [' ']) :: Piece.numbered 1 (Piece.split rest) := by
      rw [hsplit]
      rfl
    rw [hnumbered]
    exact ⟨htokens, hdiagnostics, by simpa using hline⟩
  | @token c spelling rest after kind tokens hfirst hfeed _ ih =>
    obtain ⟨htokens, hdiagnostics, hline⟩ := ih hend
    have hsplit : Piece.split (c :: (spelling ++ rest)) =
        .token kind (c :: spelling) :: Piece.split rest := by
      rw [Piece.split, hfirst]
      simp [Piece.text]
    have hnumbered : Piece.numbered 1 (Piece.split (c :: (spelling ++ rest))) =
        (1, .token kind (c :: spelling)) :: Piece.numbered 1 (Piece.split rest) := by
      rw [hsplit, Piece.numbered]
      simp only [Piece.lineFeeds, Piece.text, List.count_eq_zero.mpr hfeed, Nat.add_zero]
    rw [hnumbered]
    refine ⟨?_, hdiagnostics, ?_⟩
    · rw [List.filterMap_cons, ← htokens]
      rfl
    · rw [← List.cons_append, List.mem_append]
      exact not_or.mpr ⟨hfeed, hline⟩

end Cuts

end LoxCore
