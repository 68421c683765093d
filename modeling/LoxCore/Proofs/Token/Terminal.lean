import LoxCore.Token.Scan
import Mathlib

/-!
The terminals of the language, each as the set of its spellings, and the first piece of a text. The
first piece is always the longest spelling that the text starts with.
-/
namespace LoxCore

open Token (Kind)

/-- What pieces of source text are spelled by. Each fixed word has its own terminal. -/
inductive Terminal where
  | fixed (kind : Kind)
  | identifier
  | string
  | number
  | comment
  | blank
deriving DecidableEq, Repr

namespace Terminal

/-- The spellings of a terminal. -/
def Matches : Terminal → List Char → Prop
  | fixed kind => fun text => kind.spelling? = some (String.ofList text)
  | identifier => fun text =>
    ∃ c rest, text = c :: rest ∧ Piece.startsWord c ∧ ∀ d ∈ rest, Piece.continuesWord d
  | string => fun text => ∃ inner, text = '"' :: (inner ++ ['"']) ∧ '"' ∉ inner
  | number => fun text => ∃ whole, whole ≠ [] ∧ (∀ d ∈ whole, d.isDigit) ∧
      (text = whole ∨
        ∃ digits, digits ≠ [] ∧ (∀ d ∈ digits, d.isDigit) ∧ text = whole ++ '.' :: digits)
  | comment => fun text => ∃ rest, text = '/' :: '/' :: rest ∧ '\n' ∉ rest
  | blank => fun text => text ≠ [] ∧ ∀ c ∈ text, Piece.isBlank c

/-- The terminal that spells the tokens of a kind. -/
def ofKind : Kind → Terminal
  | .identifier => identifier
  | .string => string
  | .number => number
  | kind => fixed kind

end Terminal

/-- The longest spelling of any terminal with which a text starts. -/
def LongestMatch (spelling text : List Char) : Prop :=
  spelling <+: text ∧
    ∀ terminal : Terminal, ∀ other, terminal.Matches other → other <+: text →
      other.length ≤ spelling.length

namespace Piece

/-! Classes of characters. No character is in two of them. -/

theorem not_isBlank_of_startsWord {c : Char} (h : startsWord c = true) : isBlank c = false := by
  simp only [isBlank, Bool.or_eq_false_iff, decide_eq_false_iff_not]
  refine ⟨⟨⟨?_, ?_⟩, ?_⟩, ?_⟩ <;> rintro rfl <;> revert h <;> decide

theorem not_isBlank_of_isDigit {c : Char} (h : c.isDigit = true) : isBlank c = false := by
  simp only [isBlank, Bool.or_eq_false_iff, decide_eq_false_iff_not]
  refine ⟨⟨⟨?_, ?_⟩, ?_⟩, ?_⟩ <;> rintro rfl <;> revert h <;> decide

theorem not_startsWord_of_isDigit {c : Char} (h : c.isDigit = true) : startsWord c = false := by
  have hne : c ≠ '_' := by
    rintro rfl
    revert h
    decide
  simp only [Char.isDigit, Bool.and_eq_true, decide_eq_true_eq, ge_iff_le] at h
  simp only [startsWord, hne, Char.isAlpha, Char.isUpper, Char.isLower]
  grind

/-! The first piece, by the class of the first character. -/

theorem first_of_isBlank {c : Char} (h : isBlank c = true) (rest : List Char) :
    first c rest = blank (c :: rest.takeWhile isBlank) := by
  simp [first, h]

theorem first_of_startsWord {c : Char} (h : startsWord c = true) (rest : List Char) :
    first c rest = token (.ofWord (String.ofList (c :: rest.takeWhile continuesWord)))
      (c :: rest.takeWhile continuesWord) := by
  simp [first, h, not_isBlank_of_startsWord h]

theorem first_of_isDigit {c : Char} (h : c.isDigit = true) (rest : List Char) :
    first c rest = token .number
      (c :: (rest.takeWhile Char.isDigit ++ fraction (rest.dropWhile Char.isDigit))) := by
  simp [first, h, not_isBlank_of_isDigit h, not_startsWord_of_isDigit h]

theorem first_string {inner : List Char} (h : '"' ∉ inner) (rest : List Char) :
    first '"' (inner ++ '"' :: rest) = token .string ('"' :: (inner ++ ['"'])) := by
  have hinner : ∀ d ∈ inner, decide (d ≠ '"') = true := by
    intro d hd
    simp only [decide_eq_true_eq]
    rintro rfl
    exact h hd
  have htake : (inner ++ '"' :: rest).takeWhile (· ≠ '"') = inner := by
    rw [List.takeWhile_append_of_pos hinner]
    simp
  have hdrop : (inner ++ '"' :: rest).dropWhile (· ≠ '"') = '"' :: rest := by
    rw [List.dropWhile_append_of_pos hinner]
    simp
  simp only [first, hdrop, htake]
  rfl

theorem first_unclosed {rest : List Char} (h : '"' ∉ rest) :
    first '"' rest = unclosed ('"' :: rest) := by
  have hdrop : rest.dropWhile (· ≠ '"') = [] := by
    rw [List.dropWhile_eq_nil_iff]
    intro d hd
    simp only [decide_eq_true_eq]
    rintro rfl
    exact h hd
  simp only [first, hdrop]
  rfl

theorem first_comment (rest : List Char) :
    first '/' ('/' :: rest) = comment ('/' :: '/' :: rest.takeWhile (· ≠ '\n')) := by
  simp [first, isBlank, startsWord]

/-- A mark is in none of the classes that are looked at before it. -/
theorem classes_of_mark {c : Char} {kind : Kind} (h : mark? c = some kind) :
    isBlank c = false ∧ startsWord c = false ∧ c.isDigit = false ∧ c ≠ '"' := by
  unfold mark? at h
  split at h <;> first | cases h; done | decide

theorem first_of_mark {c : Char} {kind : Kind} {rest : List Char} (h : mark? c = some kind)
    (hcomment : ¬(c = '/' ∧ rest.head? = some '/'))
    (hlonger : withEqual? kind = none ∨ rest.head? ≠ some '=') :
    first c rest = token kind [c] := by
  obtain ⟨hblank, hword, hdigit, hquote⟩ := classes_of_mark h
  simp only [first, hblank, hword, hdigit, hquote, hcomment, h, Bool.false_eq_true, if_false]
  rcases hlonger with hlonger | hlonger
  · simp [hlonger]
  · split
    · contradiction
    · rfl

theorem first_of_longer_mark {c : Char} {kind longer : Kind} (h : mark? c = some kind)
    (hlonger : withEqual? kind = some longer) (rest : List Char) :
    first c ('=' :: rest) = token longer [c, '='] := by
  obtain ⟨hblank, hword, hdigit, hquote⟩ := classes_of_mark h
  simp [first, hblank, hword, hdigit, hquote, h, hlonger]

/-- The ways in which a text can open, each with the piece that it opens with. -/
inductive Opens : List Char → Piece → Prop where
  | blank {c : Char} {rest : List Char} (h : isBlank c = true) :
      Opens (c :: rest) (.blank (c :: rest.takeWhile isBlank))
  | word {c : Char} {rest : List Char} (h : startsWord c = true) :
      Opens (c :: rest) (.token (.ofWord (String.ofList (c :: rest.takeWhile continuesWord)))
        (c :: rest.takeWhile continuesWord))
  | number {c : Char} {rest : List Char} (h : c.isDigit = true) :
      Opens (c :: rest) (.token .number
        (c :: (rest.takeWhile Char.isDigit ++ fraction (rest.dropWhile Char.isDigit))))
  | string {inner rest : List Char} (h : '"' ∉ inner) :
      Opens ('"' :: (inner ++ '"' :: rest)) (.token .string ('"' :: (inner ++ ['"'])))
  | unclosed {rest : List Char} (h : '"' ∉ rest) : Opens ('"' :: rest) (.unclosed ('"' :: rest))
  | comment {rest : List Char} :
      Opens ('/' :: '/' :: rest) (.comment ('/' :: '/' :: rest.takeWhile (· ≠ '\n')))
  | mark {c : Char} {rest : List Char} {kind : Kind} (h : mark? c = some kind) :
      Opens (c :: rest) (.token kind [c])
  | longerMark {c : Char} {rest : List Char} {kind longer : Kind} (h : mark? c = some kind)
      (hlonger : withEqual? kind = some longer) : Opens (c :: '=' :: rest) (.token longer [c, '='])
  | stray {c : Char} {rest : List Char} (hblank : isBlank c = false) (hword : startsWord c = false)
      (hdigit : c.isDigit = false) (hquote : c ≠ '"') (hmark : mark? c = none) :
      Opens (c :: rest) (.stray c)

theorem opens_first (c : Char) (rest : List Char) : Opens (c :: rest) (first c rest) := by
  by_cases hblank : isBlank c = true
  · rw [first_of_isBlank hblank]
    exact .blank hblank
  by_cases hword : startsWord c = true
  · rw [first_of_startsWord hword]
    exact .word hword
  by_cases hdigit : c.isDigit = true
  · rw [first_of_isDigit hdigit]
    exact .number hdigit
  by_cases hquote : c = '"'
  · subst hquote
    by_cases hclosed : '"' ∈ rest
    · obtain ⟨inner, after, rfl, hinner⟩ := List.eq_append_cons_of_mem hclosed
      rw [first_string hinner]
      exact .string hinner
    · rw [first_unclosed hclosed]
      exact .unclosed hclosed
  by_cases hcomment : c = '/' ∧ rest.head? = some '/'
  · obtain ⟨rfl, hhead⟩ := hcomment
    obtain ⟨more, rfl⟩ := List.head?_eq_some_iff.mp hhead
    rw [first_comment]
    exact .comment
  rw [Bool.not_eq_true] at hblank hword hdigit
  cases hmark : mark? c with
  | none =>
    have hstray : first c rest = .stray c := by
      simp [first, hblank, hword, hdigit, hquote, hcomment, hmark]
    rw [hstray]
    exact .stray hblank hword hdigit hquote hmark
  | some kind =>
    cases hlonger : withEqual? kind with
    | none =>
      rw [first_of_mark hmark hcomment (.inl hlonger)]
      exact .mark hmark
    | some longer =>
      by_cases hequal : rest.head? = some '='
      · obtain ⟨more, rfl⟩ := List.head?_eq_some_iff.mp hequal
        rw [first_of_longer_mark hmark hlonger]
        exact .longerMark hmark hlonger
      · rw [first_of_mark hmark hcomment (.inr hequal)]
        exact .mark hmark

end Piece

/-! Fixed words. -/

/-- A fixed word is spelled like an identifier, or is a mark, or a mark and an equals sign. -/
theorem Terminal.Matches.fixed_cases {kind : Kind} {text : List Char}
    (h : (Terminal.fixed kind).Matches text) :
    (kind ∈ Kind.keywords ∧ Terminal.identifier.Matches text) ∨
      (∃ c, text = [c] ∧ Piece.mark? c = some kind) ∨
      ∃ c shorter, text = [c, '='] ∧ Piece.mark? c = some shorter ∧
        Piece.withEqual? shorter = some kind := by
  have htext : kind.spelling?.map String.toList = some text := by
    rw [show kind.spelling? = some (String.ofList text) from h]
    simp
  clear h
  cases kind
  all_goals
    simp [Kind.spelling?] at htext
    try subst htext
  all_goals first
    | exact .inr (.inl ⟨_, rfl, rfl⟩)
    | exact .inr (.inr ⟨_, _, rfl, rfl, rfl⟩)
    | exact .inl ⟨by decide, _, _, rfl, by decide, List.all_eq_true.mp (by decide)⟩

namespace Terminal

/-- What starts a text and is all of one class is within the run of that class. -/
theorem length_le_takeWhile {p : Char → Bool} {run text : List Char} (h : run <+: text)
    (hrun : ∀ d ∈ run, p d) : run.length ≤ (text.takeWhile p).length := by
  obtain ⟨after, rfl⟩ := h
  rw [List.takeWhile_append_of_pos hrun, List.length_append]
  omega

variable {c : Char} {rest : List Char}

theorem length_le_of_identifier {other : List Char} (h : identifier.Matches other)
    (hstart : other <+: c :: rest) : other.length ≤ (Piece.first c rest).text.length := by
  obtain ⟨d, run, rfl, hword, hrun⟩ := h
  obtain ⟨rfl, htail⟩ := List.cons_prefix_cons.mp hstart
  rw [Piece.first_of_startsWord hword]
  simpa [Piece.text] using length_le_takeWhile htail hrun

theorem length_le_of_number {other : List Char} (h : number.Matches other)
    (hstart : other <+: c :: rest) : other.length ≤ (Piece.first c rest).text.length := by
  obtain ⟨whole, hne, hwhole, hother⟩ := h
  obtain ⟨d, run, rfl⟩ := List.exists_cons_of_ne_nil hne
  have hrun : ∀ e ∈ run, e.isDigit := fun e he => hwhole e (List.mem_cons_of_mem d he)
  rcases hother with rfl | ⟨digits, hdigits, hall, rfl⟩
  · obtain ⟨rfl, htail⟩ := List.cons_prefix_cons.mp hstart
    rw [Piece.first_of_isDigit (hwhole d (by simp))]
    have := length_le_takeWhile htail hrun
    simp only [Piece.text, List.length_cons, List.length_append]
    omega
  · obtain ⟨after, hafter⟩ := hstart
    simp only [List.cons_append, List.append_assoc, List.cons.injEq] at hafter
    obtain ⟨rfl, rfl⟩ := hafter
    obtain ⟨e, more, rfl⟩ := List.exists_cons_of_ne_nil hdigits
    rw [Piece.first_of_isDigit (hwhole d (by simp)), List.takeWhile_append_of_pos hrun,
      List.dropWhile_append_of_pos hrun]
    have hmore := length_le_takeWhile (List.prefix_append more after)
      (fun x hx => hall x (List.mem_cons_of_mem e hx))
    have hpoint : Char.isDigit '.' = false := by decide
    simp only [Piece.text, Piece.fraction, List.cons_append, List.takeWhile_cons,
      List.dropWhile_cons, hpoint, hall e (by simp), Bool.false_eq_true, if_false, if_true,
      List.append_nil, List.length_cons, List.length_append]
    omega

/-- Nothing longer than the first piece of a text starts it. -/
theorem length_le_first {terminal : Terminal} {other : List Char} (h : terminal.Matches other)
    (hstart : other <+: c :: rest) : other.length ≤ (Piece.first c rest).text.length := by
  cases terminal with
  | identifier => exact length_le_of_identifier h hstart
  | number => exact length_le_of_number h hstart
  | blank =>
    obtain ⟨hne, hblank⟩ := h
    obtain ⟨d, run, rfl⟩ := List.exists_cons_of_ne_nil hne
    obtain ⟨rfl, htail⟩ := List.cons_prefix_cons.mp hstart
    rw [Piece.first_of_isBlank (hblank d (by simp))]
    have hrun : ∀ e ∈ run, Piece.isBlank e := fun e he => hblank e (List.mem_cons_of_mem d he)
    simpa [Piece.text] using length_le_takeWhile htail hrun
  | string =>
    obtain ⟨inner, rfl, hinner⟩ := h
    obtain ⟨after, hafter⟩ := hstart
    simp only [List.cons_append, List.append_assoc, List.cons.injEq, List.nil_append] at hafter
    obtain ⟨rfl, rfl⟩ := hafter
    rw [Piece.first_string hinner]
    exact Nat.le_refl _
  | comment =>
    obtain ⟨run, rfl, hline⟩ := h
    obtain ⟨rfl, htail⟩ := List.cons_prefix_cons.mp hstart
    obtain ⟨after, rfl⟩ := htail
    rw [List.cons_append, Piece.first_comment]
    have hrun : ∀ e ∈ run, decide (e ≠ '\n') = true := by
      intro e he
      simp only [decide_eq_true_eq]
      rintro rfl
      exact hline he
    simpa [Piece.text] using length_le_takeWhile (List.prefix_append run after) hrun
  | fixed kind =>
    rcases h.fixed_cases with ⟨-, hword⟩ | ⟨d, rfl, -⟩ | ⟨d, shorter, rfl, hmark, hlonger⟩
    · exact length_le_of_identifier hword hstart
    · exact List.length_pos_iff.mpr (Piece.first_text_ne_nil c rest)
    · obtain ⟨after, hafter⟩ := hstart
      simp only [List.cons_append, List.nil_append, List.cons.injEq] at hafter
      obtain ⟨rfl, rfl⟩ := hafter
      rw [Piece.first_of_longer_mark hmark hlonger]
      exact Nat.le_refl _

end Terminal

end LoxCore
