import LoxCore.Token

/-!
Cutting source text into pieces. Every character belongs to exactly one piece, and each piece is the
longest that can start where it starts.
-/
namespace LoxCore

/-- A piece of source text. -/
inductive Piece where
  /-- A run of spaces, tabs and line breaks. -/
  | blank (text : List Char)
  /-- Two slashes and the rest of the line, without the line feed. -/
  | comment (text : List Char)
  | token (kind : Token.Kind) (text : List Char)
  /-- A character with which nothing can start. -/
  | stray (c : Char)
  /-- A quote with no other after it, and all that follows. -/
  | unclosed (text : List Char)
deriving DecidableEq

namespace Piece

/-- The characters of a piece. -/
def text : Piece → List Char
  | blank text | comment text | token _ text | unclosed text => text
  | stray c => [c]

def isBlank (c : Char) : Bool :=
  c = ' ' || c = '\t' || c = '\r' || c = '\n'

/-- Words are made of the English letters, digits and the underscore. -/
def startsWord (c : Char) : Bool :=
  c.isAlpha || c = '_'

def continuesWord (c : Char) : Bool :=
  startsWord c || c.isDigit

/-- Marks of one character. -/
def mark? : Char → Option Token.Kind
  | '(' => some .leftParen
  | ')' => some .rightParen
  | '\x7b' => some .leftBrace
  | '\x7d' => some .rightBrace
  | ',' => some .comma
  | '.' => some .dot
  | '-' => some .minus
  | '+' => some .plus
  | ';' => some .semicolon
  | '/' => some .slash
  | '*' => some .star
  | '!' => some .bang
  | '=' => some .equal
  | '>' => some .greater
  | '<' => some .less
  | _ => none

/-- The marks that an equals sign lengthens. -/
def withEqual? : Token.Kind → Option Token.Kind
  | .bang => some .bangEqual
  | .equal => some .equalEqual
  | .greater => some .greaterEqual
  | .less => some .lessEqual
  | _ => none

/-- The characters after the digits of a number that still belong to it: a point, when a digit
follows, and the digits after it. -/
def fraction : List Char → List Char
  | '.' :: d :: more => if d.isDigit then '.' :: d :: more.takeWhile Char.isDigit else []
  | _ => []

/-- The first piece of a text that starts with `c`. -/
def first (c : Char) (rest : List Char) : Piece :=
  if isBlank c then blank (c :: rest.takeWhile isBlank)
  else if startsWord c then
    let word := c :: rest.takeWhile continuesWord
    token (.ofWord (String.ofList word)) word
  else if c.isDigit then
    token .number (c :: rest.takeWhile Char.isDigit ++ fraction (rest.dropWhile Char.isDigit))
  else if c = '"' then
    match rest.dropWhile (· ≠ '"') with
    | [] => unclosed (c :: rest)
    | quote :: _ => token .string (c :: rest.takeWhile (· ≠ '"') ++ [quote])
  else if c = '/' ∧ rest.head? = some '/' then comment (c :: rest.takeWhile (· ≠ '\n'))
  else
    match mark? c with
    | none => stray c
    | some kind =>
      match withEqual? kind, rest.head? with
      | some longer, some '=' => token longer [c, '=']
      | _, _ => token kind [c]

theorem fraction_append_drop (rest : List Char) :
    fraction rest ++ rest.drop (fraction rest).length = rest := by
  unfold fraction
  split
  · rename_i d more
    split
    · have h := List.prefix_iff_eq_append.mp (List.takeWhile_prefix Char.isDigit (l := more))
      simpa using h
    · simp
  · simp

/-- The first piece is what the text starts with. -/
theorem first_isPrefix (c : Char) (rest : List Char) : (first c rest).text <+: c :: rest := by
  unfold first
  split
  · exact List.prefix_cons_inj c |>.mpr (List.takeWhile_prefix _)
  split
  · exact List.prefix_cons_inj c |>.mpr (List.takeWhile_prefix _)
  split
  · refine ⟨(rest.dropWhile Char.isDigit).drop (fraction (rest.dropWhile Char.isDigit)).length, ?_⟩
    simp [text, fraction_append_drop, List.takeWhile_append_dropWhile]
  split
  · split
    · exact List.prefix_rfl
    · rename_i quote more h
      refine ⟨more, ?_⟩
      simp [text, ← h, List.takeWhile_append_dropWhile]
  split
  · exact List.prefix_cons_inj c |>.mpr (List.takeWhile_prefix _)
  split
  · exact ⟨rest, rfl⟩
  · split
    · rename_i h
      cases rest with
      | nil => simp at h
      | cons d more =>
        obtain rfl : d = '=' := by simpa using h
        exact ⟨more, rfl⟩
    · exact ⟨rest, rfl⟩

/-- The first piece takes at least the first character. -/
theorem first_text_ne_nil (c : Char) (rest : List Char) : (first c rest).text ≠ [] := by
  unfold first
  repeat' split
  all_goals simp [text]

theorem length_drop_first_lt (c : Char) (rest : List Char) :
    ((c :: rest).drop (first c rest).text.length).length < (c :: rest).length := by
  have := List.length_pos_iff.mpr (first_text_ne_nil c rest)
  simp only [List.length_drop, List.length_cons]
  omega

/-- The pieces of a text. -/
def split : List Char → List Piece
  | [] => []
  | c :: rest => first c rest :: split ((c :: rest).drop (first c rest).text.length)
termination_by cs => cs.length
decreasing_by exact length_drop_first_lt c rest

/-- The pieces put together are the text again. -/
theorem flatMap_text_split (cs : List Char) : (split cs).flatMap text = cs := by
  fun_induction split cs with
  | case1 => rfl
  | case2 c rest ih =>
    rw [List.flatMap_cons, ih]
    exact List.prefix_iff_eq_append.mp (first_isPrefix c rest)

/-- The number of line feeds in a piece. -/
def lineFeeds (p : Piece) : Nat :=
  p.text.count '\n'

end Piece

end LoxCore
