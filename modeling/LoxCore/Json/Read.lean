import LoxCore.Json
import LoxCore.Table

/-!
Reading JSON text. The grammar is the strict one, with the words `NaN`, `Infinity` and `-Infinity`
as further numbers. Of two fields with one name the later counts. Arrays and objects may nest only
to a given depth, and the digits of an integer are limited.
-/
namespace LoxCore.Json

/-- Why a text cannot be read. -/
inductive Fault where
  | malformed
  | tooDeep
  /-- An integer has more digits than are read. -/
  | tooManyDigits (count : Nat)
deriving DecidableEq, Repr

def isBlank (c : Char) : Bool :=
  c = ' ' || c = '\t' || c = '\r' || c = '\n'

def skipBlank (cs : List Char) : List Char :=
  cs.dropWhile isBlank

theorem length_skipBlank_le (cs : List Char) : (skipBlank cs).length ≤ cs.length :=
  (List.dropWhile_suffix isBlank).length_le

/-! Strings. -/

def hexValue? (c : Char) : Option Nat :=
  if c.isDigit then some (c.toNat - '0'.toNat)
  else if 'a' ≤ c ∧ c ≤ 'f' then some (c.toNat - 'a'.toNat + 10)
  else if 'A' ≤ c ∧ c ≤ 'F' then some (c.toNat - 'A'.toNat + 10)
  else none

def hexValues? : List Char → Option Nat
  | [] => some 0
  | c :: rest =>
    match hexValue? c, hexValues? rest with
    | some high, some low => some (high * 16 ^ rest.length + low)
    | _, _ => none

/-- The character that a letter stands for after a backslash. -/
def unescaped? : Char → Option Char
  | '"' => some '"'
  | '\\' => some '\\'
  | '/' => some '/'
  | 'b' => some '\x08'
  | 'f' => some '\x0c'
  | 'n' => some '\n'
  | 'r' => some '\r'
  | 't' => some '\t'
  | _ => none

/-- The code units of a string up to its closing quote, and what follows that. Characters stand for
themselves, escapes for units of sixteen bits. -/
def units : List Char → Option (List Nat × List Char)
  | '"' :: rest => some ([], rest)
  | '\\' :: 'u' :: a :: b :: c :: d :: rest =>
    match hexValues? [a, b, c, d], units rest with
    | some unit, some (more, after) => some (unit :: more, after)
    | _, _ => none
  | '\\' :: e :: rest =>
    match unescaped? e, units rest with
    | some c, some (more, after) => some (c.toNat :: more, after)
    | _, _ => none
  | c :: rest =>
    if c.toNat < 32 then none
    else
      match units rest with
      | some (more, after) => some (c.toNat :: more, after)
      | none => none
  | [] => none

/-- The characters of some code units. A high and a low surrogate are one character; a surrogate on
its own is none, and the replacement character stands in its place. -/
def joinUnits : List Nat → List Char
  | [] => []
  | unit :: rest =>
    match rest with
    | low :: more =>
      if 0xd800 ≤ unit ∧ unit < 0xdc00 ∧ 0xdc00 ≤ low ∧ low < 0xe000 then
        Char.ofNat (0x10000 + (unit - 0xd800) * 0x400 + (low - 0xdc00)) :: joinUnits more
      else single unit :: joinUnits (low :: more)
    | [] => [single unit]
where
  single (unit : Nat) : Char :=
    if 0xd800 ≤ unit ∧ unit < 0xe000 then '\ufffd' else Char.ofNat unit

/-- A string after its opening quote. -/
def readString (cs : List Char) : Option (String × List Char) :=
  (units cs).map fun (found, rest) => (String.ofList (joinUnits found), rest)

theorem length_units_lt {cs : List Char} {found : List Nat} {rest : List Char}
    (h : units cs = some (found, rest)) : rest.length < cs.length := by
  fun_induction units cs generalizing found rest with
  | case1 tail =>
    simp only [Option.some.injEq, Prod.mk.injEq] at h
    simp [h.2]
  | case2 a b c d tail unit more after hunits _ ih =>
    simp only [Option.some.injEq, Prod.mk.injEq] at h
    have := ih hunits
    simp only [List.length_cons, ← h.2]
    omega
  | case4 e tail _ c more after hunits _ ih =>
    simp only [Option.some.injEq, Prod.mk.injEq] at h
    have := ih hunits
    simp only [List.length_cons, ← h.2]
    omega
  | case7 c tail _ _ _ _ more after hunits ih =>
    simp only [Option.some.injEq, Prod.mk.injEq] at h
    have := ih hunits
    simp only [List.length_cons, ← h.2]
    omega
  | _ => simp at h

theorem length_readString_lt {cs : List Char} {s : String} {rest : List Char}
    (h : readString cs = some (s, rest)) : rest.length < cs.length := by
  simp only [readString, Option.map_eq_some_iff, Prod.mk.injEq] at h
  obtain ⟨⟨found, tail⟩, hunits, _, rfl⟩ := h
  exact length_units_lt hunits

/-! Numbers. -/

/-- The digits at the front. -/
def leadingDigits (cs : List Char) : List Char × List Char :=
  (cs.takeWhile Char.isDigit, cs.dropWhile Char.isDigit)

/-- The whole part of a number: a zero alone, or digits that start with none. -/
def readWhole : List Char → Option (List Char × List Char)
  | [] => none
  | c :: rest =>
    if c = '0' then some ([c], rest)
    else if c.isDigit then some (c :: (leadingDigits rest).1, (leadingDigits rest).2)
    else none

/-- A point and the digits after it, if there are any. -/
def readFraction : List Char → Option (List Char) × List Char
  | '.' :: rest =>
    match leadingDigits rest with
    | ([], _) => (none, '.' :: rest)
    | (digits, after) => (some digits, after)
  | cs => (none, cs)

/-- An exponent with its sign, if it has digits. -/
def readExponent : List Char → Option Int × List Char
  | [] => (none, [])
  | e :: rest =>
    if e = 'e' ∨ e = 'E' then
      let (negative, unsigned) := match rest with
        | '-' :: more => (true, more)
        | '+' :: more => (false, more)
        | more => (false, more)
      match leadingDigits unsigned with
      | ([], _) => (none, e :: rest)
      | (digits, after) =>
        let n : Int := Decimal.digitsValue digits
        (some (if negative then -n else n), after)
    else (none, e :: rest)

/-- The number of digits that an integer may have. -/
def digitLimit : Nat := 4300

/-- The value of a number from its parts. Without a fraction and an exponent it is an integer. -/
def ofParts (negative : Bool) (whole : List Char) (fraction : Option (List Char))
    (power : Option Int) : Except Fault Json :=
  match fraction, power with
  | none, none =>
    if digitLimit < whole.length then .error (.tooManyDigits whole.length)
    else
      let n : Int := Decimal.digitsValue whole
      .ok (integer (if negative then -n else n))
  | _, _ =>
    .ok (number (Decimal.toFloat negative
      (Decimal.ofDigits whole (fraction.getD []) (power.getD 0))))

/-- A number after its sign. -/
def readUnsigned (negative : Bool) (cs : List Char) : Except Fault (Json × List Char) :=
  match readWhole cs with
  | none => .error .malformed
  | some (whole, afterWhole) =>
    let (fraction, afterFraction) := readFraction afterWhole
    let (power, rest) := readExponent afterFraction
    (ofParts negative whole fraction power).map fun j => (j, rest)

theorem length_dropDigits_le (cs : List Char) :
    (cs.dropWhile Char.isDigit).length ≤ cs.length :=
  (List.dropWhile_suffix Char.isDigit).length_le

theorem length_readWhole_lt {cs whole rest : List Char} (h : readWhole cs = some (whole, rest)) :
    rest.length < cs.length := by
  unfold readWhole at h
  split at h
  · cases h
  · rename_i c tail
    split at h
    · cases h
      exact Nat.lt_succ_self _
    · split at h
      · cases h
        exact Nat.lt_succ_of_le (length_dropDigits_le tail)
      · cases h

theorem length_readFraction_le (cs : List Char) : (readFraction cs).2.length ≤ cs.length := by
  unfold readFraction
  split
  · rename_i rest
    simp only [leadingDigits]
    split
    · exact Nat.le_refl _
    · rename_i digits after _ h
      cases h
      exact Nat.le_succ_of_le (length_dropDigits_le rest)
  · exact Nat.le_refl _

theorem length_readExponent_le (cs : List Char) : (readExponent cs).2.length ≤ cs.length := by
  unfold readExponent
  split
  · exact Nat.le_refl _
  · rename_i e rest
    split
    · simp only [leadingDigits]
      split
      · exact Nat.le_refl _
      · rename_i digits after _ h
        cases h
        refine Nat.le_trans (length_dropDigits_le _) ?_
        split <;> simp only [List.length_cons] <;> omega
    · exact Nat.le_refl _

theorem length_readUnsigned_lt {negative : Bool} {cs rest : List Char} {j : Json}
    (h : readUnsigned negative cs = .ok (j, rest)) : rest.length < cs.length := by
  unfold readUnsigned at h
  split at h
  · cases h
  · rename_i whole afterWhole hwhole
    have h₁ := length_readWhole_lt hwhole
    have h₂ := length_readFraction_le afterWhole
    have h₃ := length_readExponent_le (readFraction afterWhole).2
    cases hparts : ofParts negative whole (readFraction afterWhole).1
        (readExponent (readFraction afterWhole).2).1 with
    | error fault =>
      simp only [hparts] at h
      cases h
    | ok value =>
      simp only [hparts] at h
      cases h
      exact Nat.lt_of_le_of_lt (Nat.le_trans h₃ h₂) h₁

/-! Values. -/

/-- The words that are values, with their values. -/
def words : List (List Char × Json) :=
  [(['n', 'u', 'l', 'l'], null),
    (['t', 'r', 'u', 'e'], bool true),
    (['f', 'a', 'l', 's', 'e'], bool false),
    (['N', 'a', 'N'], number (Float.ofBits 0x7ff8000000000000)),
    (['I', 'n', 'f', 'i', 'n', 'i', 't', 'y'], number (Double.ofMagnitude false Double.infinityBits)),
    (['-', 'I', 'n', 'f', 'i', 'n', 'i', 't', 'y'],
      number (Double.ofMagnitude true Double.infinityBits))]

/-- A word or a number. -/
def readPlain (cs : List Char) : Except Fault (Json × List Char) :=
  match words.find? fun entry => entry.1.isPrefixOf cs with
  | some (word, j) => .ok (j, cs.drop word.length)
  | none =>
    match cs with
    | '-' :: rest => readUnsigned true rest
    | _ => readUnsigned false cs

theorem words_pos {word : List Char} {j : Json} (h : (word, j) ∈ words) : 0 < word.length := by
  simp only [words, List.mem_cons, Prod.mk.injEq, List.not_mem_nil, or_false] at h
  rcases h with h | h | h | h | h | h <;> simp [h.1]

theorem length_readPlain_lt {cs rest : List Char} {j : Json}
    (h : readPlain cs = .ok (j, rest)) : rest.length < cs.length := by
  unfold readPlain at h
  split at h
  · rename_i word j' hfind
    cases h
    have hpos := words_pos (List.mem_of_find?_eq_some hfind)
    have hword := List.find?_some hfind
    have hle : word.length ≤ cs.length := (List.isPrefixOf_iff_prefix.mp hword).length_le
    simp only [List.length_drop]
    omega
  · split at h
    · exact Nat.lt_succ_of_lt (length_readUnsigned_lt h)
    · exact length_readUnsigned_lt h

/-- A way to read a value at the front of a text. -/
structure Reader where
  read : List Char → Except Fault (Json × List Char)
  shorter : ∀ cs j rest, read cs = .ok (j, rest) → rest.length < cs.length

/-- The items of an array from the first on, up to the closing bracket. -/
def readItems (item : Reader) (cs : List Char) : Except Fault (List Json × List Char) :=
  match _outcome : item.read cs with
  | .error fault => .error fault
  | .ok (j, rest) =>
    match _after : skipBlank rest with
    | ',' :: more =>
      match readItems item (skipBlank more) with
      | .error fault => .error fault
      | .ok (items, left) => .ok (j :: items, left)
    | ']' :: more => .ok ([j], more)
    | _ => .error .malformed
termination_by cs.length
decreasing_by
  have h₁ := item.shorter _ _ _ _outcome
  have h₂ := length_skipBlank_le rest
  have h₃ := length_skipBlank_le more
  rw [_after, List.length_cons] at h₂
  omega

/-- The fields of an object from the first on, up to the closing brace, set one after the other. -/
def readFields (value : Reader) (fields : List (String × Json)) (cs : List Char) :
    Except Fault (List (String × Json) × List Char) :=
  match cs with
  | '"' :: text =>
    match _name : readString text with
    | none => .error .malformed
    | some (name, afterName) =>
      match _colon : skipBlank afterName with
      | ':' :: beforeValue =>
        match _outcome : value.read (skipBlank beforeValue) with
        | .error fault => .error fault
        | .ok (j, rest) =>
          match _after : skipBlank rest with
          | ',' :: more => readFields value (Table.set name j fields) (skipBlank more)
          | '\x7d' :: more => .ok (Table.set name j fields, more)
          | _ => .error .malformed
      | _ => .error .malformed
  | _ => .error .malformed
termination_by cs.length
decreasing_by
  have h₁ := length_readString_lt _name
  have h₂ := length_skipBlank_le afterName
  have h₃ := value.shorter _ _ _ _outcome
  have h₄ := length_skipBlank_le rest
  have h₅ := length_skipBlank_le more
  have h₆ := length_skipBlank_le beforeValue
  rw [_colon, List.length_cons] at h₂
  rw [_after, List.length_cons] at h₄
  simp only [List.length_cons]
  omega

theorem length_readItems_lt (item : Reader) (cs : List Char) {items : List Json}
    {left : List Char} (h : readItems item cs = .ok (items, left)) : left.length < cs.length := by
  fun_induction readItems item cs generalizing items left with
  | case3 cs j rest hread more hafter items' left' hmore ih =>
    cases h
    have h₀ := ih hmore
    have h₁ := item.shorter _ _ _ hread
    have h₂ := length_skipBlank_le rest
    have h₃ := length_skipBlank_le more
    rw [hafter, List.length_cons] at h₂
    omega
  | case4 cs j rest hread more hafter =>
    cases h
    have h₁ := item.shorter _ _ _ hread
    have h₂ := length_skipBlank_le rest
    rw [hafter, List.length_cons] at h₂
    omega
  | _ => cases h

theorem length_readFields_lt (value : Reader) (fields : List (String × Json)) (cs : List Char)
    {found : List (String × Json)} {left : List Char}
    (h : readFields value fields cs = .ok (found, left)) : left.length < cs.length := by
  fun_induction readFields value fields cs with
  | case3 fields text name afterName hname beforeValue hcolon j rest hread more hafter ih =>
    have h₀ := ih h
    have h₁ := length_readString_lt hname
    have h₂ := length_skipBlank_le afterName
    have h₃ := value.shorter _ _ _ hread
    have h₄ := length_skipBlank_le rest
    have h₅ := length_skipBlank_le more
    have h₆ := length_skipBlank_le beforeValue
    rw [hcolon, List.length_cons] at h₂
    rw [hafter, List.length_cons] at h₄
    simp only [List.length_cons]
    omega
  | case4 fields text name afterName hname beforeValue hcolon j rest hread more hafter =>
    cases h
    have h₁ := length_readString_lt hname
    have h₂ := length_skipBlank_le afterName
    have h₃ := value.shorter _ _ _ hread
    have h₄ := length_skipBlank_le rest
    have h₆ := length_skipBlank_le beforeValue
    rw [hcolon, List.length_cons] at h₂
    rw [hafter, List.length_cons] at h₄
    simp only [List.length_cons]
    omega
  | _ => cases h

/-- A value whose items and fields are read by another reader. -/
def readValue (inner : Reader) : List Char → Except Fault (Json × List Char)
  | '"' :: text =>
    match readString text with
    | some (s, rest) => .ok (string s, rest)
    | none => .error .malformed
  | '[' :: text =>
    match skipBlank text with
    | ']' :: rest => .ok (array [], rest)
    | start => (readItems inner start).map fun (items, rest) => (array items, rest)
  | '\x7b' :: text =>
    match skipBlank text with
    | '\x7d' :: rest => .ok (object [], rest)
    | start => (readFields inner [] start).map fun (fields, rest) => (object fields, rest)
  | cs => readPlain cs

theorem length_readValue_lt (inner : Reader) {cs rest : List Char} {j : Json}
    (h : readValue inner cs = .ok (j, rest)) : rest.length < cs.length := by
  unfold readValue at h
  split at h
  · split at h
    · rename_i hstring
      cases h
      exact Nat.lt_succ_of_lt (length_readString_lt hstring)
    · cases h
  · rename_i text
    have blank := length_skipBlank_le text
    split at h
    · rename_i hstart
      cases h
      rw [hstart, List.length_cons] at blank
      simp only [List.length_cons]
      omega
    · cases hitems : readItems inner (skipBlank text) with
      | error fault =>
        rw [hitems] at h
        cases h
      | ok found =>
        rw [hitems] at h
        cases h
        have := length_readItems_lt inner _ hitems
        simp only [List.length_cons]
        omega
  · rename_i text
    have blank := length_skipBlank_le text
    split at h
    · rename_i hstart
      cases h
      rw [hstart, List.length_cons] at blank
      simp only [List.length_cons]
      omega
    · cases hfields : readFields inner [] (skipBlank text) with
      | error fault =>
        rw [hfields] at h
        cases h
      | ok found =>
        rw [hfields] at h
        cases h
        have := length_readFields_lt inner [] _ hfields
        simp only [List.length_cons]
        omega
  · exact length_readPlain_lt h

/-- No value at all, because no deeper level is left. -/
def Reader.tooDeep : Reader where
  read _ := .error .tooDeep
  shorter _ _ _ h := by cases h

/-- Values whose arrays and objects nest at most `depth` deep. -/
def Reader.ofDepth : Nat → Reader
  | 0 => ⟨readValue .tooDeep, fun _ _ _ => length_readValue_lt _⟩
  | depth + 1 => ⟨readValue (Reader.ofDepth depth), fun _ _ _ => length_readValue_lt _⟩

/-- The one value of a whole text, with blanks around it. -/
def readTo (depth : Nat) (s : String) : Except Fault Json :=
  match (Reader.ofDepth depth).read (skipBlank s.toList) with
  | .error fault => .error fault
  | .ok (j, rest) => if skipBlank rest = [] then .ok j else .error .malformed

end LoxCore.Json
