import LoxCore.Text.Lines
import LoxCore.Proofs.Json.Restore

/-!
The written form of a value has no carriage return, so it comes back from a file as it went in.
-/
namespace LoxCore

namespace Text

theorem fromUTF8?_toUTF8 (s : String) : String.fromUTF8? s.toUTF8 = some s := by
  rw [String.fromUTF8?, String.toUTF8_eq_toByteArray, dif_pos s.isValidUTF8]
  rfl

theorem unifyBreaks_of_not_mem {cs : List Char} (h : '\r' ∉ cs) : unifyBreaks cs = cs := by
  fun_induction unifyBreaks cs with
  | case1 => rfl
  | case2 rest ih => simp at h
  | case3 rest hrest ih => simp at h
  | case4 c rest hcr hc ih =>
    rw [ih]
    intro hmem
    exact h (List.mem_cons_of_mem c hmem)

/-- A text without carriage returns comes back from its bytes. -/
theorem decode?_toUTF8 {s : String} (h : '\r' ∉ s.toList) : decode? s.toUTF8 = some s := by
  rw [decode?, fromUTF8?_toUTF8, Option.map_some, unifyBreaks_of_not_mem h, String.ofList_toList]

end Text

/-- The characters of a numeral. -/
theorem Numeral.mem_text {n : Numeral} {c : Char} (h : c ∈ n.text) :
    c.isDigit ∨ c ∈ ['.', 'e', '+', '-'] := by
  rcases List.mem_append.mp h with h | h
  · rcases List.mem_append.mp h with h | h
    · exact .inl (n.isDigit_whole c h)
    · cases hfraction : n.fraction with
      | none =>
        rw [hfraction] at h
        cases h
      | some digits =>
        rw [hfraction] at h
        rcases List.mem_cons.mp h with rfl | h
        · exact .inr (by decide)
        · exact .inl (n.isDigit_fraction digits hfraction c h)
  · cases hpower : n.power with
    | none =>
      rw [hpower] at h
      cases h
    | some e =>
      rw [hpower] at h
      obtain ⟨digits, -, hdigits, -, htext⟩ := Json.exponentText_eq e
      rcases List.mem_cons.mp h with rfl | h
      · exact .inr (by decide)
      · rw [htext] at h
        rcases List.mem_cons.mp h with rfl | h
        · right
          split <;> decide
        · exact .inl (hdigits c h)

theorem Numeral.not_mem_return (n : Numeral) : '\r' ∉ n.text := by
  intro h
  have hclass := n.mem_text h
  revert hclass
  decide

namespace Json

theorem not_mem_integerText (n : ℤ) : '\r' ∉ integerText n := by
  have hdigits : '\r' ∉ Decimal.digits n.natAbs := by
    intro h
    exact absurd (Decimal.isDigit_of_mem_digits h) (by decide)
  unfold integerText
  split <;> simp [hdigits]

theorem not_mem_numbers (x : Float) : '\r' ∉ (numbers.write x).toList := by
  have hsign : ∀ negative, '\r' ∉ NumberLayout.signText negative := by decide
  have hwrites := NumberLayout.writesNumber_write numbers (.inr rfl) x
  generalize (numbers.write x).toList = text at hwrites
  cases hwrites with
  | nan => simp [numbers]
  | infinity negative => simp [numbers, hsign]
  | @numeral negative d n hn => simp [hsign, n.not_mem_return]

theorem not_mem_quoted (s : String) : '\r' ∉ quoted s := by
  have hescaped : ∀ c, '\r' ∉ escaped c := by
    intro c hmem
    rcases escaped_cases c with ⟨letter, hletter, hc, htext⟩ | ⟨hcontrol, htext⟩ |
      ⟨-, -, hcontrol, htext⟩
    · rw [htext] at hmem
      obtain rfl : letter = '\r' := by simpa [eq_comm] using hmem
      cases hc
    · have hdigits : ∀ n < 32, '\r' ∉
          ['\\', 'u', '0', '0', hexDigit (n / 16), hexDigit (n % 16)] := by
        decide
      rw [htext] at hmem
      exact hdigits _ hcontrol hmem
    · rw [htext, List.mem_singleton] at hmem
      subst hmem
      exact hcontrol (by decide)
  simp [quoted, hescaped]

theorem not_mem_newLine (level : ℕ) : '\r' ∉ newLine level := by
  simp [newLine]

mutual

theorem not_mem_layout (level : ℕ) : ∀ j, '\r' ∉ layout level j
  | null => by simp [layout]
  | bool b => by cases b <;> simp [layout]
  | integer n => by
    rw [layout]
    exact not_mem_integerText n
  | number x => by
    rw [layout]
    exact not_mem_numbers x
  | string s => by
    rw [layout]
    exact not_mem_quoted s
  | array [] => by simp [layout]
  | array (item :: more) => by
    have hitem := not_mem_layout (level + 1) item
    have hmore := not_mem_layoutItems (level + 1) more
    simp [layout, hitem, hmore, not_mem_newLine]
  | object [] => by simp [layout]
  | object ((name, value) :: more) => by
    have hvalue := not_mem_layout (level + 1) value
    have hmore := not_mem_layoutFields (level + 1) more
    simp [layout, hvalue, hmore, not_mem_newLine, not_mem_quoted]

theorem not_mem_layoutItems (level : ℕ) : ∀ items, '\r' ∉ layoutItems level items
  | [] => by simp [layoutItems]
  | item :: more => by
    have hitem := not_mem_layout level item
    have hmore := not_mem_layoutItems level more
    simp [layoutItems, hitem, hmore, not_mem_newLine]

theorem not_mem_layoutFields (level : ℕ) : ∀ fields, '\r' ∉ layoutFields level fields
  | [] => by simp [layoutFields]
  | (name, value) :: more => by
    have hvalue := not_mem_layout level value
    have hmore := not_mem_layoutFields level more
    simp [layoutFields, hvalue, hmore, not_mem_newLine, not_mem_quoted]

end

/-- The written form of a value comes back from its bytes. -/
theorem decode?_write (j : Json) : Text.decode? j.write.toUTF8 = some j.write := by
  apply Text.decode?_toUTF8
  rw [write, String.toList_ofList]
  exact not_mem_layout 0 j

end Json

end LoxCore
