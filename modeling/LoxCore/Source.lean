import LoxCore.Token.Scan
import LoxCore.Grammar.Program

/-!
Source text as programs. A text with any error, of scanning or of grammar, is no program.
-/
namespace LoxCore

/-- What was found in a source text. -/
structure Source where
  scanErrors : List Diagnostic
  /-- The statements that can be read, even if the text has errors. -/
  statements : List Node
  grammarErrors : List Diagnostic

namespace Source

/-- Scan a text and read its tokens. -/
def ofText (text : String) : Source :=
  let scan := Scan.ofSource text
  let program := Program.ofTokens scan.tokens
  ⟨scan.errors, program.statements, program.errors⟩

/-- Every error, in the order of lines. Errors on one line stay in the order in which they were
found, those of scanning first. -/
def errors (source : Source) : List Diagnostic :=
  (source.scanErrors ++ source.grammarErrors).mergeSort fun a b => decide (a.line ≤ b.line)

theorem errors_eq_nil_iff (source : Source) :
    source.errors = [] ↔ source.scanErrors = [] ∧ source.grammarErrors = [] := by
  rw [← List.length_eq_zero_iff, errors, List.length_mergeSort, List.length_eq_zero_iff,
    List.append_eq_nil_iff]

/-- The statements of a text without errors, else all its errors. -/
def check (text : String) : Except (List Diagnostic) (List Node) :=
  let source := ofText text
  match source.errors with
  | [] => .ok source.statements
  | found => .error found

theorem check_eq_ok_iff {text : String} {statements : List Node} :
    check text = .ok statements ↔ ofText text = ⟨[], statements, []⟩ := by
  have herrors := errors_eq_nil_iff (ofText text)
  simp only [check]
  cases hsource : ofText text with
  | mk scanErrors found grammarErrors =>
    rw [hsource] at herrors
    split
    · rename_i hnil
      obtain ⟨rfl, rfl⟩ := herrors.mp hnil
      simp
    · rename_i hne
      simp only [reduceCtorEq, mk.injEq, false_iff]
      rintro ⟨rfl, -, rfl⟩
      exact hne (herrors.mpr ⟨rfl, rfl⟩)

/-- The statements of a text without errors, else its first error of scanning, or of grammar if
scanning had none. -/
def program (text : String) : Except Diagnostic (List Node) :=
  let source := ofText text
  match source.scanErrors, source.grammarErrors with
  | first :: _, _ => .error first
  | [], first :: _ => .error first
  | [], [] => .ok source.statements

end Source

end LoxCore
