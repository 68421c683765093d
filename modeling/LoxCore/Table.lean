/-!
Tables from keys to values, held as lists of entries in the order in which their keys first came up.
The value of a key is the one that `List.lookup` finds.
-/
namespace LoxCore.Table

variable {κ α : Type} [BEq κ]

/-- Set the value of a key. A key that is there already keeps its place. -/
def set (key : κ) (value : α) : List (κ × α) → List (κ × α)
  | [] => [(key, value)]
  | (other, old) :: rest =>
    if other == key then (key, value) :: rest else (other, old) :: set key value rest

/-- A setting is seen under its own key and under no other. -/
theorem lookup_set [LawfulBEq κ] (key other : κ) (value : α) (entries : List (κ × α)) :
    (set key value entries).lookup other =
      if other == key then some value else entries.lookup other := by
  induction entries with
  | nil => cases h : other == key <;> simp [set, List.lookup_cons, h]
  | cons entry rest ih =>
    obtain ⟨first, old⟩ := entry
    by_cases hset : first = key
    · subst hset
      cases h : other == first <;> simp [set, List.lookup_cons, h]
    · have hne : (first == key) = false := beq_eq_false_iff_ne.mpr hset
      by_cases h : other = first
      · subst h
        simp [set, hne]
      · have hother : (other == first) = false := beq_eq_false_iff_ne.mpr h
        simp [set, hne, List.lookup_cons, hother, ih]

end LoxCore.Table
