import LoxCore.CommandLine.Run
import Mathlib

/-!
What is written to a path is found there afterwards, and no other file changes. The saved tree of a
script that is found can always be written beside it, unless its name gets too long.
-/
namespace LoxCore

/-- Setting a key adds it and keeps all others. -/
theorem Table.mem_keys_set {κ α : Type} [BEq κ] [LawfulBEq κ] (key other : κ) (value : α)
    (entries : List (κ × α)) : other ∈ (Table.set key value entries).map Prod.fst ↔
      other = key ∨ other ∈ entries.map Prod.fst := by
  induction entries with
  | nil => simp [Table.set]
  | cons entry rest ih =>
    obtain ⟨first, old⟩ := entry
    by_cases h : first = key
    · simp [Table.set, h]
    · have hne : (first == key) = false := beq_eq_false_iff_ne.mpr h
      rw [Table.set, hne]
      simp only [Bool.false_eq_true, if_false, List.map_cons, List.mem_cons, ih]
      tauto

namespace CommandLine

namespace Files

variable {files : Files}

/-! Directories. -/

theorem isDirectory_iff (names : List String) : files.isDirectory names = true ↔
    names = [] ∨ ∃ key ∈ files.entries.map Prod.fst, names <+: key ∧ key.length ≠ names.length := by
  simp [isDirectory]

/-- What is on the way to a directory is a directory. -/
theorem isDirectory_of_isPrefix {names outer : List String} (h : files.isDirectory names = true)
    (houter : outer <+: names) : files.isDirectory outer = true := by
  rw [isDirectory_iff] at h ⊢
  rcases h with rfl | ⟨key, hkey, hnames, hlength⟩
  · exact .inl (List.prefix_nil.mp houter)
  · refine .inr ⟨key, hkey, houter.trans hnames, ?_⟩
    have h₁ := hnames.length_le
    have h₂ := houter.length_le
    omega

/-- The files after a text is written to a place. -/
def withText (files : Files) (names : List String) (text : String) : Files :=
  ⟨Table.set names text.toUTF8 files.entries⟩

theorem isDirectory_withText {names : List String} (h : files.isDirectory names = true)
    (target : List String) (text : String) :
    (files.withText target text).isDirectory names = true := by
  rw [isDirectory_iff] at h ⊢
  rcases h with rfl | ⟨key, hkey, hnames⟩
  · exact .inl rfl
  · exact .inr ⟨key, (Table.mem_keys_set _ _ _ _).mpr (.inr hkey), hnames⟩

/-- A file written into a directory makes no new directory. -/
theorem isDirectory_of_withText {directory names : List String} {name text : String}
    (hdirectory : files.isDirectory directory = true)
    (h : (files.withText (directory ++ [name]) text).isDirectory names = true) :
    files.isDirectory names = true := by
  rw [isDirectory_iff] at h
  rcases h with rfl | ⟨key, hkey, hnames, hlength⟩
  · rw [isDirectory_iff]
    exact .inl rfl
  rcases (Table.mem_keys_set _ _ _ _).mp hkey with rfl | hkey
  · apply isDirectory_of_isPrefix hdirectory
    rcases List.prefix_concat_iff.mp hnames with rfl | hnames
    · exact absurd rfl hlength
    · exact hnames
  · rw [isDirectory_iff]
    exact .inr ⟨key, hkey, hnames, hlength⟩

/-! Following names. -/

/-- The place is outside the tree, or one of its directories. -/
def Reaches (files : Files) : Place → Prop
  | .within names => files.isDirectory names = true
  | .outside => True

theorem reaches_root (files : Files) : files.Reaches (.within []) :=
  (isDirectory_iff []).mpr (.inl rfl)

theorem reaches_parent {place : Place} (h : files.Reaches place) : files.Reaches place.parent := by
  cases place with
  | outside => exact trivial
  | within names =>
    cases names with
    | nil => exact trivial
    | cons name rest => exact isDirectory_of_isPrefix h (List.dropLast_prefix _)

theorem follow_cons (files : Files) (directory : Place) (name : String) (rest : List String) :
    files.follow directory (name :: rest) =
      if name = ".." then files.follow directory.parent rest
      else if nameLimit < name.utf8ByteSize then .error .nameTooLong
      else
        match directory with
        | .outside => .error .missing
        | .within names =>
          if rest = [] ∨ files.isDirectory (names ++ [name]) then
            files.follow (.within (names ++ [name])) rest
          else .error .missing := by
  cases directory <;> rfl

/-- Where some names lead into the tree, another last name leads into the same directory. -/
theorem follow_last {directory : Place} (hdirectory : files.Reaches directory)
    {before : List String} {last : String} {found : List String}
    (h : files.follow directory (before ++ [last]) = .ok (.within found)) {name : String}
    (hname : name ≠ "..") : ∃ around, files.isDirectory around = true ∧
      files.follow directory (before ++ [name]) =
        if nameLimit < name.utf8ByteSize then .error .nameTooLong
        else .ok (.within (around ++ [name])) := by
  induction before generalizing directory with
  | nil =>
    cases directory with
    | outside =>
      simp only [List.nil_append, follow, Place.parent] at h
      split at h
      · cases h
      · split at h <;> cases h
    | within names =>
      refine ⟨names, hdirectory, ?_⟩
      simp [follow, hname]
  | cons first rest ih =>
    rw [List.cons_append, follow_cons] at h ⊢
    by_cases hup : first = ".."
    · rw [if_pos hup] at h ⊢
      exact ih (reaches_parent hdirectory) h
    rw [if_neg hup] at h ⊢
    by_cases hlong : nameLimit < first.utf8ByteSize
    · rw [if_pos hlong] at h
      cases h
    rw [if_neg hlong] at h ⊢
    cases directory with
    | outside => cases h
    | within names =>
      have hmore : ∀ name : String, rest ++ [name] ≠ [] := by simp
      simp only [hmore, false_or] at h ⊢
      by_cases hnames : files.isDirectory (names ++ [first]) = true
      · rw [if_pos hnames] at h ⊢
        exact ih hnames h
      · rw [if_neg hnames] at h
        cases h

/-- With more directories, names still lead where they led. -/
theorem follow_mono {after : Files}
    (hmono : ∀ names, files.isDirectory names = true → after.isDirectory names = true)
    {directory place : Place} {names : List String}
    (h : files.follow directory names = .ok place) : after.follow directory names = .ok place := by
  induction names generalizing directory with
  | nil => exact h
  | cons first rest ih =>
    rw [follow_cons] at h ⊢
    by_cases hup : first = ".."
    · rw [if_pos hup] at h ⊢
      exact ih h
    rw [if_neg hup] at h ⊢
    by_cases hlong : nameLimit < first.utf8ByteSize
    · rw [if_pos hlong] at h
      cases h
    rw [if_neg hlong] at h ⊢
    cases directory with
    | outside => cases h
    | within names =>
      by_cases hnames : rest = [] ∨ files.isDirectory (names ++ [first]) = true
      · have hafter : rest = [] ∨ after.isDirectory (names ++ [first]) = true :=
          hnames.imp_right (hmono _)
        simp only [hnames, hafter, if_true] at h ⊢
        exact ih h
      · simp only [hnames, if_false] at h
        cases h

/-! Locating paths. -/

theorem locate_eq_ok {path : Path} {place : Place} (h : files.locate path = .ok place) :
    path.text.toList.contains '\x00' = false ∧ path.text.utf8ByteSize ≤ pathLimit ∧
      files.follow (if path.root = "" then .within [] else .outside) path.parts = .ok place := by
  unfold locate at h
  by_cases hnull : path.text.toList.contains '\x00' = true
  · rw [if_pos hnull] at h
    cases h
  rw [if_neg hnull] at h
  by_cases hlong : pathLimit < path.text.utf8ByteSize
  · rw [if_pos hlong] at h
    cases h
  rw [if_neg hlong] at h
  exact ⟨Bool.not_eq_true _ ▸ hnull, Nat.not_lt.mp hlong, h⟩

theorem locate_mono {after : Files}
    (hmono : ∀ names, files.isDirectory names = true → after.isDirectory names = true)
    {path : Path} {place : Place} (h : files.locate path = .ok place) :
    after.locate path = .ok place := by
  obtain ⟨hnull, hlong, hfollow⟩ := locate_eq_ok h
  rw [locate, hnull, if_neg Bool.false_ne_true, if_neg (Nat.not_lt.mpr hlong),
    follow_mono hmono hfollow]

/-- Outside the tree there is nothing but directories. -/
theorem follow_outside (names found : List String) :
    files.follow .outside names ≠ .ok (.within found) := by
  induction names with
  | nil => nofun
  | cons first rest ih =>
    rw [follow_cons]
    split
    · exact ih
    split <;> nofun

theorem follow_ne_file {directory : Place} {names : List String} {contents : ByteArray} :
    files.follow directory names ≠ .error (.file contents) := by
  induction names generalizing directory with
  | nil => nofun
  | cons first rest ih =>
    rw [follow_cons]
    split
    · exact ih
    split
    · nofun
    split
    · nofun
    · split
      · exact ih
      · nofun

/-- A file is found only inside the tree. -/
theorem exists_follow_of_file {path : Path} {contents : ByteArray}
    (h : files.find path = .file contents) : path.root = "" ∧
      path.text.toList.contains '\x00' = false ∧
      ∃ names, files.follow (.within []) path.parts = .ok (.within names) := by
  unfold find at h
  split at h
  · rename_i finding hlocate
    subst h
    unfold locate at hlocate
    split at hlocate
    · cases hlocate
    split at hlocate
    · cases hlocate
    · exact absurd hlocate follow_ne_file
  · cases h
  · rename_i names hlocate
    obtain ⟨hnull, -, hfollow⟩ := locate_eq_ok hlocate
    by_cases hroot : path.root = ""
    · rw [if_pos hroot] at hfollow
      exact ⟨hroot, hnull, names, hfollow⟩
    · rw [if_neg hroot] at hfollow
      exact absurd hfollow (follow_outside path.parts names)

end Files

/-! The path of the saved tree. -/

namespace Path

theorem parts_lengthen (p : Path) (suffix : String) :
    (p.lengthen suffix).parts = p.parts.dropLast ++ [p.parts.getLastD "" ++ suffix] :=
  rfl

theorem intercalate_append (separator suffix last : String) (parts : List String) :
    separator.intercalate (parts ++ [last ++ suffix]) =
      separator.intercalate (parts ++ [last]) ++ suffix := by
  by_cases hparts : parts = []
  · subst hparts
    simp
  · rw [String.intercalate_append_of_ne_nil hparts (by simp),
      String.intercalate_append_of_ne_nil hparts (by simp), String.intercalate_singleton,
      String.intercalate_singleton, String.append_assoc, String.append_assoc, String.append_assoc]

/-- Lengthening the last name lengthens the text of a path, if it has a name. -/
theorem text_lengthen_of_ne_nil {p : Path} (h : p.parts ≠ []) (suffix : String) :
    (p.lengthen suffix).text = p.text ++ suffix := by
  obtain ⟨before, last, hparts⟩ := (List.eq_nil_or_concat p.parts).resolve_left h
  rw [List.concat_eq_append] at hparts
  simp [text, lengthen, hparts, intercalate_append, String.append_assoc]

theorem text_lengthen (p : Path) (suffix : String) : (p.lengthen suffix).text = p.text ++ suffix ∨
    (p.lengthen suffix).text = p.root ++ suffix := by
  by_cases hparts : p.parts = []
  · right
    simp [text, lengthen, hparts]
  · exact .inl (text_lengthen_of_ne_nil hparts suffix)

end Path

/-- The name of a saved tree is longer than two points. -/
theorem append_savedSuffix_ne (name : String) : name ++ savedSuffix ≠ ".." := by
  intro h
  have hlength := congrArg (fun s => s.toList.length) h
  simp [savedSuffix] at hlength

namespace Files

variable {files : Files} {script : Path} {contents : ByteArray}

/-- The saved tree of a script that is found lies in the directory of the script, if its name is not
too long. -/
theorem locate_saved (h : files.find script = .file contents) :
    files.locate (script.lengthen savedSuffix) = .error .nameTooLong ∨
      ∃ around, files.isDirectory around = true ∧ files.locate (script.lengthen savedSuffix) =
        .ok (.within (around ++ [script.parts.getLastD "" ++ savedSuffix])) := by
  obtain ⟨hroot, hnull, found, hfollow⟩ := exists_follow_of_file h
  have hnull' : (script.lengthen savedSuffix).text.toList.contains '\x00' = false := by
    rcases script.text_lengthen savedSuffix with htext | htext
    · rw [htext, String.toList_append, List.contains_append, hnull]
      decide
    · rw [htext, hroot]
      decide
  have hroot' : (script.lengthen savedSuffix).root = "" := hroot
  have hlast : ∃ around, files.isDirectory around = true ∧
      files.follow (.within []) (script.lengthen savedSuffix).parts =
        if nameLimit < (script.parts.getLastD "" ++ savedSuffix).utf8ByteSize then
          .error .nameTooLong
        else .ok (.within (around ++ [script.parts.getLastD "" ++ savedSuffix])) := by
    rw [Path.parts_lengthen]
    rcases List.eq_nil_or_concat script.parts with hparts | ⟨before, last, hparts⟩
    · have hne : savedSuffix ≠ ".." := by decide
      refine ⟨[], reaches_root files, ?_⟩
      simp [hparts, follow, hne]
    · rw [hparts, List.concat_eq_append] at hfollow
      rw [hparts, List.concat_eq_append, List.dropLast_concat]
      exact follow_last (reaches_root files) hfollow (append_savedSuffix_ne _)
  obtain ⟨around, haround, hfollow'⟩ := hlast
  unfold locate
  rw [hnull', if_neg Bool.false_ne_true, hroot', if_pos rfl, hfollow']
  split
  · exact .inl rfl
  split
  · exact .inl rfl
  · exact .inr ⟨around, haround, rfl⟩

/-! Reading after writing. -/

theorem isDirectory_withText_iff {around : List String} (haround : files.isDirectory around = true)
    (name text : String) (names : List String) :
    (files.withText (around ++ [name]) text).isDirectory names = files.isDirectory names := by
  rw [Bool.eq_iff_iff]
  exact ⟨isDirectory_of_withText haround, fun h => isDirectory_withText h _ text⟩

/-- A text is found where it was written, byte for byte. -/
theorem find_write_self {path : Path} {names : List String} (text : String)
    (h : files.locate path = .ok (.within names)) :
    (files.write path text).find path = .file text.toUTF8 := by
  have hwrite : files.write path text = files.withText names text := by
    simp only [write, h, withText]
  have hlocate : (files.withText names text).locate path = .ok (.within names) :=
    locate_mono (fun _ hnames => isDirectory_withText hnames names text) h
  rw [hwrite, find, hlocate]
  simp [withText, Table.lookup_set]

theorem locate_debugPath (files : Files) :
    files.locate debugPath = .ok (.within ["debug.txt"]) := by
  have htext : debugPath.text = "debug.txt" := by simp [Path.text, debugPath]
  have hpath : ¬pathLimit < "debug.txt".utf8ByteSize := by decide
  have hname : ¬nameLimit < "debug.txt".utf8ByteSize := by decide
  rw [locate, htext, if_neg (by decide), if_neg hpath]
  simp [debugPath, follow, hname]

/-- Writing a saved tree leaves the debug file, or what stands in its place, as it was. -/
theorem find_write_debugPath {path : Path} {around : List String} {name : String} (text : String)
    (haround : files.isDirectory around = true) (hname : name ≠ "debug.txt")
    (h : files.locate path = .ok (.within (around ++ [name]))) :
    (files.write path text).find debugPath = files.find debugPath := by
  have hwrite : files.write path text = files.withText (around ++ [name]) text := by
    simp only [write, h, withText]
  have hne : (["debug.txt"] == around ++ [name]) = false := by
    rw [beq_eq_false_iff_ne]
    intro heq
    have hlast := congrArg List.getLast? heq
    simp [eq_comm, hname] at hlast
  rw [hwrite, find, find, locate_debugPath, locate_debugPath]
  simp only [isDirectory_withText_iff haround]
  simp [withText, Table.lookup_set, hne]

end Files

end CommandLine

end LoxCore
