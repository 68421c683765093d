import LoxCore.Proofs.Json.Scalar

/-!
A value written as JSON is read back as itself, unless a limit of the reader is hit. This asks of the
value only that no object in it has two fields of one name.
-/
namespace LoxCore.Json

/-- No object in the value has two fields of one name. -/
inductive Distinct : Json → Prop where
  | null : Distinct null
  | bool (b : Bool) : Distinct (bool b)
  | integer (n : ℤ) : Distinct (integer n)
  | number (x : Float) : Distinct (number x)
  | string (s : String) : Distinct (string s)
  | array {items : List Json} (hitems : ∀ item ∈ items, Distinct item) : Distinct (array items)
  | object {fields : List (String × Json)} (hnames : (fields.map Prod.fst).Nodup)
      (hfields : ∀ field ∈ fields, Distinct field.2) : Distinct (object fields)

variable {α : Type}

/-- Reading gave a value and what follows it, unless a limit was hit. -/
def Gives (outcome : Except Fault (α × List Char)) (value : α) (rest : List Char) : Prop :=
  outcome = .ok (value, rest) ∨ ∃ fault, outcome = .error fault ∧ fault ≠ .malformed

/-- A reader gives back every value that was written, in whatever depth of indentation. -/
def Reader.Restores (r : Reader) : Prop :=
  ∀ j, Distinct j → ∀ level rest, EndsNumber rest → Gives (r.read (layout level j ++ rest)) j rest

theorem Gives.map {β : Type} {outcome : Except Fault (α × List Char)} {value : α}
    {rest : List Char} (h : Gives outcome value rest) (f : α → β) :
    Gives (outcome.map fun (value, rest) => (f value, rest)) (f value) rest := by
  rcases h with rfl | ⟨fault, rfl, hfault⟩
  · exact .inl rfl
  · exact .inr ⟨fault, rfl, hfault⟩

/-! Blanks. -/

theorem skipBlank_cons {c : Char} (h : isBlank c = false) (rest : List Char) :
    skipBlank (c :: rest) = c :: rest := by
  simp [skipBlank, h]

theorem skipBlank_newLine (level : ℕ) (rest : List Char) :
    skipBlank (newLine level ++ rest) = skipBlank rest := by
  apply List.dropWhile_append_of_pos
  intro c hc
  rcases List.mem_cons.mp hc with rfl | hc
  · rfl
  · obtain rfl := List.eq_of_mem_replicate hc
    rfl

theorem endsNumber_newLine (level : ℕ) (rest : List Char) :
    EndsNumber (newLine level ++ rest) := by
  intro c hc
  obtain rfl := Option.some.inj hc
  decide

theorem endsNumber_comma (rest : List Char) : EndsNumber (',' :: rest) := by
  intro c hc
  obtain rfl := Option.some.inj hc
  decide

/-! The first character of a value. -/

/-- The characters with which no word and no number starts. -/
def delimiters : List Char :=
  ['"', '[', ']', '\x7b', '\x7d', ',', ':', ' ', '\t', '\r', '\n']

theorem readPlain_delimiter : ∀ c ∈ delimiters, ∀ rest,
    readPlain (c :: rest) = .error .malformed := by
  intro c hc rest
  simp only [delimiters, List.mem_cons, List.not_mem_nil, or_false] at hc
  rcases hc with rfl | rfl | rfl | rfl | rfl | rfl | rfl | rfl | rfl | rfl | rfl <;>
    simp [readPlain, words, List.isPrefixOf, readUnsigned, readWhole]

/-- What is read as a word or a number starts with no delimiter. -/
theorem head_of_readPlain {cs : List Char} (h : readPlain cs ≠ .error .malformed) :
    ∃ c more, cs = c :: more ∧ c ∉ delimiters := by
  cases cs with
  | nil => exact absurd rfl h
  | cons c more => exact ⟨c, more, rfl, fun hc => h (readPlain_delimiter c hc more)⟩

theorem readValue_of_readPlain (inner : Reader) {cs : List Char}
    (h : readPlain cs ≠ .error .malformed) : readValue inner cs = readPlain cs := by
  obtain ⟨c, more, rfl, hc⟩ := head_of_readPlain h
  have hne : ∀ d ∈ delimiters, c ≠ d := by
    rintro d hd rfl
    exact hc hd
  rw [readValue]
  all_goals
    rintro text heq
    exact hne _ (by decide) (List.cons.inj heq).1

/-- The value is written as a word or a number. -/
def IsPlain : Json → Prop
  | string _ | array _ | object _ => False
  | _ => True

/-- A word or a number is read back. -/
theorem gives_readPlain {j : Json} (h : j.IsPlain) (level : ℕ) {rest : List Char}
    (hrest : EndsNumber rest) :
    Gives (readPlain (layout level j ++ rest)) j rest := by
  cases j with
  | null =>
    left
    simp [layout, readPlain, words, List.isPrefixOf]
  | bool b =>
    left
    cases b <;> simp [layout, readPlain, words, List.isPrefixOf]
  | integer n =>
    rw [layout]
    rcases readPlain_integer n hrest with hread | ⟨count, hread⟩
    · exact .inl hread
    · exact .inr ⟨_, hread, by simp⟩
  | number x =>
    rw [layout]
    exact .inl (readPlain_number x hrest)
  | _ => exact False.elim h

theorem Gives.not_malformed {outcome : Except Fault (α × List Char)} {value : α}
    {rest : List Char} (h : Gives outcome value rest) : outcome ≠ .error .malformed := by
  rcases h with rfl | ⟨fault, rfl, hfault⟩
  · nofun
  · intro heq
    exact hfault (Except.error.inj heq)

theorem endsNumber_nil : EndsNumber [] := nofun

/-- The text of a value starts neither with a blank nor like the end of an array. -/
theorem layout_head (level : ℕ) (j : Json) :
    ∃ c more, layout level j = c :: more ∧ isBlank c = false ∧ c ≠ ']' := by
  have hplain : j.IsPlain → ∃ c more, layout level j = c :: more ∧ isBlank c = false ∧ c ≠ ']' := by
    intro h
    have hgives := gives_readPlain h level endsNumber_nil
    rw [List.append_nil] at hgives
    obtain ⟨c, more, htext, hc⟩ := head_of_readPlain hgives.not_malformed
    refine ⟨c, more, htext, ?_, ?_⟩
    · rw [← Bool.not_eq_true]
      intro hblank
      simp only [isBlank, Bool.or_eq_true, decide_eq_true_eq] at hblank
      apply hc
      rcases hblank with ((rfl | rfl) | rfl) | rfl <;> decide
    · rintro rfl
      exact hc (by decide)
  cases j with
  | string s => exact ⟨'"', _, by rw [layout, quoted]; rfl, by decide, by decide⟩
  | array items =>
    cases items with
    | nil => exact ⟨'[', _, by rw [layout], by decide, by decide⟩
    | cons item more => exact ⟨'[', _, by rw [layout]; rfl, by decide, by decide⟩
  | object fields =>
    cases fields with
    | nil => exact ⟨'\x7b', _, by rw [layout], by decide, by decide⟩
    | cons field more => exact ⟨'\x7b', _, by rw [layout]; rfl, by decide, by decide⟩
  | _ => exact hplain trivial

theorem skipBlank_layout (level : ℕ) (j : Json) (rest : List Char) :
    skipBlank (layout level j ++ rest) = layout level j ++ rest := by
  obtain ⟨c, more, htext, hblank, -⟩ := layout_head level j
  rw [htext]
  exact skipBlank_cons hblank _

/-! One step of reading items. -/

section Items

variable {item : Reader} {cs rest more : List Char} {j : Json}

theorem readItems_error {fault : Fault} (hread : item.read cs = .error fault) :
    readItems item cs = .error fault := by
  rw [readItems]
  split
  · rename_i heq
    rw [hread] at heq
    obtain rfl := Except.error.inj heq
    rfl
  · rename_i heq
    rw [hread] at heq
    cases heq

theorem readItems_last (hread : item.read cs = .ok (j, rest))
    (hend : skipBlank rest = ']' :: more) :
    readItems item cs = .ok ([j], more) := by
  rw [readItems]
  split <;> rename_i heq <;> rw [hread] at heq <;> cases heq
  split <;> rename_i hafter <;> simp_all

theorem readItems_next (hread : item.read cs = .ok (j, rest))
    (hcomma : skipBlank rest = ',' :: more) :
    readItems item cs =
      (readItems item (skipBlank more)).map fun (items, left) => (j :: items, left) := by
  rw [readItems]
  split <;> rename_i heq <;> rw [hread] at heq <;> cases heq
  split <;> rename_i hafter <;> simp_all
  cases readItems item (skipBlank more) <;> rfl

end Items

/-- The items of an array are read back from the first on. -/
theorem gives_readItems {inner : Reader} (hinner : inner.Restores) (level outer : ℕ)
    (item : Json) (items : List Json) (hitems : ∀ j ∈ item :: items, Distinct j)
    (rest : List Char) :
    Gives (readItems inner (layout level item ++ (layoutItems level items ++
      (newLine outer ++ ']' :: rest)))) (item :: items) rest := by
  induction items generalizing item with
  | nil =>
    have hread := hinner item (hitems item List.mem_cons_self) level
      (newLine outer ++ ']' :: rest) (endsNumber_newLine outer _)
    rw [layoutItems, List.nil_append]
    rcases hread with hread | ⟨fault, hread, hfault⟩
    · left
      apply readItems_last hread
      rw [skipBlank_newLine, skipBlank_cons (by decide)]
    · exact .inr ⟨fault, readItems_error hread, hfault⟩
  | cons next more ih =>
    have hmore := ih next fun j hj => hitems j (List.mem_cons_of_mem item hj)
    have hread := hinner item (hitems item List.mem_cons_self) level
      (',' :: (newLine level ++ (layout level next ++ (layoutItems level more ++
        (newLine outer ++ ']' :: rest))))) (endsNumber_comma _)
    rw [layoutItems]
    simp only [List.cons_append, List.append_assoc]
    rcases hread with hread | ⟨fault, hread, hfault⟩
    · rw [readItems_next hread (skipBlank_cons (by decide) _), skipBlank_newLine, skipBlank_layout]
      exact hmore.map (item :: ·)
    · exact .inr ⟨fault, readItems_error hread, hfault⟩

/-! One step of reading fields. -/

/-- A name that is not there yet is set after all others. -/
theorem set_eq_append {name : String} {fields : List (String × Json)} (j : Json)
    (h : name ∉ fields.map Prod.fst) : Table.set name j fields = fields ++ [(name, j)] := by
  induction fields with
  | nil => rfl
  | cons field more ih =>
    obtain ⟨other, old⟩ := field
    rw [List.map_cons, List.mem_cons, not_or] at h
    have hne : (other == name) = false := beq_eq_false_iff_ne.mpr fun heq => h.1 heq.symm
    rw [Table.set, hne, ih h.2]
    rfl

section Fields

variable {value : Reader} {fields : List (String × Json)} {name : String} {j : Json}
variable {cs rest more : List Char}

/-- The text of a field up to its value. -/
def named (name : String) (cs : List Char) : List Char :=
  quoted name ++ ([':', ' '] ++ cs)

theorem named_eq (name : String) (cs : List Char) : named name cs =
    '"' :: (name.toList.flatMap escaped ++ '"' :: ':' :: ' ' :: cs) := by
  simp [named, quoted]

theorem skipBlank_named (name : String) (cs : List Char) :
    skipBlank (named name cs) = named name cs := by
  rw [named_eq]
  exact skipBlank_cons (by decide) _

theorem skipBlank_space (cs : List Char) : skipBlank (' ' :: cs) = skipBlank cs := by
  simp [skipBlank, isBlank]

/-- A field is read up to what follows its value. -/
theorem readFields_named (hread : value.read cs = .ok (j, rest)) (hcs : skipBlank cs = cs) :
    readFields value fields (named name cs) =
      match skipBlank rest with
      | ',' :: more => readFields value (Table.set name j fields) (skipBlank more)
      | '\x7d' :: more => .ok (Table.set name j fields, more)
      | _ => .error .malformed := by
  have hcolon := skipBlank_cons (c := ':') (by decide) (' ' :: cs)
  rw [named_eq, readFields]
  split <;> rename_i heq <;> rw [readString_quoted] at heq <;> cases heq
  split
  · rename_i heq
    rw [hcolon] at heq
    cases heq
    split <;> rename_i heq <;> rw [skipBlank_space, hcs, hread] at heq <;> cases heq
    split <;> rename_i hafter <;> simp_all
  · rename_i heq
    exact absurd hcolon (heq _)

theorem readFields_error {fault : Fault} (hread : value.read cs = .error fault)
    (hcs : skipBlank cs = cs) : readFields value fields (named name cs) = .error fault := by
  have hcolon := skipBlank_cons (c := ':') (by decide) (' ' :: cs)
  rw [named_eq, readFields]
  split <;> rename_i heq <;> rw [readString_quoted] at heq <;> cases heq
  split
  · rename_i heq
    rw [hcolon] at heq
    cases heq
    split <;> rename_i heq <;> rw [skipBlank_space, hcs, hread] at heq <;> cases heq
    rfl
  · rename_i heq
    exact absurd hcolon (heq _)

end Fields

/-- The fields of an object are read back from the first on, after those that are there already. -/
theorem gives_readFields {inner : Reader} (hinner : inner.Restores) (level outer : ℕ)
    (acc : List (String × Json)) (name : String) (j : Json) (fields : List (String × Json))
    (hnames : ((acc ++ (name, j) :: fields).map Prod.fst).Nodup)
    (hfields : ∀ field ∈ (name, j) :: fields, Distinct field.2) (rest : List Char) :
    Gives (readFields inner acc (named name (layout level j ++ (layoutFields level fields ++
      (newLine outer ++ '\x7d' :: rest))))) (acc ++ (name, j) :: fields) rest := by
  induction fields generalizing acc name j with
  | nil =>
    have hread := hinner j (hfields _ List.mem_cons_self) level
      (newLine outer ++ '\x7d' :: rest) (endsNumber_newLine outer _)
    have hnew : name ∉ acc.map Prod.fst := by
      rw [List.map_append, List.nodup_append'] at hnames
      intro hmem
      exact hnames.2.2 hmem (by simp)
    rw [layoutFields, List.nil_append]
    rcases hread with hread | ⟨fault, hread, hfault⟩
    · left
      rw [readFields_named hread (skipBlank_layout level j _), skipBlank_newLine,
        skipBlank_cons (by decide), set_eq_append j hnew]
      rfl
    · exact .inr ⟨fault, readFields_error hread (skipBlank_layout level j _), hfault⟩
  | cons next more ih =>
    obtain ⟨second, value⟩ := next
    have hread := hinner j (hfields _ List.mem_cons_self) level
      (',' :: (newLine level ++ named second (layout level value ++ (layoutFields level more ++
        (newLine outer ++ '\x7d' :: rest))))) (endsNumber_comma _)
    have hnew : name ∉ acc.map Prod.fst := by
      rw [List.map_append, List.nodup_append'] at hnames
      intro hmem
      exact hnames.2.2 hmem (by simp)
    have hmore := ih (acc ++ [(name, j)]) second value (by simpa using hnames)
      fun field hfield => hfields field (List.mem_cons_of_mem _ hfield)
    have htext : layoutFields level ((second, value) :: more) ++ (newLine outer ++ '\x7d' :: rest) =
        ',' :: (newLine level ++ named second (layout level value ++ (layoutFields level more ++
          (newLine outer ++ '\x7d' :: rest)))) := by
      simp [layoutFields, named]
    rw [htext]
    rcases hread with hread | ⟨fault, hread, hfault⟩
    · rw [readFields_named hread (skipBlank_layout level j _), skipBlank_cons (by decide)]
      simp only [skipBlank_newLine, skipBlank_named, set_eq_append j hnew]
      simpa using hmore
    · exact .inr ⟨fault, readFields_error hread (skipBlank_layout level j _), hfault⟩

/-! Values of any depth. -/

theorem readValue_array (inner : Reader) {text : List Char}
    (h : (skipBlank text).head? ≠ some ']') : readValue inner ('[' :: text) =
      (readItems inner (skipBlank text)).map fun (items, rest) => (array items, rest) := by
  rw [readValue]
  split
  · rename_i heq
    rw [heq] at h
    contradiction
  · rfl

theorem readValue_object (inner : Reader) {text : List Char}
    (h : (skipBlank text).head? ≠ some '\x7d') : readValue inner ('\x7b' :: text) =
      (readFields inner [] (skipBlank text)).map fun (fields, rest) => (object fields, rest) := by
  rw [readValue]
  split
  · rename_i heq
    rw [heq] at h
    contradiction
  · rfl

theorem gives_readValue {inner : Reader} (hinner : inner.Restores) {j : Json} (hj : Distinct j)
    (level : ℕ) {rest : List Char} (hrest : EndsNumber rest) :
    Gives (readValue inner (layout level j ++ rest)) j rest := by
  have hplain : j.IsPlain → Gives (readValue inner (layout level j ++ rest)) j rest := by
    intro h
    have hgives := gives_readPlain h level hrest
    rw [readValue_of_readPlain inner hgives.not_malformed]
    exact hgives
  cases hj with
  | string s =>
    left
    have htext : layout level (string s) ++ rest =
        '"' :: (s.toList.flatMap escaped ++ '"' :: rest) := by
      simp [layout, quoted]
    rw [htext, readValue, readString_quoted]
  | @array items hitems =>
    cases items with
    | nil =>
      left
      simp [layout, readValue, skipBlank_cons (c := ']') (by decide)]
    | cons item more =>
      have hgives := gives_readItems hinner (level + 1) level item more hitems rest
      obtain ⟨c, tail, hhead, hblank, hc⟩ := layout_head (level + 1) item
      have htext : layout level (array (item :: more)) ++ rest =
          '[' :: (newLine (level + 1) ++ (layout (level + 1) item ++
            (layoutItems (level + 1) more ++ (newLine level ++ ']' :: rest)))) := by
        simp [layout]
      rw [htext, readValue_array inner, skipBlank_newLine, skipBlank_layout]
      · exact hgives.map array
      · rw [skipBlank_newLine, skipBlank_layout, hhead]
        simpa using hc
  | @object fields hnames hfields =>
    cases fields with
    | nil =>
      left
      simp [layout, readValue, skipBlank_cons (c := '\x7d') (by decide)]
    | cons field more =>
      obtain ⟨name, value⟩ := field
      have hgives := gives_readFields hinner (level + 1) level [] name value more hnames hfields rest
      have htext : layout level (object ((name, value) :: more)) ++ rest =
          '\x7b' :: (newLine (level + 1) ++ named name (layout (level + 1) value ++
            (layoutFields (level + 1) more ++ (newLine level ++ '\x7d' :: rest)))) := by
        simp [layout, named]
      rw [htext, readValue_object inner, skipBlank_newLine, skipBlank_named]
      · exact hgives.map object
      · rw [skipBlank_newLine, skipBlank_named, named_eq]
        simp
  | _ => exact hplain trivial

theorem restores_tooDeep : Reader.tooDeep.Restores :=
  fun _ _ _ _ _ => .inr ⟨.tooDeep, rfl, nofun⟩

theorem restores_ofDepth (depth : ℕ) : (Reader.ofDepth depth).Restores := by
  induction depth with
  | zero => exact fun j hj level rest hrest => gives_readValue restores_tooDeep hj level hrest
  | succ depth ih => exact fun j hj level rest hrest => gives_readValue ih hj level hrest

/-- What is written is read back, unless a limit is hit. -/
theorem readTo_write (depth : ℕ) {j : Json} (hj : Distinct j) :
    readTo depth j.write = .ok j ∨
      ∃ fault, readTo depth j.write = .error fault ∧ fault ≠ .malformed := by
  have hstart := skipBlank_layout 0 j []
  have hread := restores_ofDepth depth j hj 0 [] endsNumber_nil
  rw [List.append_nil] at hstart hread
  rw [readTo, write, String.toList_ofList, hstart]
  rcases hread with hread | ⟨fault, hread, hfault⟩
  · left
    simp [hread, skipBlank]
  · right
    refine ⟨fault, ?_, hfault⟩
    rw [hread]

end LoxCore.Json
