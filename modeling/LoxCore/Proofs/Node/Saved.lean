import LoxCore.Node.Saved
import LoxCore.Proofs.Json.Bytes

/-!
Saving a syntax tree loses nothing: loading the saved form gives the tree back, with every token, every
literal and every line.
-/
namespace LoxCore

open Json (Distinct)

/-! Looking up the fields of an object that is written out. -/

@[simp]
theorem ok_bind {ε α β : Type} (value : α) (f : α → Except ε β) :
    (Except.ok value >>= f) = f value :=
  rfl

theorem lookup_cons_ite {α : Type} (entries : List (String × α)) (other name : String)
    (value : α) : ((other, value) :: entries).lookup name =
      if name = other then some value else entries.lookup name := by
  rw [List.lookup_cons]
  by_cases h : name = other
  · rw [if_pos h, beq_iff_eq.mpr h]
  · rw [if_neg h, beq_eq_false_iff_ne.mpr h]

@[simp]
theorem Json.field?_cons (fields : List (String × Json)) (other name : String) (j : Json) :
    field? ((other, j) :: fields) name = if name = other then some j else field? fields name :=
  lookup_cons_ite fields other name j

@[simp]
theorem Json.require_cons (fields : List (String × Json)) (other name : String) (j : Json) :
    require ((other, j) :: fields) name = if name = other then .ok j else require fields name := by
  unfold require
  rw [field?_cons]
  by_cases h : name = other
  · rw [if_pos h, if_pos h]
  · rw [if_neg h, if_neg h]

@[simp]
theorem Node.Subtrees.require_cons (trees : Subtrees) (other name : String)
    (outcome : Except LoadFault Node) : require ((other, outcome) :: trees) name =
      if name = other then outcome else require trees name := by
  unfold require
  rw [lookup_cons_ite]
  by_cases h : name = other
  · rw [if_pos h, if_pos h]
  · rw [if_neg h, if_neg h]

@[simp]
theorem Node.Subtrees.optional_cons (trees : Subtrees) (other name : String)
    (outcome : Except LoadFault Node) : optional ((other, outcome) :: trees) name =
      if name = other then outcome else optional trees name := by
  unfold optional
  rw [lookup_cons_ite]
  by_cases h : name = other
  · rw [if_pos h, if_pos h]
  · rw [if_neg h, if_neg h]

/-! Tokens and scalars. -/

theorem Token.Literal.load_toJson (literal : Token.Literal) :
    Token.Literal.load literal.toJson = .ok literal := by
  cases literal <;> rfl

theorem Token.Kind.load_name (kind : Token.Kind) :
    Token.Kind.load (.string kind.name) = .ok kind := by
  rw [load, ofName?_name]

theorem Token.load_toJson (t : Token) : Token.load t.toJson = .ok t := by
  simp [load, toJson, Kind.load_name, Literal.load_toJson, load.loadText, load.loadLine, pure,
    Except.pure]

theorem Value.load_toJson (v : Value) : Value.load v.toJson = .ok v := by
  cases v <;> rfl

theorem Token.Literal.distinct_toJson (literal : Token.Literal) : Distinct literal.toJson := by
  cases literal <;> constructor

theorem Token.distinct_toJson (t : Token) : Distinct t.toJson := by
  refine .object (by simp) ?_
  have hliteral := Token.Literal.distinct_toJson t.literal
  simp only [List.mem_cons, List.not_mem_nil, or_false]
  rintro field (rfl | rfl | rfl | rfl)
  · exact .string _
  · exact .string _
  · exact hliteral
  · exact .integer _

theorem Value.distinct_toJson (v : Value) : Distinct v.toJson := by
  cases v <;> constructor

namespace Node

@[simp]
theorem requireToken_cons (fields : List (String × Json)) (other name : String) (t : Token) :
    requireToken ((other, t.toJson) :: fields) name =
      if name = other then .ok t else requireToken fields name := by
  unfold requireToken
  rw [Json.require_cons]
  split
  · exact Token.load_toJson t
  · rfl

@[simp]
theorem requireToken_skip (fields : List (String × Json)) {other name : String} (j : Json)
    (h : name ≠ other) : requireToken ((other, j) :: fields) name = requireToken fields name := by
  rw [requireToken, requireToken, Json.require_cons, if_neg h]

@[simp]
theorem load_tagged (kind : String) (fields : List (String × Json)) : load (tagged kind fields) =
    ofFields (("type", .string kind) :: fields)
      (("type", .error (.malformedNode (.string kind))) :: loadFields fields) :=
  rfl

@[simp]
theorem loadFields_cons (name : String) (j : Json) (fields : List (String × Json)) :
    loadFields ((name, j) :: fields) = (name, load j) :: loadFields fields :=
  rfl

mutual

/-- Loading the saved form of a tree gives the tree back. -/
theorem load_toJson : ∀ n : Node, load n.toJson = .ok n
  | null => rfl
  | list items => by
    rw [toJson, load, loadAll_toJsonAll items]
    rfl
  | literal value => by
    simp [toJson, ofFields, Value.load_toJson, pure, Except.pure]
  | ref name => by
    simp [toJson, ofFields, pure, Except.pure]
  | assign name value => by
    have hvalue := load_toJson value
    simp [toJson, ofFields, hvalue, pure, Except.pure]
  | logical left operator right => by
    have hleft := load_toJson left
    have hright := load_toJson right
    simp [toJson, ofFields, hleft, hright, pure, Except.pure]
  | unary operator right => by
    have hright := load_toJson right
    simp [toJson, ofFields, hright, pure, Except.pure]
  | binary left operator right => by
    have hleft := load_toJson left
    have hright := load_toJson right
    simp [toJson, ofFields, hleft, hright, pure, Except.pure]
  | grouping inner => by
    have hinner := load_toJson inner
    simp [toJson, ofFields, hinner, pure, Except.pure]
  | block statements => by
    have hstatements := loadAll_toJsonAll statements
    simp [toJson, ofFields, loadBlock, load, hstatements, Except.map, blockOfList]
  | expression inner => by
    have hinner := load_toJson inner
    simp [toJson, ofFields, hinner, pure, Except.pure]
  | conditional condition thenBranch elseBranch => by
    have hcondition := load_toJson condition
    have hthen := load_toJson thenBranch
    have helse := load_toJson elseBranch
    simp [toJson, ofFields, hcondition, hthen, helse, pure, Except.pure]
  | print inner => by
    have hinner := load_toJson inner
    simp [toJson, ofFields, hinner, pure, Except.pure]
  | var name initializer => by
    have hinitializer := load_toJson initializer
    simp [toJson, ofFields, hinitializer, pure, Except.pure]

theorem loadAll_toJsonAll : ∀ items : List Node, loadAll (toJsonAll items) = .ok items
  | [] => rfl
  | n :: rest => by
    rw [toJsonAll, loadAll, load_toJson n, loadAll_toJsonAll rest]
    rfl

end

/-! The saved form names no field of an object twice. -/

theorem distinct_tagged {kind : String} {fields : List (String × Json)}
    (hnames : (("type", Json.string kind) :: fields).map Prod.fst |>.Nodup)
    (hfields : ∀ field ∈ fields, Distinct field.2) : Distinct (tagged kind fields) := by
  refine .object hnames ?_
  intro field hfield
  rcases List.mem_cons.mp hfield with rfl | hfield
  · exact .string _
  · exact hfields field hfield

mutual

theorem distinct_toJson : ∀ n : Node, Distinct n.toJson
  | null => .null
  | list items => .array (distinct_toJsonAll items)
  | literal value => by
    refine distinct_tagged (by simp) ?_
    simpa using Value.distinct_toJson value
  | ref name => by
    refine distinct_tagged (by simp) ?_
    simpa using Token.distinct_toJson name
  | assign name value => by
    have hvalue := distinct_toJson value
    refine distinct_tagged (by simp) ?_
    simpa using ⟨Token.distinct_toJson name, hvalue⟩
  | logical left operator right => by
    have hleft := distinct_toJson left
    have hright := distinct_toJson right
    refine distinct_tagged (by simp) ?_
    simpa using ⟨hleft, Token.distinct_toJson operator, hright⟩
  | unary operator right => by
    have hright := distinct_toJson right
    refine distinct_tagged (by simp) ?_
    simpa using ⟨Token.distinct_toJson operator, hright⟩
  | binary left operator right => by
    have hleft := distinct_toJson left
    have hright := distinct_toJson right
    refine distinct_tagged (by simp) ?_
    simpa using ⟨hleft, Token.distinct_toJson operator, hright⟩
  | grouping inner => by
    have hinner := distinct_toJson inner
    refine distinct_tagged (by simp) ?_
    simpa using hinner
  | block statements => by
    have hstatements := distinct_toJsonAll statements
    refine distinct_tagged (by simp) ?_
    simpa using Distinct.array hstatements
  | expression inner => by
    have hinner := distinct_toJson inner
    refine distinct_tagged (by simp) ?_
    simpa using hinner
  | conditional condition thenBranch elseBranch => by
    have hcondition := distinct_toJson condition
    have hthen := distinct_toJson thenBranch
    have helse := distinct_toJson elseBranch
    refine distinct_tagged (by simp) ?_
    simpa using ⟨hcondition, hthen, helse⟩
  | print inner => by
    have hinner := distinct_toJson inner
    refine distinct_tagged (by simp) ?_
    simpa using hinner
  | var name initializer => by
    have hinitializer := distinct_toJson initializer
    refine distinct_tagged (by simp) ?_
    simpa using ⟨Token.distinct_toJson name, hinitializer⟩

theorem distinct_toJsonAll : ∀ items : List Node, ∀ j ∈ toJsonAll items, Distinct j
  | [], _, h => by cases h
  | n :: rest, j, h => by
    rcases List.mem_cons.mp h with rfl | h
    · exact distinct_toJson n
    · exact distinct_toJsonAll rest j h

end

theorem eq_of_save? {statements : List Node} {saved : Json} (h : save? statements = some saved) :
    saved = .array (toJsonAll statements) := by
  unfold save? at h
  split at h
  · cases h
  · exact (Option.some.inj h).symm

/-- The text of a saved program loads as the program itself, unless the reader of JSON hits one of its
limits. -/
theorem loadText_write {statements : List Node} {saved : Json} (h : save? statements = some saved) :
    loadText saved.write = .ok statements ∨
      ∃ fault, Json.readTo nestingLimit saved.write = .error fault ∧ fault ≠ .malformed := by
  have hsaved := eq_of_save? h
  have hdistinct : Distinct saved := by
    rw [hsaved]
    exact .array (distinct_toJsonAll statements)
  rcases Json.readTo_write nestingLimit hdistinct with hread | hfault
  · left
    rw [loadText, hread]
    simp only [hsaved, loadStatements, loadAll_toJsonAll]
  · exact .inr hfault

end Node

end LoxCore
