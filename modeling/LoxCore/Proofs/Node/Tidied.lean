import LoxCore.Proofs.Node.Saved

/-!
What loading a tree and saving it again does to its saved form. Fields that no node or token has are
dropped, optional fields that are absent are written as null, and integer literals become numbers. All
else stays as it was.
-/
namespace LoxCore

namespace Json

/-- The statements of every block in the value stand in a list. -/
inductive BlocksListed : Json → Prop where
  | null : BlocksListed null
  | bool (b : Bool) : BlocksListed (bool b)
  | integer (n : ℤ) : BlocksListed (integer n)
  | number (x : Float) : BlocksListed (number x)
  | string (s : String) : BlocksListed (string s)
  | array {items : List Json} (hitems : ∀ item ∈ items, BlocksListed item) :
      BlocksListed (array items)
  | object {fields : List (String × Json)}
      (hblock : field? fields "type" = some (Json.string "Block") →
        ∀ statements, field? fields "statements" = some statements →
          ∃ items, statements = Json.array items)
      (hfields : ∀ field ∈ fields, BlocksListed field.2) : BlocksListed (object fields)

theorem require_eq_ok {fields : List (String × Json)} {name : String} {j : Json}
    (h : require fields name = .ok j) : field? fields name = some j := by
  unfold require at h
  split at h
  · rename_i found hfound
    rw [hfound, Except.ok.inj h]
  · cases h

end Json

theorem exists_of_bind_eq_ok {ε α β : Type} {x : Except ε α} {f : α → Except ε β} {b : β}
    (h : x >>= f = .ok b) : ∃ a, x = .ok a ∧ f a = .ok b := by
  cases x with
  | error e => cases h
  | ok a => exact ⟨a, rfl, h⟩

theorem exists_of_map_eq_ok {ε α β : Type} {x : Except ε α} {f : α → β} {b : β}
    (h : x.map f = .ok b) : ∃ a, x = .ok a ∧ f a = b := by
  cases x with
  | error e => cases h
  | ok a => exact ⟨a, rfl, Except.ok.inj h⟩

namespace Node

/-- What stands in a field of a saved node. -/
inductive Role where
  /-- The value of a literal. -/
  | scalar
  | token
  | tree
  /-- A tree that may be absent. -/
  | optionalTree
  /-- The statements of a block. -/
  | trees

/-- The fields of the twelve kinds of node that can be saved, after the one that names the kind. -/
def roles? : String → Option (List (String × Role))
  | "Literal" => some [("value", .scalar)]
  | "Variable" => some [("name", .token)]
  | "Assign" => some [("name", .token), ("value", .tree)]
  | "Logical" => some [("left", .tree), ("operator", .token), ("right", .tree)]
  | "Unary" => some [("operator", .token), ("right", .tree)]
  | "Binary" => some [("left", .tree), ("operator", .token), ("right", .tree)]
  | "Grouping" => some [("expression", .tree)]
  | "Block" => some [("statements", .trees)]
  | "Expression" => some [("expression", .tree)]
  | "If" => some [("condition", .tree), ("then_branch", .tree), ("else_branch", .optionalTree)]
  | "Print" => some [("expression", .tree)]
  | "Var" => some [("name", .token), ("initializer", .optionalTree)]
  | _ => none

mutual

/-- The second value is the first with unknown fields dropped, null for the optional fields that are
absent, and numbers for integer literals. Fields are in the order in which they are saved. -/
inductive Tidied : Role → Json → Json → Prop where
  | scalar {j : Json} (h : ∀ n, j ≠ .integer n) : Tidied .scalar j j
  | integer (n : ℤ) :
      Tidied .scalar (.integer n) (.number (Decimal.toFloat (decide (n < 0)) ⟨n.natAbs, 0⟩))
  | token {fields : List (String × Json)} {kind lexeme line : Json}
      (hkind : Json.field? fields "type" = some kind)
      (hlexeme : Json.field? fields "lexeme" = some lexeme)
      (hline : Json.field? fields "line" = some line) :
      Tidied .token (.object fields)
        (.object [("type", kind), ("lexeme", lexeme),
          ("literal", (Json.field? fields "literal").getD .null), ("line", line)])
  | null : Tidied .tree .null .null
  | list {items tidied : List Json} (h : List.Forall₂ (Tidied .tree) items tidied) :
      Tidied .tree (.array items) (.array tidied)
  | node {fields tidied : List (String × Json)} {kind : String} {roles : List (String × Role)}
      (hkind : Json.field? fields "type" = some (.string kind)) (hroles : roles? kind = some roles)
      (h : TidiedFields fields roles tidied) :
      Tidied .tree (.object fields) (.object (("type", .string kind) :: tidied))
  | optionalTree {j tidied : Json} (h : Tidied .tree j tidied) : Tidied .optionalTree j tidied
  | trees {items tidied : List Json} (h : List.Forall₂ (Tidied .tree) items tidied) :
      Tidied .trees (.array items) (.array tidied)

/-- The fields of some roles, taken from the fields of an object and tidied. Only an optional tree may
be absent there. -/
inductive TidiedFields :
    List (String × Json) → List (String × Role) → List (String × Json) → Prop where
  | nil {fields : List (String × Json)} : TidiedFields fields [] []
  | present {fields tidied : List (String × Json)} {name : String} {role : Role}
      {roles : List (String × Role)} {j j' : Json} (hfield : Json.field? fields name = some j)
      (h : Tidied role j j') (hrest : TidiedFields fields roles tidied) :
      TidiedFields fields ((name, role) :: roles) ((name, j') :: tidied)
  | absent {fields tidied : List (String × Json)} {name : String} {roles : List (String × Role)}
      (hfield : Json.field? fields name = none) (hrest : TidiedFields fields roles tidied) :
      TidiedFields fields ((name, .optionalTree) :: roles) ((name, .null) :: tidied)

end

end Node

/-! Tokens and scalars. -/

theorem Token.Kind.name_eq_of_ofName? {s : String} {kind : Token.Kind} (h : ofName? s = some kind) :
    kind.name = s := by
  have hname := List.find?_some h
  exact beq_iff_eq.mp hname

theorem Token.Kind.eq_of_load {j : Json} {kind : Token.Kind} (h : load j = .ok kind) :
    j = .string kind.name := by
  unfold load at h
  split at h
  · rename_i name
    split at h
    · rename_i found hfound
      obtain rfl := Except.ok.inj h
      rw [name_eq_of_ofName? hfound]
    · cases h
  · cases h
  · cases h
  · cases h

theorem Token.Literal.toJson_of_load {j : Json} {literal : Token.Literal}
    (h : load j = .ok literal) : literal.toJson = j := by
  cases j <;> cases h <;> rfl

theorem Token.load.loadText_eq_ok {j : Json} {s : String} (h : loadText j = .ok s) :
    j = .string s := by
  cases j <;> cases h
  rfl

theorem Token.load.loadLine_eq_ok {j : Json} {n : ℤ} (h : loadLine j = .ok n) :
    j = .integer n := by
  cases j <;> cases h
  rfl

/-- A token that loads is saved as it was, but for its unknown fields and an absent literal. -/
theorem Token.tidied_of_load {j : Json} {t : Token} (h : Token.load j = .ok t) :
    Node.Tidied .token j t.toJson := by
  cases j with
  | object fields =>
    obtain ⟨kindField, hkindField, h⟩ := exists_of_bind_eq_ok h
    obtain ⟨kind, hkind, h⟩ := exists_of_bind_eq_ok h
    obtain ⟨lexemeField, hlexemeField, h⟩ := exists_of_bind_eq_ok h
    obtain ⟨lexeme, hlexeme, h⟩ := exists_of_bind_eq_ok h
    obtain ⟨literal, hliteral, h⟩ := exists_of_bind_eq_ok h
    obtain ⟨lineField, hlineField, h⟩ := exists_of_bind_eq_ok h
    obtain ⟨line, hline, h⟩ := exists_of_bind_eq_ok h
    obtain rfl := Except.ok.inj h
    obtain rfl := Token.Kind.eq_of_load hkind
    obtain rfl := Token.load.loadText_eq_ok hlexeme
    obtain rfl := Token.load.loadLine_eq_ok hline
    rw [Token.toJson, Token.Literal.toJson_of_load hliteral]
    exact .token (Json.require_eq_ok hkindField) (Json.require_eq_ok hlexemeField)
      (Json.require_eq_ok hlineField)
  | _ => cases h

/-- A literal value that loads is saved as it was, or as a number if it was an integer. -/
theorem Value.tidied_of_load {j : Json} {v : Value} (h : Value.load j = .ok v) :
    Node.Tidied .scalar j v.toJson := by
  cases j with
  | integer n =>
    simp only [load] at h
    split at h
    · cases h
    · obtain rfl := Except.ok.inj h
      exact .integer n
  | array items => cases h
  | object fields => cases h
  | _ =>
    obtain rfl := Except.ok.inj h
    exact .scalar nofun

namespace Node

/-! Fields of an object, each added to those after it. -/

theorem lookup_loadFields (fields : List (String × Json)) (name : String) :
    (loadFields fields).lookup name = (Json.field? fields name).map load := by
  induction fields with
  | nil => rfl
  | cons field rest ih =>
    obtain ⟨other, j⟩ := field
    rw [loadFields_cons, lookup_cons_ite, Json.field?_cons, ih]
    split <;> rfl

/-- Every field of the object that loads as a tree is saved tidied. -/
def LoadsTidied (fields : List (String × Json)) : Prop :=
  ∀ name j n, Json.field? fields name = some j → load j = .ok n → Tidied .tree j n.toJson

section Fields

variable {fields tidied : List (String × Json)} {roles : List (String × Role)} {name : String}
  (hrest : TidiedFields fields roles tidied)
include hrest

theorem TidiedFields.token {t : Token} (h : requireToken fields name = .ok t) :
    TidiedFields fields ((name, .token) :: roles) ((name, t.toJson) :: tidied) := by
  obtain ⟨j, hfield, hload⟩ := exists_of_bind_eq_ok h
  exact .present (Json.require_eq_ok hfield) (Token.tidied_of_load hload) hrest

variable (hfields : LoadsTidied fields)
include hfields

theorem TidiedFields.tree {n : Node} (h : (loadFields fields).require name = .ok n) :
    TidiedFields fields ((name, .tree) :: roles) ((name, n.toJson) :: tidied) := by
  rw [Subtrees.require, lookup_loadFields] at h
  cases hfield : Json.field? fields name with
  | none =>
    rw [hfield] at h
    cases h
  | some j =>
    rw [hfield] at h
    exact .present hfield (hfields name j n hfield h) hrest

theorem TidiedFields.optionalTree {n : Node} (h : (loadFields fields).optional name = .ok n) :
    TidiedFields fields ((name, .optionalTree) :: roles) ((name, n.toJson) :: tidied) := by
  rw [Subtrees.optional, lookup_loadFields] at h
  cases hfield : Json.field? fields name with
  | none =>
    rw [hfield] at h
    obtain rfl := Except.ok.inj h
    exact .absent hfield hrest
  | some j =>
    rw [hfield] at h
    exact .present hfield (.optionalTree (hfields name j n hfield h)) hrest

end Fields

variable {fields : List (String × Json)}

/-- A block whose statements stand in a list. -/
theorem tidied_of_loadBlock {items : List Json} {n : Node}
    (hkind : Json.field? fields "type" = some (.string "Block"))
    (hfield : Json.field? fields "statements" = some (.array items)) (hfields : LoadsTidied fields)
    (h : loadBlock (.array items) (loadFields fields) = .ok n) :
    Tidied .tree (.object fields) n.toJson := by
  obtain ⟨loaded, hloaded, rfl⟩ := exists_of_map_eq_ok h
  rw [Subtrees.require, lookup_loadFields, hfield] at hloaded
  have htidied := hfields _ _ _ hfield hloaded
  obtain ⟨statements, -, rfl⟩ := exists_of_map_eq_ok hloaded
  cases htidied with
  | list hitems => exact .node hkind rfl (.present hfield (.trees hitems) .nil)

/-- A node made of one tree, as saved under `expression`. -/
theorem tidied_of_inner {kind : String} {make : Node → Node} {n : Node}
    (hkind : Json.field? fields "type" = some (.string kind))
    (hroles : roles? kind = some [("expression", .tree)])
    (hmake : ∀ inner, (make inner).toJson = tagged kind [("expression", inner.toJson)])
    (hfields : LoadsTidied fields)
    (h : (do return make (← (loadFields fields).require "expression")) = Except.ok n) :
    Tidied .tree (.object fields) n.toJson := by
  obtain ⟨inner, hinner, h⟩ := exists_of_bind_eq_ok h
  obtain rfl := Except.ok.inj h
  rw [hmake]
  exact .node hkind hroles (.tree .nil hfields hinner)

/-- A node made of an operator between two trees. -/
theorem tidied_of_operands {kind : String} {make : Node → Token → Node → Node} {n : Node}
    (hkind : Json.field? fields "type" = some (.string kind))
    (hroles : roles? kind = some [("left", .tree), ("operator", .token), ("right", .tree)])
    (hmake : ∀ left operator right, (make left operator right).toJson = tagged kind
      [("left", left.toJson), ("operator", operator.toJson), ("right", right.toJson)])
    (hfields : LoadsTidied fields)
    (h : (do
      let left ← (loadFields fields).require "left"
      let operator ← requireToken fields "operator"
      return make left operator (← (loadFields fields).require "right")) = Except.ok n) :
    Tidied .tree (.object fields) n.toJson := by
  obtain ⟨left, hleft, h⟩ := exists_of_bind_eq_ok h
  obtain ⟨operator, hoperator, h⟩ := exists_of_bind_eq_ok h
  obtain ⟨right, hright, h⟩ := exists_of_bind_eq_ok h
  obtain rfl := Except.ok.inj h
  rw [hmake]
  exact .node hkind hroles (.tree (.token (.tree .nil hfields hright) hoperator) hfields hleft)

/-- The node that an object describes is saved with the fields of its kind and no others. -/
theorem tidied_ofFields {n : Node} (hfields : LoadsTidied fields)
    (hblock : Json.field? fields "type" = some (.string "Block") →
      ∀ statements, Json.field? fields "statements" = some statements →
        ∃ items, statements = .array items)
    (h : ofFields fields (loadFields fields) = .ok n) : Tidied .tree (.object fields) n.toJson := by
  unfold ofFields at h
  split at h
  · cases h
  · rename_i hkind
    obtain ⟨j, hfield, h⟩ := exists_of_bind_eq_ok h
    obtain ⟨value, hvalue, h⟩ := exists_of_bind_eq_ok h
    obtain rfl := Except.ok.inj h
    exact .node hkind rfl
      (.present (Json.require_eq_ok hfield) (Value.tidied_of_load hvalue) .nil)
  · rename_i hkind
    obtain ⟨name, hname, h⟩ := exists_of_bind_eq_ok h
    obtain rfl := Except.ok.inj h
    exact .node hkind rfl (.token .nil hname)
  · rename_i hkind
    obtain ⟨name, hname, h⟩ := exists_of_bind_eq_ok h
    obtain ⟨value, hvalue, h⟩ := exists_of_bind_eq_ok h
    obtain rfl := Except.ok.inj h
    exact .node hkind rfl (.token (.tree .nil hfields hvalue) hname)
  · rename_i hkind
    exact tidied_of_operands hkind rfl (fun _ _ _ => rfl) hfields h
  · rename_i hkind
    obtain ⟨operator, hoperator, h⟩ := exists_of_bind_eq_ok h
    obtain ⟨right, hright, h⟩ := exists_of_bind_eq_ok h
    obtain rfl := Except.ok.inj h
    exact .node hkind rfl (.token (.tree .nil hfields hright) hoperator)
  · rename_i hkind
    exact tidied_of_operands hkind rfl (fun _ _ _ => rfl) hfields h
  · rename_i hkind
    exact tidied_of_inner hkind rfl (fun _ => rfl) hfields h
  · rename_i hkind
    obtain ⟨statements, hstatements, h⟩ := exists_of_bind_eq_ok h
    have hfield := Json.require_eq_ok hstatements
    obtain ⟨items, rfl⟩ := hblock hkind statements hfield
    exact tidied_of_loadBlock hkind hfield hfields h
  · rename_i hkind
    exact tidied_of_inner hkind rfl (fun _ => rfl) hfields h
  · rename_i hkind
    obtain ⟨condition, hcondition, h⟩ := exists_of_bind_eq_ok h
    obtain ⟨thenBranch, hthen, h⟩ := exists_of_bind_eq_ok h
    obtain ⟨elseBranch, helse, h⟩ := exists_of_bind_eq_ok h
    obtain rfl := Except.ok.inj h
    exact .node hkind rfl
      (.tree (.tree (.optionalTree .nil hfields helse) hfields hthen) hfields hcondition)
  · rename_i hkind
    exact tidied_of_inner hkind rfl (fun _ => rfl) hfields h
  · rename_i hkind
    obtain ⟨name, hname, h⟩ := exists_of_bind_eq_ok h
    obtain ⟨initializer, hinitializer, h⟩ := exists_of_bind_eq_ok h
    obtain rfl := Except.ok.inj h
    exact .node hkind rfl (.token (.optionalTree .nil hfields hinitializer) hname)
  · cases h

mutual

/-- A tree that loads is saved tidied. -/
theorem tidied_of_load : ∀ (j : Json) {n : Node}, j.BlocksListed → load j = .ok n →
    Tidied .tree j n.toJson
  | .null, _, _, h => by
    obtain rfl := Except.ok.inj h
    exact .null
  | .array items, _, .array hitems, h => by
    obtain ⟨loaded, hloaded, rfl⟩ := exists_of_map_eq_ok h
    exact .list (tidied_of_loadAll items hitems hloaded)
  | .object fields, _, .object hblock hfields, h =>
    tidied_ofFields (tidied_of_loadFields fields hfields) hblock h
  | .bool _, _, _, h | .integer _, _, _, h | .number _, _, _, h | .string _, _, _, h => by
    cases h

theorem tidied_of_loadAll : ∀ (items : List Json) {loaded : List Node},
    (∀ item ∈ items, item.BlocksListed) → loadAll items = .ok loaded →
      List.Forall₂ (Tidied .tree) items (toJsonAll loaded)
  | [], _, _, h => by
    obtain rfl := Except.ok.inj h
    exact .nil
  | j :: rest, _, hitems, h => by
    obtain ⟨hj, hrest⟩ := List.forall_mem_cons.mp hitems
    unfold loadAll at h
    split at h
    · cases h
    · rename_i n hn
      obtain ⟨more, hmore, rfl⟩ := exists_of_map_eq_ok h
      exact .cons (tidied_of_load j hj hn) (tidied_of_loadAll rest hrest hmore)

theorem tidied_of_loadFields : ∀ (fields : List (String × Json)),
    (∀ field ∈ fields, field.2.BlocksListed) → LoadsTidied fields
  | [], _ => nofun
  | (other, j) :: rest, hfields => by
    obtain ⟨hj, hrest⟩ := List.forall_mem_cons.mp hfields
    intro name found n hfound hn
    rw [Json.field?_cons] at hfound
    split at hfound
    · obtain rfl := Option.some.inj hfound
      exact tidied_of_load j hj hn
    · exact tidied_of_loadFields rest hrest name found n hfound hn

end

/-! Programs. -/

/-- A program without a statement that nests too deep can be saved. -/
theorem save?_of_depth_le {statements : List Node} (h : ∀ s ∈ statements, s.depth ≤ nestingLimit) :
    save? statements = some (.array (toJsonAll statements)) := by
  have hshallow : ¬statements.any isTooDeep = true := by
    simpa [isTooDeep] using h
  rw [save?, if_neg hshallow]

/-- Saving loses nothing. A program none of whose statements nests too deep is saved, and what is saved
loads as the program itself, with the bits of its numbers, so no other program is saved alike. And
whatever loads as a program is saved as it was, but tidied. -/
theorem loadStatements_save? :
    (∀ statements : List Node, (∀ s ∈ statements, s.depth ≤ nestingLimit) →
      ∃ saved, save? statements = some saved ∧ loadStatements saved = .ok statements) ∧
    (∀ (first second : List Node) (saved : Json), save? first = some saved →
      save? second = some saved → first = second) ∧
    (∀ (j : Json) (statements : List Node), loadStatements j = .ok statements → j.BlocksListed →
      (∀ s ∈ statements, s.depth ≤ nestingLimit) →
        ∃ saved, save? statements = some saved ∧ Tidied .tree j saved) := by
  refine ⟨fun statements hdepth => ?_, fun first second saved hfirst hsecond => ?_,
    fun j statements hload hblocks hdepth => ?_⟩
  · exact ⟨_, save?_of_depth_le hdepth, loadAll_toJsonAll statements⟩
  · have hload : ∀ statements, save? statements = some saved →
        loadStatements saved = .ok statements := by
      intro statements hsaved
      rw [eq_of_save? hsaved]
      exact loadAll_toJsonAll statements
    exact Except.ok.inj ((hload first hfirst).symm.trans (hload second hsecond))
  · refine ⟨_, save?_of_depth_le hdepth, ?_⟩
    cases j with
    | array items =>
      cases hblocks with
      | array hitems => exact .list (tidied_of_loadAll items hitems hload)
    | _ => cases hload

/-- A declaration without its initializer and with a field that no node has, an integer, and a block. -/
def declarationsJson : Json :=
  .array [
    .object [("type", .string "Var"), ("comment", .bool true),
      ("name", .object [("type", .string "IDENTIFIER"), ("lexeme", .string "x"),
        ("line", .integer 3)])],
    .object [("type", .string "Print"),
      ("expression", .object [("type", .string "Literal"), ("value", .integer (-2))])],
    .object [("type", .string "Block"), ("statements", .array [.null])]]

theorem loadStatements_save?_declarations :
    let statements : List Node := [
      .var ⟨.identifier, "x", .nil, 3⟩ .null,
      .print (.literal (.number (Decimal.toFloat true ⟨2, 0⟩))), .block [.null]]
    loadStatements declarationsJson = .ok statements ∧ declarationsJson.BlocksListed ∧
      (∀ s ∈ statements, s.depth ≤ nestingLimit) ∧
      ∃ saved, save? statements = some saved ∧ loadStatements saved = .ok statements ∧
        Tidied .tree declarationsJson saved := by
  intro statements
  have hload : loadStatements declarationsJson = .ok statements := by rfl
  have hblocks : declarationsJson.BlocksListed := by
    refine .array ?_
    simp only [List.mem_cons, List.not_mem_nil, or_false]
    rintro item (rfl | rfl | rfl)
    · refine .object (by simp) ?_
      have hname : Json.BlocksListed (.object [("type", .string "IDENTIFIER"),
          ("lexeme", .string "x"), ("line", .integer 3)]) := by
        refine .object (by simp) ?_
        simpa using ⟨.string _, .string _, .integer 3⟩
      simpa using ⟨.string _, .bool true, hname⟩
    · refine .object (by simp) ?_
      have hvalue : Json.BlocksListed (.object [("type", .string "Literal"),
          ("value", .integer (-2))]) := by
        refine .object (by simp) ?_
        simpa using ⟨.string _, .integer (-2)⟩
      simpa using ⟨.string _, hvalue⟩
    · refine .object (by simp) ?_
      have hstatements : Json.BlocksListed (.array [.null]) := .array (by simpa using .null)
      simpa using ⟨.string _, hstatements⟩
  have hdepth : ∀ s ∈ statements, s.depth ≤ nestingLimit := by
    decide
  obtain ⟨saved, hsaved, hagain⟩ := loadStatements_save?.1 statements hdepth
  obtain ⟨_, hsaved', htidied⟩ :=
    loadStatements_save?.2.2 declarationsJson statements hload hblocks hdepth
  obtain rfl := Option.some.inj (hsaved.symm.trans hsaved')
  exact ⟨hload, hblocks, hdepth, saved, hsaved, hagain, htidied⟩

end Node

end LoxCore
