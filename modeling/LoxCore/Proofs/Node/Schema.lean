import LoxCore.Proofs.Node.Tidied
import LoxCore.Proofs.Decimal.Range

/-!
What the loader of saved trees accepts, and its fault on all else: that of the first element, in the
order of reading, that does not fit its place.
-/
namespace LoxCore

namespace Json

/-- Neither an array nor an object. -/
def IsScalar : Json → Prop
  | array _ | object _ => False
  | _ => True

/-- The fields of a token have the forms that tokens are saved with, where they are there. -/
structure OrdinaryToken (fields : List (String × Json)) : Prop where
  lexeme : ∀ j, field? fields "lexeme" = some j → ∃ s, j = .string s
  literal : ∀ j, field? fields "literal" = some j → j.IsScalar
  line : ∀ j, field? fields "line" = some j → ∃ n, j = .integer n

/-- An object is read as a token if its kind is known and its text and line are there. -/
structure FitsToken (fields : List (String × Json)) : Prop where
  kind : ∃ kind : Token.Kind, field? fields "type" = some (.string kind.name)
  lexeme : ∃ lexeme, field? fields "lexeme" = some lexeme
  line : ∃ line, field? fields "line" = some line

/-- The fault of a kind that no token has. A kind is named by a scalar. -/
def kindFault : Json → LoadFault
  | array _ | object _ => .wrongForm
  | kind => .unknownTokenKind kind.mention

/-- The first thing wrong with what is read as a token. -/
inductive TokenOffends : Json → LoadFault → Prop where
  | notObject {j : Json} (h : ∀ fields, j ≠ object fields) : TokenOffends j .wrongForm
  | untyped {fields : List (String × Json)} (h : field? fields "type" = none) :
      TokenOffends (object fields) (.missingField "type")
  | unknown {fields : List (String × Json)} {kind : Json} (hkind : field? fields "type" = some kind)
      (h : ∀ known : Token.Kind, kind ≠ .string known.name) :
      TokenOffends (object fields) kind.kindFault
  | noLexeme {fields : List (String × Json)} {kind : Token.Kind}
      (hkind : field? fields "type" = some (.string kind.name))
      (h : field? fields "lexeme" = none) : TokenOffends (object fields) (.missingField "lexeme")
  | noLine {fields : List (String × Json)} {kind : Token.Kind} {lexeme : Json}
      (hkind : field? fields "type" = some (.string kind.name))
      (hlexeme : field? fields "lexeme" = some lexeme) (h : field? fields "line" = none) :
      TokenOffends (object fields) (.missingField "line")

theorem TokenOffends.not_fits {fields : List (String × Json)} {fault : LoadFault}
    (h : TokenOffends (object fields) fault) : ¬FitsToken fields := by
  rintro ⟨⟨kind, hkind⟩, ⟨lexeme, hlexeme⟩, ⟨line, hline⟩⟩
  cases h with
  | notObject h => exact h _ rfl
  | untyped h => simp [hkind] at h
  | unknown hkind' h => exact h kind (Option.some.inj (hkind'.symm.trans hkind))
  | noLexeme _ h => simp [hlexeme] at h
  | noLine _ _ h => simp [hline] at h

theorem TokenOffends.unique {j : Json} {fault fault' : LoadFault} (h : TokenOffends j fault)
    (h' : TokenOffends j fault') : fault = fault' := by
  cases h with
  | notObject h =>
    cases h' with
    | notObject => rfl
    | _ => exact absurd rfl (h _)
  | untyped hnone =>
    cases h' with
    | notObject h => exact absurd rfl (h _)
    | untyped => rfl
    | unknown hkind | noLexeme hkind | noLine hkind => simp [hnone] at hkind
  | unknown hkind hunknown =>
    cases h' with
    | notObject h => exact absurd rfl (h _)
    | untyped hnone => simp [hkind] at hnone
    | unknown hkind' => rw [Option.some.inj (hkind.symm.trans hkind')]
    | noLexeme hkind' | noLine hkind' =>
      exact absurd (Option.some.inj (hkind.symm.trans hkind')) (hunknown _)
  | noLexeme hkind hlexeme =>
    cases h' with
    | notObject h => exact absurd rfl (h _)
    | untyped hnone => simp [hkind] at hnone
    | unknown hkind' hunknown =>
      exact absurd (Option.some.inj (hkind'.symm.trans hkind)) (hunknown _)
    | noLexeme => rfl
    | noLine _ hlexeme' => simp [hlexeme] at hlexeme'
  | noLine hkind hlexeme =>
    cases h' with
    | notObject h => exact absurd rfl (h _)
    | untyped hnone => simp [hkind] at hnone
    | unknown hkind' hunknown =>
      exact absurd (Option.some.inj (hkind'.symm.trans hkind)) (hunknown _)
    | noLexeme _ hnone => simp [hlexeme] at hnone
    | noLine => rfl

end Json

namespace Node

/-- Tokens are of ordinary form where they are read, literals are scalars, and what stands for the
statements of a block is neither a string nor an object. -/
inductive Ordinary : Role → Json → Prop where
  | scalar {j : Json} (h : j.IsScalar) : Ordinary .scalar j
  | token {j : Json} (h : ∀ fields, j = .object fields → Json.OrdinaryToken fields) :
      Ordinary .token j
  | bare {j : Json} (h : j.IsScalar) : Ordinary .tree j
  | list {items : List Json} (h : ∀ item ∈ items, Ordinary .tree item) :
      Ordinary .tree (.array items)
  | object {fields : List (String × Json)}
      (h : ∀ kind roles, Json.field? fields "type" = some (.string kind) → roles? kind = some roles →
        ∀ entry ∈ roles, ∀ j, Json.field? fields entry.1 = some j → Ordinary entry.2 j) :
      Ordinary .tree (.object fields)
  | optionalTree {j : Json} (h : Ordinary .tree j) : Ordinary .optionalTree j
  | trees {items : List Json} (h : ∀ item ∈ items, Ordinary .tree item) :
      Ordinary .trees (.array items)
  | notTrees {j : Json} (h : j.IsScalar) (hstring : ∀ s, j ≠ .string s) : Ordinary .trees j

/-- The schema of saved trees. An object has one of the twelve kinds of nodes, and all the fields of its
kind but those of optional trees. Its other fields do not matter. -/
inductive Fits : Role → Json → Prop where
  | scalar {j : Json} (h : ∀ n, j = .integer n → n.natAbs < Double.overflow) : Fits .scalar j
  | token {fields : List (String × Json)} (h : Json.FitsToken fields) : Fits .token (.object fields)
  | null : Fits .tree .null
  | list {items : List Json} (h : ∀ item ∈ items, Fits .tree item) : Fits .tree (.array items)
  | object {fields : List (String × Json)} {kind : String} {roles : List (String × Role)}
      (hkind : Json.field? fields "type" = some (.string kind)) (hroles : roles? kind = some roles)
      (habsent : ∀ entry ∈ roles, Json.field? fields entry.1 = none → entry.2 = .optionalTree)
      (hpresent : ∀ entry ∈ roles, ∀ j, Json.field? fields entry.1 = some j → Fits entry.2 j) :
      Fits .tree (.object fields)
  | optionalTree {j : Json} (h : Fits .tree j) : Fits .optionalTree j
  | trees {items : List Json} (h : ∀ item ∈ items, Fits .tree item) : Fits .trees (.array items)

/-- A field of some role may be there with a value that fits, or absent if it is optional. -/
structure FitsField (fields : List (String × Json)) (entry : String × Role) : Prop where
  absent : Json.field? fields entry.1 = none → entry.2 = .optionalTree
  present : ∀ j, Json.field? fields entry.1 = some j → Fits entry.2 j

/-- The fault of the first element that does not fit: in an array, all items before it fit, and in an
object all the fields that are read before it do. -/
inductive Offends : Role → Json → LoadFault → Prop where
  | integer {n : ℤ} (h : Double.overflow ≤ n.natAbs) :
      Offends .scalar (.integer n) .numberTooLarge
  | token {j : Json} {fault : LoadFault} (h : Json.TokenOffends j fault) : Offends .token j fault
  | bare {j : Json} (hscalar : j.IsScalar) (hnull : j ≠ .null) : Offends .tree j (.malformedNode j)
  | item {before after : List Json} {j : Json} {fault : LoadFault}
      (hbefore : ∀ item ∈ before, Fits .tree item) (h : Offends .tree j fault) :
      Offends .tree (.array (before ++ j :: after)) fault
  | untyped {fields : List (String × Json)} (h : Json.field? fields "type" = none) :
      Offends .tree (.object fields) (.malformedNode (.object fields))
  | unknown {fields : List (String × Json)} {kind : Json}
      (hkind : Json.field? fields "type" = some kind)
      (h : ∀ known roles, roles? known = some roles → kind ≠ .string known) :
      Offends .tree (.object fields) (.unknownNodeKind kind)
  | absent {fields : List (String × Json)} {kind name : String} {role : Role}
      {before after : List (String × Role)} (hkind : Json.field? fields "type" = some (.string kind))
      (hroles : roles? kind = some (before ++ (name, role) :: after))
      (hbefore : ∀ entry ∈ before, FitsField fields entry)
      (hfield : Json.field? fields name = none) (hrole : role ≠ .optionalTree) :
      Offends .tree (.object fields) (.missingField name)
  | field {fields : List (String × Json)} {kind name : String} {role : Role}
      {before after : List (String × Role)} {j : Json} {fault : LoadFault}
      (hkind : Json.field? fields "type" = some (.string kind))
      (hroles : roles? kind = some (before ++ (name, role) :: after))
      (hbefore : ∀ entry ∈ before, FitsField fields entry)
      (hfield : Json.field? fields name = some j) (h : Offends role j fault) :
      Offends .tree (.object fields) fault
  | optionalTree {j : Json} {fault : LoadFault} (h : Offends .tree j fault) :
      Offends .optionalTree j fault
  | notTrees {j : Json} (h : ∀ items, j ≠ .array items) : Offends .trees j .wrongForm
  | statement {before after : List Json} {j : Json} {fault : LoadFault}
      (hbefore : ∀ item ∈ before, Fits .tree item) (h : Offends .tree j fault) :
      Offends .trees (.array (before ++ j :: after)) fault

/-! What offends does not fit, and the fault is that of one element only. -/

variable {fields : List (String × Json)} {fault fault' : LoadFault} {role : Role} {j : Json}

/-- The fault of a field of some role that does not fit. -/
inductive FieldOffends (fields : List (String × Json)) : String × Role → LoadFault → Prop where
  | absent {name : String} {role : Role} (hfield : Json.field? fields name = none)
      (hrole : role ≠ .optionalTree) : FieldOffends fields (name, role) (.missingField name)
  | present {name : String} {role : Role} {j : Json} {fault : LoadFault}
      (hfield : Json.field? fields name = some j) (h : Offends role j fault) :
      FieldOffends fields (name, role) fault

/-- The fault of the first field that does not fit. -/
def FieldsOffend (fields : List (String × Json)) (roles : List (String × Role)) (fault : LoadFault) :
    Prop :=
  ∃ before entry after, roles = before ++ entry :: after ∧
    (∀ entry ∈ before, FitsField fields entry) ∧ FieldOffends fields entry fault

/-- The fault of the first item of a list that does not fit. -/
def ItemsOffend (items : List Json) (fault : LoadFault) : Prop :=
  ∃ before j after, items = before ++ j :: after ∧ (∀ item ∈ before, Fits .tree item) ∧
    Offends .tree j fault

/-- The kind of an object says which fields are read. -/
theorem roles_unique {kind kind' : String} {roles roles' : List (String × Role)}
    (hkind : Json.field? fields "type" = some (.string kind)) (hroles : roles? kind = some roles)
    (hkind' : Json.field? fields "type" = some (.string kind'))
    (hroles' : roles? kind' = some roles') : roles = roles' := by
  obtain rfl := Json.string.inj (Option.some.inj (hkind.symm.trans hkind'))
  exact Option.some.inj (hroles.symm.trans hroles')

theorem Offends.not_fits (h : Offends role j fault) : ¬Fits role j := by
  intro hfits
  induction h with
  | integer hlarge =>
    cases hfits with
    | scalar hsmall => exact Nat.not_lt.mpr hlarge (hsmall _ rfl)
  | token h =>
    cases hfits with
    | token hfits => exact h.not_fits hfits
  | bare hscalar hnull =>
    cases hfits with
    | null => exact hnull rfl
    | list | object => exact hscalar
  | item _ _ ih =>
    cases hfits with
    | list hitems => exact ih (hitems _ (by simp))
  | untyped hkind =>
    cases hfits with
    | object hkind' => simp [hkind] at hkind'
  | unknown hkind h =>
    cases hfits with
    | object hkind' hroles =>
      obtain rfl := Option.some.inj (hkind.symm.trans hkind')
      exact h _ _ hroles rfl
  | absent hkind hroles _ hfield hrole =>
    cases hfits with
    | object hkind' hroles' habsent =>
      obtain rfl := roles_unique hkind hroles hkind' hroles'
      exact hrole (habsent (_, _) (by simp) hfield)
  | field hkind hroles _ hfield _ ih =>
    cases hfits with
    | object hkind' hroles' _ hpresent =>
      obtain rfl := roles_unique hkind hroles hkind' hroles'
      exact ih (hpresent (_, _) (by simp) _ hfield)
  | optionalTree _ ih =>
    cases hfits with
    | optionalTree hfits => exact ih hfits
  | notTrees h =>
    cases hfits with
    | trees => exact h _ rfl
  | statement _ _ ih =>
    cases hfits with
    | trees hitems => exact ih (hitems _ (by simp))

theorem FieldOffends.not_fits {entry : String × Role} (h : FieldOffends fields entry fault) :
    ¬FitsField fields entry := by
  intro hfits
  cases h with
  | absent hfield hrole => exact hrole (hfits.absent hfield)
  | present hfield h => exact h.not_fits (hfits.present _ hfield)

/-- The first element of a list that lacks a property has only one place. -/
theorem first_unique {α : Type} {p : α → Prop} {before before' after after' : List α} {a a' : α}
    (h : before ++ a :: after = before' ++ a' :: after') (hbefore : ∀ x ∈ before, p x) (ha : ¬p a)
    (hbefore' : ∀ x ∈ before', p x) (ha' : ¬p a') : a = a' := by
  induction before generalizing before' with
  | nil =>
    cases before' with
    | nil => exact (List.cons.inj h).1
    | cons x rest =>
      obtain ⟨rfl, -⟩ := List.cons.inj h
      exact absurd (hbefore' a List.mem_cons_self) ha
  | cons x rest ih =>
    cases before' with
    | nil =>
      obtain ⟨rfl, -⟩ := List.cons.inj h
      exact absurd (hbefore x List.mem_cons_self) ha'
    | cons y rest' =>
      exact ih (List.cons.inj h).2 (List.forall_mem_cons.mp hbefore).2
        (List.forall_mem_cons.mp hbefore').2

theorem Offends.items {items : List Json} (h : Offends .tree (.array items) fault) :
    ItemsOffend items fault := by
  generalize hj : Json.array items = j at h
  cases h with
  | bare hscalar =>
    subst hj
    exact hscalar.elim
  | item hbefore h => exact ⟨_, _, _, Json.array.inj hj, hbefore, h⟩
  | _ => cases hj

theorem Offends.statements {items : List Json} (h : Offends .trees (.array items) fault) :
    ItemsOffend items fault := by
  generalize hj : Json.array items = j at h
  cases h with
  | notTrees h => exact absurd hj.symm (h _)
  | statement hbefore h => exact ⟨_, _, _, Json.array.inj hj, hbefore, h⟩

/-- The fault of a list is that of its first item that does not fit. -/
theorem ItemsOffend.of_first {before after : List Json}
    (h : ItemsOffend (before ++ j :: after) fault) (hbefore : ∀ item ∈ before, Fits .tree item)
    (hj : ¬Fits .tree j) : Offends .tree j fault := by
  obtain ⟨before', j', after', hitems, hbefore', h⟩ := h
  obtain rfl := first_unique hitems hbefore hj hbefore' h.not_fits
  exact h

/-- The fault of an object of known kind is that of the first field of the kind that does not fit. -/
theorem Offends.of_object {kind name : String} {role : Role} {before after : List (String × Role)}
    (hkind : Json.field? fields "type" = some (.string kind))
    (hroles : roles? kind = some (before ++ (name, role) :: after))
    (hbefore : ∀ entry ∈ before, FitsField fields entry) (hfits : ¬FitsField fields (name, role))
    (h : Offends .tree (.object fields) fault) : FieldOffends fields (name, role) fault := by
  cases h with
  | bare hscalar => exact hscalar.elim
  | untyped hnone => simp [hkind] at hnone
  | unknown hkind' hunknown =>
    obtain rfl := Option.some.inj (hkind.symm.trans hkind')
    exact absurd rfl (hunknown _ _ hroles)
  | absent hkind' hroles' hbefore' hfield hrole =>
    have hentry := FieldOffends.absent hfield hrole
    have hroles := roles_unique hkind hroles hkind' hroles'
    rw [first_unique hroles hbefore hfits hbefore' hentry.not_fits]
    exact hentry
  | field hkind' hroles' hbefore' hfield h =>
    have hentry := FieldOffends.present hfield h
    have hroles := roles_unique hkind hroles hkind' hroles'
    rw [first_unique hroles hbefore hfits hbefore' hentry.not_fits]
    exact hentry

/-- A value has one fault at most. -/
theorem Offends.unique (h : Offends role j fault) (h' : Offends role j fault') : fault = fault' := by
  -- What is read before the element at fault fits, so the other way to a fault leads to it as well.
  induction h generalizing fault' with
  | integer =>
    cases h'
    rfl
  | token h =>
    cases h' with
    | token h' => exact h.unique h'
  | bare hscalar hnull =>
    cases h' with
    | bare => rfl
    | item | untyped | unknown | absent | field => exact hscalar.elim
  | item hbefore h ih => exact ih (h'.items.of_first hbefore h.not_fits)
  | statement hbefore h ih => exact ih (h'.statements.of_first hbefore h.not_fits)
  | untyped hnone =>
    cases h' with
    | bare hscalar => exact hscalar.elim
    | untyped => rfl
    | unknown hkind | absent hkind | field hkind => simp [hnone] at hkind
  | unknown hkind hunknown =>
    cases h' with
    | bare hscalar => exact hscalar.elim
    | untyped hnone => simp [hkind] at hnone
    | unknown hkind' => rw [Option.some.inj (hkind.symm.trans hkind')]
    | absent hkind' hroles | field hkind' hroles =>
      exact absurd (Option.some.inj (hkind.symm.trans hkind')) (hunknown _ _ hroles)
  | absent hkind hroles hbefore hfield hrole =>
    have hentry := FieldOffends.absent hfield hrole
    cases h'.of_object hkind hroles hbefore hentry.not_fits with
    | absent => rfl
    | present hfield' => simp [hfield] at hfield'
  | field hkind hroles hbefore hfield h ih =>
    have hentry := FieldOffends.present hfield h
    cases h'.of_object hkind hroles hbefore hentry.not_fits with
    | absent hfield' => simp [hfield] at hfield'
    | present hfield' h' =>
      obtain rfl := Option.some.inj (hfield.symm.trans hfield')
      exact ih h'
  | optionalTree _ ih =>
    cases h' with
    | optionalTree h' => exact ih h'
  | notTrees h =>
    cases h' with
    | notTrees => rfl
    | statement => exact absurd rfl (h _)

/-! Programs. -/

/-- The schema of saved programs. -/
def FitsProgram (j : Json) : Prop :=
  ∃ items, j = .array items ∧ ∀ item ∈ items, Fits .tree item

/-- The fault of a value that is no program, or of the first element that offends in one. -/
inductive ProgramOffends : Json → LoadFault → Prop where
  | notArray {j : Json} (h : ∀ items, j ≠ .array items) : ProgramOffends j .notAList
  | item {items : List Json} {fault : LoadFault} (h : ItemsOffend items fault) :
      ProgramOffends (.array items) fault

theorem ProgramOffends.not_fits {j : Json} {fault : LoadFault} (h : ProgramOffends j fault) :
    ¬FitsProgram j := by
  rintro ⟨items, rfl, hfits⟩
  cases h with
  | notArray h => exact h items rfl
  | item h =>
    obtain ⟨before, j, after, rfl, -, hj⟩ := h
    exact hj.not_fits (hfits j (by simp))

theorem ProgramOffends.unique {j : Json} {fault fault' : LoadFault} (h : ProgramOffends j fault)
    (h' : ProgramOffends j fault') : fault = fault' := by
  cases h with
  | notArray hj =>
    cases h' with
    | notArray => rfl
    | item => exact absurd rfl (hj _)
  | item h =>
    obtain ⟨before, j, after, rfl, hbefore, hj⟩ := h
    cases h' with
    | notArray hj' => exact absurd rfl (hj' _)
    | item h' => exact hj.unique (h'.of_first hbefore hj.not_fits)

end Node

end LoxCore
