import LoxCore.Proofs.Node.Schema

/-!
Loading a saved tree succeeds where the tree fits the schema, and else fails with the fault of the first
element that does not.
-/
namespace LoxCore

theorem error_bind {ε α β : Type} (e : ε) (f : α → Except ε β) :
    (Except.error e >>= f) = .error e :=
  rfl

/-- An outcome is a success only where a condition holds, and a fault only if it is one of some. -/
def Decides {α : Type} (fits : Prop) (offends : LoadFault → Prop) : Except LoadFault α → Prop
  | .ok _ => fits
  | .error fault => offends fault

namespace Decides

variable {α β : Type} {fits fits' : Prop} {offends offends' : LoadFault → Prop}
  {x : Except LoadFault α}

theorem imp (h : Decides fits offends x) (hfits : fits → fits')
    (hoffends : ∀ fault, offends fault → offends' fault) : Decides fits' offends' x := by
  cases x with
  | ok a => exact hfits h
  | error fault => exact hoffends fault h

theorem map (h : Decides fits offends x) (f : α → β) : Decides fits offends (x.map f) := by
  cases x <;> exact h

/-- A schema decides an outcome exactly if what offends does not fit, and has one fault only. -/
theorem iff (h : Decides fits offends x) (hfits : ∀ fault, offends fault → ¬fits)
    (hunique : ∀ fault fault', offends fault → offends fault' → fault = fault') :
    ((∃ a, x = .ok a) ↔ fits) ∧ ∀ fault, x = .error fault ↔ offends fault := by
  cases x with
  | ok a =>
    refine ⟨⟨fun _ => h, fun _ => ⟨a, rfl⟩⟩, fun fault => ⟨nofun, fun hfault => ?_⟩⟩
    exact absurd h (hfits fault hfault)
  | error fault' =>
    refine ⟨⟨nofun, fun hfit => absurd hfit (hfits fault' h)⟩, fun fault => ⟨?_, fun hfault => ?_⟩⟩
    · rintro ⟨⟩
      exact h
    · rw [hunique fault fault' hfault h]

end Decides

/-! Tokens and scalars. -/

theorem Token.Kind.of_load_eq_error {j : Json} {fault : LoadFault} (h : load j = .error fault) :
    (∀ known : Token.Kind, j ≠ .string known.name) ∧ fault = j.kindFault := by
  constructor
  · rintro known rfl
    rw [load_name] at h
    cases h
  · unfold load at h
    split at h
    · split at h
      · cases h
      · exact (Except.error.inj h).symm
    · exact (Except.error.inj h).symm
    · exact (Except.error.inj h).symm
    · rename_i hstring harray hobject
      obtain rfl := Except.error.inj h
      cases j with
      | array items => exact absurd rfl (harray items)
      | object fields => exact absurd rfl (hobject fields)
      | _ => rfl

theorem Token.Literal.exists_load {j : Json} (h : j.IsScalar) : ∃ literal, load j = .ok literal := by
  cases j with
  | array | object => exact h.elim
  | _ => exact ⟨_, rfl⟩

namespace Node

theorem decides_token {j : Json} (h : Ordinary .token j) :
    Decides (Fits .token j) (Offends .token j) (Token.load j) := by
  cases h with | token hordinary =>
  cases j with
  | object fields =>
    obtain ⟨hlexeme, hliteral, hline⟩ := hordinary fields rfl
    simp only [Token.load, Json.require]
    cases hkindField : Json.field? fields "type" with
    | none => exact Offends.token (.untyped hkindField)
    | some kindField =>
      rw [ok_bind]
      cases hkind : Token.Kind.load kindField with
      | error fault =>
        obtain ⟨hunknown, rfl⟩ := Token.Kind.of_load_eq_error hkind
        exact Offends.token (.unknown hkindField hunknown)
      | ok kind =>
        obtain rfl := Token.Kind.eq_of_load hkind
        rw [ok_bind]
        cases hlexemeField : Json.field? fields "lexeme" with
        | none => exact Offends.token (.noLexeme hkindField hlexemeField)
        | some lexemeField =>
          obtain ⟨lexeme, rfl⟩ := hlexeme lexemeField hlexemeField
          have hscalar : ((Json.field? fields "literal").getD .null).IsScalar := by
            cases hfield : Json.field? fields "literal" with
            | none => trivial
            | some literalField => exact hliteral literalField hfield
          obtain ⟨literal, hload⟩ := Token.Literal.exists_load hscalar
          rw [ok_bind, hload]
          cases hlineField : Json.field? fields "line" with
          | none => exact Offends.token (.noLine hkindField hlexemeField hlineField)
          | some lineField =>
            obtain ⟨line, rfl⟩ := hline lineField hlineField
            exact Fits.token ⟨⟨_, hkindField⟩, ⟨_, hlexemeField⟩, ⟨_, hlineField⟩⟩
  | _ => exact Offends.token (.notObject (by simp))

theorem decides_scalar {j : Json} (h : Ordinary .scalar j) :
    Decides (Fits .scalar j) (Offends .scalar j) (Value.load j) := by
  cases h with | scalar hscalar =>
  cases j with
  | integer n =>
    simp only [Value.load]
    by_cases hlarge : Double.overflow ≤ n.natAbs
    · rw [if_pos ((Decimal.nearest_eq_infinity_iff _).mpr hlarge)]
      exact Offends.integer hlarge
    · rw [if_neg (fun h => hlarge ((Decimal.nearest_eq_infinity_iff _).mp h))]
      refine Fits.scalar fun m hm => ?_
      obtain rfl := Json.integer.inj hm
      exact Nat.lt_of_not_le hlarge
  | array | object => exact hscalar.elim
  | _ => exact Fits.scalar (by simp)

/-! Fields of an object, in the order of reading. -/

variable {fields : List (String × Json)} {roles : List (String × Role)} {α β : Type}

/-- What stands in a field is of ordinary form for a role. -/
def OrdinaryField (fields : List (String × Json)) (entry : String × Role) : Prop :=
  ∀ j, Json.field? fields entry.1 = some j → Ordinary entry.2 j

/-- Fields that no node of the kind has may hold anything. -/
theorem Ordinary.of_kind {kind : String}
    (hkind : Json.field? fields "type" = some (.string kind)) (hroles : roles? kind = some roles)
    (h : ∀ entry ∈ roles, OrdinaryField fields entry) : Ordinary .tree (.object fields) := by
  refine .object fun kind' roles' hkind' hroles' => ?_
  obtain rfl := roles_unique hkind hroles hkind' hroles'
  exact h

/-- An outcome of reading a field. -/
def DecidesField (fields : List (String × Json)) (entry : String × Role) (x : Except LoadFault α) :
    Prop :=
  OrdinaryField fields entry →
    Decides (FitsField fields entry) (FieldOffends fields entry) x

/-- An outcome of reading some fields: a success if all of them fit, else the fault of the first that
does not. -/
def DecidesFields (fields : List (String × Json)) (roles : List (String × Role))
    (x : Except LoadFault α) : Prop :=
  (∀ entry ∈ roles, OrdinaryField fields entry) →
    Decides (∀ entry ∈ roles, FitsField fields entry) (FieldsOffend fields roles) x

theorem DecidesFields.nil (a : α) : DecidesFields fields [] (pure a) :=
  fun _ => nofun

/-- Fields are read one after the other, up to the first that does not fit. -/
theorem DecidesFields.cons {entry : String × Role} {x : Except LoadFault α}
    {f : α → Except LoadFault β} (hx : DecidesField fields entry x)
    (hf : ∀ a, DecidesFields fields roles (f a)) :
    DecidesFields fields (entry :: roles) (x >>= f) := by
  intro hordinary
  obtain ⟨hentry, hroles⟩ := List.forall_mem_cons.mp hordinary
  have hx := hx hentry
  cases x with
  | error fault => exact ⟨[], entry, roles, rfl, nofun, hx⟩
  | ok a =>
    refine (hf a hroles).imp (fun hrest => List.forall_mem_cons.mpr ⟨hx, hrest⟩) ?_
    rintro fault ⟨before, other, after, rfl, hbefore, h⟩
    exact ⟨entry :: before, other, after, rfl, List.forall_mem_cons.mpr ⟨hx, hbefore⟩, h⟩

theorem DecidesFields.last {entry : String × Role} {x : Except LoadFault α}
    (hx : DecidesField fields entry x) : DecidesFields fields [entry] x := by
  rw [← bind_pure x]
  exact .cons hx .nil

/-- An object of known kind is read by the fields of its kind. -/
theorem DecidesFields.object {kind : String} {x : Except LoadFault α}
    (h : DecidesFields fields roles x) (hordinary : Ordinary .tree (.object fields))
    (hkind : Json.field? fields "type" = some (.string kind)) (hroles : roles? kind = some roles) :
    Decides (Fits .tree (.object fields)) (Offends .tree (.object fields)) x := by
  cases hordinary with
  | bare hscalar => exact hscalar.elim
  | object hordinary =>
    refine (h (hordinary kind roles hkind hroles)).imp (fun hall => ?_) ?_
    · exact .object hkind hroles (fun entry hmem => (hall entry hmem).absent)
        (fun entry hmem => (hall entry hmem).present)
    · rintro fault ⟨before, entry, after, rfl, hbefore, h⟩
      cases h with
      | absent hfield hrole => exact .absent hkind hroles hbefore hfield hrole
      | present hfield h => exact .field hkind hroles hbefore hfield h

/-- A field that has to be there. -/
theorem decides_require {name : String} {role : Role} {f : Json → Except LoadFault α}
    (hrole : role ≠ .optionalTree) (h : ∀ j, Json.field? fields name = some j → Ordinary role j →
      Decides (Fits role j) (Offends role j) (f j)) :
    DecidesField fields (name, role) (Json.require fields name >>= f) := by
  intro hordinary
  unfold Json.require
  cases hfield : Json.field? fields name with
  | none => exact .absent hfield hrole
  | some j =>
    refine (h j hfield (hordinary j hfield)).imp (fun hfits => ⟨?_, ?_⟩) (fun fault => .present hfield)
    · simp [hfield]
    · simpa [hfield] using hfits

theorem decides_requireToken (name : String) :
    DecidesField fields (name, .token) (requireToken fields name) :=
  decides_require (by simp) fun _ _ => decides_token

/-- The value of a literal. -/
theorem decides_requireScalar (name : String) :
    DecidesField fields (name, .scalar) (Json.require fields name >>= Value.load) :=
  decides_require (by simp) fun _ _ => decides_scalar

/-- Every field of the object that stands for a tree is decided by loading it. -/
def LoadsDecided (fields : List (String × Json)) : Prop :=
  ∀ name j, Json.field? fields name = some j → Ordinary .tree j →
    Decides (Fits .tree j) (Offends .tree j) (load j)

section Trees

variable (hload : LoadsDecided fields)
include hload

theorem decides_tree (name : String) :
    DecidesField fields (name, .tree) ((loadFields fields).require name) := by
  have hrequire : (loadFields fields).require name = Json.require fields name >>= load := by
    rw [Subtrees.require, lookup_loadFields, Json.require]
    cases Json.field? fields name <;> rfl
  rw [hrequire]
  exact decides_require (by simp) (hload name)

theorem decides_optionalTree (name : String) :
    DecidesField fields (name, .optionalTree) ((loadFields fields).optional name) := by
  intro hordinary
  rw [Subtrees.optional, lookup_loadFields]
  cases hfield : Json.field? fields name with
  | none => exact ⟨fun _ => rfl, by simp [hfield]⟩
  | some j =>
    cases hordinary j hfield with | optionalTree hj =>
    refine (hload name j hfield hj).imp (fun hfits => ⟨?_, ?_⟩)
      (fun fault hoffends => .present hfield (.optionalTree hoffends))
    · simp [hfield]
    · simpa [hfield] using .optionalTree hfits

/-- The statements of a block. -/
theorem decides_statements : DecidesField fields ("statements", .trees)
    (Json.require fields "statements" >>= fun j => loadBlock j (loadFields fields)) := by
  refine decides_require (by simp) fun j hfield hordinary => ?_
  cases hordinary with
  | @trees items hitems =>
    have hrequire : (loadFields fields).require "statements" = load (.array items) := by
      rw [Subtrees.require, lookup_loadFields, hfield]
      rfl
    rw [loadBlock, hrequire]
    refine ((hload _ _ hfield (.list hitems)).imp (fun hfits => ?_) fun fault hoffends => ?_).map _
    · cases hfits with
      | list hfits => exact .trees hfits
    · obtain ⟨before, j, after, rfl, hbefore, h⟩ := hoffends.items
      exact .statement hbefore h
  | notTrees hscalar hstring =>
    cases j with
    | string s => exact absurd rfl (hstring s)
    | array | object => exact hscalar.elim
    | _ => exact Offends.notTrees (by simp)

/-- A node made of one tree. -/
theorem decidesFields_inner (make : Node → Node) : DecidesFields fields [("expression", .tree)]
    (do return make (← (loadFields fields).require "expression")) :=
  .cons (decides_tree hload _) fun _ => .nil _

/-- A node made of an operator between two trees. -/
theorem decidesFields_operands (make : Node → Token → Node → Node) :
    DecidesFields fields [("left", .tree), ("operator", .token), ("right", .tree)]
      (do
        let left ← (loadFields fields).require "left"
        let operator ← requireToken fields "operator"
        return make left operator (← (loadFields fields).require "right")) :=
  .cons (decides_tree hload _) fun _ => .cons (decides_requireToken _) fun _ =>
    .cons (decides_tree hload _) fun _ => .nil _

/-- A node made of a token before a tree. -/
theorem decidesFields_led (token tree : String) (make : Token → Node → Node) :
    DecidesFields fields [(token, .token), (tree, .tree)]
      (do
        let led ← requireToken fields token
        return make led (← (loadFields fields).require tree)) :=
  .cons (decides_requireToken _) fun _ => .cons (decides_tree hload _) fun _ => .nil _

/-- The node that an object describes. -/
theorem decides_ofFields (hordinary : Ordinary .tree (.object fields)) :
    Decides (Fits .tree (.object fields)) (Offends .tree (.object fields))
      (ofFields fields (loadFields fields)) := by
  -- Each kind of node reads its fields in the order in which `roles?` lists them.
  unfold ofFields
  split
  · rename_i hkind
    exact Offends.untyped hkind
  · rename_i hkind
    rw [← bind_assoc]
    exact (DecidesFields.cons (decides_requireScalar _) fun _ => .nil _).object hordinary hkind rfl
  · rename_i hkind
    exact (DecidesFields.cons (decides_requireToken _) fun _ => .nil _).object hordinary hkind rfl
  · rename_i hkind
    exact (decidesFields_led hload _ _ assign).object hordinary hkind rfl
  · rename_i hkind
    exact (decidesFields_operands hload logical).object hordinary hkind rfl
  · rename_i hkind
    exact (decidesFields_led hload _ _ unary).object hordinary hkind rfl
  · rename_i hkind
    exact (decidesFields_operands hload binary).object hordinary hkind rfl
  · rename_i hkind
    exact (decidesFields_inner hload grouping).object hordinary hkind rfl
  · rename_i hkind
    exact (DecidesFields.last (decides_statements hload)).object hordinary hkind rfl
  · rename_i hkind
    exact (decidesFields_inner hload expression).object hordinary hkind rfl
  · rename_i hkind
    exact (DecidesFields.cons (decides_tree hload _) fun _ => .cons (decides_tree hload _) fun _ =>
      .cons (decides_optionalTree hload _) fun _ => .nil _).object hordinary hkind rfl
  · rename_i hkind
    exact (decidesFields_inner hload print).object hordinary hkind rfl
  · rename_i hkind
    exact (DecidesFields.cons (decides_requireToken _) fun _ =>
      .cons (decides_optionalTree hload _) fun _ => .nil _).object hordinary hkind rfl
  · rename_i hkind
    refine Offends.unknown hkind fun known roles hroles => ?_
    rintro rfl
    unfold roles? at hroles
    split at hroles <;> simp_all

end Trees

mutual

/-- Loading decides the schema. -/
theorem decides_load : ∀ j, Ordinary .tree j → Decides (Fits .tree j) (Offends .tree j) (load j)
  | .null, _ => Fits.null
  | .array items, h => by
    cases h with
    | bare hscalar => exact hscalar.elim
    | list hitems =>
      refine ((decides_loadAll items hitems).imp .list ?_).map _
      rintro fault ⟨before, j, after, rfl, hbefore, h⟩
      exact .item hbefore h
  | .object fields, h => decides_ofFields (decides_loadFields fields) h
  | .bool _, _ | .integer _, _ | .number _, _ | .string _, _ => Offends.bare trivial nofun

theorem decides_loadAll : ∀ items : List Json, (∀ item ∈ items, Ordinary .tree item) →
    Decides (∀ item ∈ items, Fits .tree item) (ItemsOffend items) (loadAll items)
  | [], _ => nofun
  | j :: rest, h => by
    obtain ⟨hj, hrest⟩ := List.forall_mem_cons.mp h
    have hfirst := decides_load j hj
    unfold loadAll
    split
    · rename_i fault hfault
      rw [hfault] at hfirst
      exact ⟨[], j, rest, rfl, nofun, hfirst⟩
    · rename_i n hn
      rw [hn] at hfirst
      refine ((decides_loadAll rest hrest).imp (fun hfits => ?_) ?_).map _
      · exact List.forall_mem_cons.mpr ⟨hfirst, hfits⟩
      · rintro fault ⟨before, other, after, rfl, hbefore, h⟩
        exact ⟨j :: before, other, after, rfl, List.forall_mem_cons.mpr ⟨hfirst, hbefore⟩, h⟩

theorem decides_loadFields : ∀ fields : List (String × Json), LoadsDecided fields
  | [] => nofun
  | (other, j) :: rest => by
    intro name found hfound hordinary
    rw [Json.field?_cons] at hfound
    split at hfound
    · obtain rfl := Option.some.inj hfound
      exact decides_load j hordinary
    · exact decides_loadFields rest name found hfound hordinary

end

theorem decides_loadStatements {j : Json} (h : Ordinary .tree j) :
    Decides (FitsProgram j) (ProgramOffends j) (loadStatements j) := by
  cases j with
  | array items =>
    cases h with
    | bare hscalar => exact hscalar.elim
    | list hitems =>
      exact (decides_loadAll items hitems).imp (fun hfits => ⟨items, rfl, hfits⟩) (fun _ => .item)
  | _ => exact ProgramOffends.notArray nofun

end Node

end LoxCore
