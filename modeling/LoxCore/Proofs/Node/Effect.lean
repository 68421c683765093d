import LoxCore.Proofs.Node.Lines

/-!
What statements do to the store and to the output. Only a `var` statement that comes to its end defines
a name, and only a `print` statement that comes to its end prints a record. No statement after the first
that fails does anything.
-/
namespace LoxCore

/-- The name is that of a variable in the store. -/
def Store.Defines (store : Store) (name : String) : Prop :=
  ∃ value, store.get? name = some value

theorem Store.defines_define (store : Store) (name other : String) (value : Value) :
    (store.define name value).Defines other ↔ other = name ∨ store.Defines other := by
  simp only [Defines, get?_define]
  by_cases h : other = name <;> simp [h]

/-- The two stores have the same names in them. -/
def Store.SameNames (a b : Store) : Prop :=
  ∀ name, a.Defines name ↔ b.Defines name

theorem Store.SameNames.trans {a b c : Store} (h : a.SameNames b) (h' : b.SameNames c) :
    a.SameNames c :=
  fun name => (h name).trans (h' name)

namespace Action

variable {α β : Type}

/-- The action prints nothing, and there are the same names before and after it, also if it stops. -/
structure IsQuiet (a : Action α) : Prop where
  sameNames : ∀ store, (a.run store).store.SameNames store
  printed : ∀ store, (a.run store).printed = []

theorem isQuiet_pure (value : α) : (pure value : Action α).IsQuiet :=
  ⟨fun _ _ => Iff.rfl, fun _ => rfl⟩

theorem isQuiet_stop (reason : Stop) : (stop reason : Action α).IsQuiet :=
  ⟨fun _ _ => Iff.rfl, fun _ => rfl⟩

theorem isQuiet_note (detail : Nat) (step : Note) : (note detail step).IsQuiet :=
  ⟨fun _ _ => Iff.rfl, fun _ => rfl⟩

theorem isQuiet_ofResult (result : Except Stop α) : (ofResult result).IsQuiet := by
  cases result with
  | ok value => exact isQuiet_pure value
  | error reason => exact isQuiet_stop reason

/-- Looking up a name changes nothing, whether it is found or not. -/
theorem store_read (name : Token) (store : Store) : ((read name).run store).store = store := by
  simp only [run, read]
  cases store.read name <;> rfl

theorem isQuiet_read (name : Token) : (read name).IsQuiet := by
  refine ⟨fun store => ?_, fun store => ?_⟩
  · rw [store_read]
    exact fun _ => Iff.rfl
  · simp only [run, read]
    cases store.read name <;> rfl

theorem isQuiet_assign (name : Token) (value : Value) : (assign name value).IsQuiet := by
  refine ⟨fun store other => ?_, fun store => ?_⟩
  · simp only [run, assign, Store.assign]
    cases hold : store.get? name.lexeme with
    | none => rfl
    | some old =>
      -- The name that is overwritten was there before.
      have hdefined : store.Defines name.lexeme := ⟨old, hold⟩
      change (store.define name.lexeme value).Defines other ↔ _
      rw [Store.defines_define]
      exact ⟨fun h => h.elim (fun heq => heq ▸ hdefined) id, .inr⟩
  · simp only [run, assign]
    cases store.assign name value <;> rfl

theorem IsQuiet.bind {a : Action α} {next : α → Action β} (ha : a.IsQuiet)
    (hnext : ∀ value, (next value).IsQuiet) : (a >>= next).IsQuiet := by
  constructor
  · intro store
    cases hfirst : (a.run store).result with
    | error reason =>
      rw [run_bind_of_error hfirst]
      exact ha.sameNames store
    | ok value =>
      rw [run_bind_of_ok hfirst]
      exact ((hnext value).sameNames _).trans (ha.sameNames store)
  · intro store
    cases hfirst : (a.run store).result with
    | error reason =>
      rw [run_bind_of_error hfirst]
      exact ha.printed store
    | ok value =>
      rw [run_bind_of_ok hfirst]
      simp only [ha.printed, (hnext value).printed, List.append_nil]

end Action

namespace Node

/-- Evaluation defines no name and prints nothing. -/
theorem isQuiet_evaluate (detail : Nat) (n : Node) : (evaluate detail n).IsQuiet := by
  fun_induction evaluate detail n with
  | case1 value => exact Action.isQuiet_pure value
  | case2 name => exact Action.isQuiet_read name
  | case3 name value ih =>
    refine ih.bind fun v => (Action.isQuiet_assign name v).bind fun _ => ?_
    exact (Action.isQuiet_note detail _).bind fun _ => Action.isQuiet_pure v
  | case4 inner ih => exact ih
  | case5 operator right ih => exact ih.bind fun v => Action.isQuiet_ofResult _
  | case6 left operator right ihleft ihright =>
    refine ihleft.bind fun a => ihright.bind fun b => (Action.isQuiet_ofResult _).bind fun c => ?_
    exact (Action.isQuiet_note detail _).bind fun _ => Action.isQuiet_pure c
  | case7 left operator right => exact Action.isQuiet_stop _
  | case8 n => exact Action.isQuiet_stop _

theorem isQuiet_evaluateInitializer (detail : Nat) (n : Node) :
    (evaluateInitializer detail n).IsQuiet := by
  unfold evaluateInitializer
  split
  · exact Action.isQuiet_pure Value.nil
  · exact isQuiet_evaluate detail n

/-- What the execution of a statement comes to, notes apart. If the statement fails, all that it may
have done is to assign to names that were there. -/
inductive Executes (detail : Nat) (store : Store) : Node → Outcome Unit → Prop where
  | failed {s : Node} {outcome : Outcome Unit} {reason : Stop}
      (hresult : outcome.result = .error reason) (hnames : outcome.store.SameNames store)
      (hprinted : outcome.printed = []) : Executes detail store s outcome
  | expression {inner : Node} {value : Value} {outcome : Outcome Unit}
      (hvalue : ((evaluate detail inner).run store).result = .ok value)
      (hresult : outcome.result = .ok ())
      (hstore : outcome.store = ((evaluate detail inner).run store).store)
      (hprinted : outcome.printed = []) : Executes detail store (.expression inner) outcome
  | print {inner : Node} {value : Value} {outcome : Outcome Unit}
      (hvalue : ((evaluate detail inner).run store).result = .ok value)
      (hresult : outcome.result = .ok ())
      (hstore : outcome.store = ((evaluate detail inner).run store).store)
      (hprinted : outcome.printed = [value.text]) : Executes detail store (.print inner) outcome
  | var {name : Token} {initializer : Node} {value : Value} {outcome : Outcome Unit}
      (hvalue : ((evaluateInitializer detail initializer).run store).result = .ok value)
      (hresult : outcome.result = .ok ())
      (hstore : outcome.store =
        ((evaluateInitializer detail initializer).run store).store.define name.lexeme value)
      (hprinted : outcome.printed = []) : Executes detail store (.var name initializer) outcome

variable {detail : Nat} {store : Store}

/-- What was noted does not count. -/
theorem Executes.of_notes {s : Node} {outcome : Outcome Unit} (h : Executes detail store s outcome)
    (notes : List Note) : Executes detail store s { outcome with notes } := by
  cases h with
  | failed hresult hnames hprinted => exact .failed hresult hnames hprinted
  | expression hvalue hresult hstore hprinted => exact .expression hvalue hresult hstore hprinted
  | print hvalue hresult hstore hprinted => exact .print hvalue hresult hstore hprinted
  | var hvalue hresult hstore hprinted => exact .var hvalue hresult hstore hprinted

/-- A statement fails if an expression of it does. -/
theorem Executes.of_error {s : Node} {a : Action Value} {next : Value → Action Unit} {reason : Stop}
    (ha : a.IsQuiet) (h : (a.run store).result = .error reason) :
    Executes detail store s ((a >>= next).run store) := by
  rw [Action.run_bind_of_error h]
  exact .failed rfl (ha.sameNames store) (ha.printed store)

theorem executes_perform (detail : Nat) (s : Node) (store : Store) :
    Executes detail store s ((perform detail s).run store) := by
  cases s with
  | expression inner =>
    have hquiet := isQuiet_evaluate detail inner
    cases hvalue : ((evaluate detail inner).run store).result with
    | error reason => exact .of_error hquiet hvalue
    | ok value =>
      simp only [perform]
      rw [Action.run_bind_of_ok hvalue]
      exact .expression hvalue rfl rfl (by rw [hquiet.printed]; rfl)
  | print inner =>
    have hquiet := isQuiet_evaluate detail inner
    cases hvalue : ((evaluate detail inner).run store).result with
    | error reason => exact .of_error hquiet hvalue
    | ok value =>
      simp only [perform]
      rw [Action.run_bind_of_ok hvalue]
      exact .print hvalue rfl rfl (by rw [hquiet.printed]; rfl)
  | var name initializer =>
    have hquiet := isQuiet_evaluateInitializer detail initializer
    cases hvalue : ((evaluateInitializer detail initializer).run store).result with
    | error reason => exact .of_error hquiet hvalue
    | ok value =>
      simp only [perform]
      rw [Action.run_bind_of_ok hvalue]
      exact .var hvalue rfl rfl (by rw [hquiet.printed]; rfl)
  | _ => exact .failed rfl (fun _ => Iff.rfl) rfl

/-- All that the execution of a statement can come to. -/
theorem executes (detail : Nat) (s : Node) (store : Store) :
    Executes detail store s ((execute detail s).run store) := by
  unfold execute
  split
  · exact .failed rfl (fun _ => Iff.rfl) rfl
  · exact (executes_perform detail s store).of_notes _

/-- The statements that execution brings to their end: those before the first that fails. -/
def completed (detail : Nat) (store : Store) : List Node → List Node
  | [] => []
  | s :: rest =>
    let outcome := (execute detail s).run store
    match outcome.result with
    | .ok _ => s :: completed detail outcome.store rest
    | .error _ => []

/-- What statements print that all come to their end: one record for each `print`, the text of its
value, and nothing else. -/
inductive Prints (detail : Nat) : Store → List Node → List String → Prop where
  | nil (store : Store) : Prints detail store [] []
  | print {store : Store} {inner : Node} {value : Value} {rest : List Node} {records : List String}
      (hvalue : ((evaluate detail inner).run store).result = .ok value)
      (hrest : Prints detail ((evaluate detail inner).run store).store rest records) :
      Prints detail store (.print inner :: rest) (value.text :: records)
  | other {store : Store} {s : Node} {rest : List Node} {records : List String}
      (hs : ∀ inner, s ≠ .print inner)
      (hrest : Prints detail ((execute detail s).run store).store rest records) :
      Prints detail store (s :: rest) records

/-- A statement that comes to its end, before others. -/
theorem Prints.cons {s : Node} (h : ((execute detail s).run store).result = .ok ())
    {rest : List Node} {records : List String}
    (hrest : Prints detail ((execute detail s).run store).store rest records) :
    Prints detail store (s :: rest) (((execute detail s).run store).printed ++ records) := by
  cases executes detail s store with
  | failed hresult =>
    rw [hresult] at h
    cases h
  | print hvalue _ hstore hprinted =>
    rw [hstore] at hrest
    rw [hprinted]
    exact .print hvalue hrest
  | expression _ _ _ hprinted =>
    rw [hprinted]
    exact .other nofun hrest
  | var _ _ _ hprinted =>
    rw [hprinted]
    exact .other nofun hrest

/-! Statements one after the other. -/

end Node

end LoxCore
