import LoxCore.Proofs.Session.Detail
import LoxCore.Proofs.Node.Effect
import Mathlib

/-!
Evaluation as a flat run. The nodes of an expression are put in post-order, and a machine with a stack
of values performs one after the other. It comes to the outcome that evaluation comes to, and if a node
fails, it stops there.
-/
namespace LoxCore

/-- A node without its operands, which stand before it. -/
inductive Step where
  | literal (value : Value)
  | ref (name : Token)
  | assign (name : Token)
  | unary (operator : Token)
  | binary (operator : Token)
  | grouping

/-- The name that a step assigns to. -/
def Step.target? : Step → Option String
  | assign name => some name.lexeme
  | _ => none

/-- The fault that a step can have: its cause, worded for its own token, on the line of that token. -/
def Step.fault? : Step → Option Diagnostic
  | literal _ | grouping => none
  | ref name | assign name => some (.onToken name (.undefinedVariable name.lexeme))
  | unary operator => some (.onLine operator.line (.typeMismatch .oneNumber))
  | binary operator =>
    some (.onLine operator.line
      (.typeMismatch (if operator.kind = .plus then .numbersOrStrings else .numbers)))

/-- The nodes of an expression that can be evaluated: those of its operands from left to right, then
the node itself. -/
def Node.postorder : Node → List Step
  | literal value => [.literal value]
  | ref name => [.ref name]
  | assign name value => postorder value ++ [.assign name]
  | unary operator right => postorder right ++ [.unary operator]
  | binary left operator right => postorder left ++ (postorder right ++ [.binary operator])
  | grouping inner => postorder inner ++ [.grouping]
  | _ => []

/-- The assignment that a note is about. -/
def Note.assignment? : Note → Option (String × Value)
  | assigned name value => some (name, value)
  | _ => none

/-- The store after some assignments, one after the other. -/
def Store.defineAll (store : Store) (assignments : List (String × Value)) : Store :=
  assignments.foldl (fun store entry => store.define entry.1 entry.2) store

/-- The state between two steps. -/
structure Machine where
  /-- The values that no step has taken yet, the latest one first. -/
  values : List Value
  store : Store

namespace Machine

/-- What a step does if it does not fail: the machine before it, the notes for a trace with all details,
and the machine after it. -/
inductive Performs : Machine → Step → List Note → Machine → Prop where
  | literal (values : List Value) (store : Store) (value : Value) :
      Performs ⟨values, store⟩ (.literal value) [] ⟨value :: values, store⟩
  | ref (values : List Value) {store : Store} {name : Token} {value : Value}
      (h : store.get? name.lexeme = some value) :
      Performs ⟨values, store⟩ (.ref name) [] ⟨value :: values, store⟩
  | assign (values : List Value) {store : Store} {name : Token} (value : Value)
      (h : store.Defines name.lexeme) :
      Performs ⟨value :: values, store⟩ (.assign name) [.assigned name.lexeme value]
        ⟨value :: values, store.define name.lexeme value⟩
  | unary (values : List Value) (store : Store) {operator : Token} {right result : Value}
      (h : right.applyUnary operator = .ok result) :
      Performs ⟨right :: values, store⟩ (.unary operator) [] ⟨result :: values, store⟩
  | binary (values : List Value) (store : Store) {operator : Token} {left right result : Value}
      (h : Value.applyBinary operator left right = .ok result) :
      Performs ⟨right :: left :: values, store⟩ (.binary operator)
        [.computed left operator.lexeme right result] ⟨result :: values, store⟩
  | grouping (m : Machine) : Performs m .grouping [] m

/-- How a step fails: the machine, which the step leaves as it is, and what is wrong. -/
inductive Fails : Machine → Step → Diagnostic → Prop where
  | ref (values : List Value) {store : Store} {name : Token} (h : store.get? name.lexeme = none) :
      Fails ⟨values, store⟩ (.ref name) (Store.undefined name)
  | assign (values : List Value) {store : Store} {name : Token} (value : Value)
      (h : store.get? name.lexeme = none) :
      Fails ⟨value :: values, store⟩ (.assign name) (Store.undefined name)
  | unary (values : List Value) (store : Store) {operator : Token} {right : Value} {d : Diagnostic}
      (h : right.applyUnary operator = .error (.fault d)) :
      Fails ⟨right :: values, store⟩ (.unary operator) d
  | binary (values : List Value) (store : Store) {operator : Token} {left right : Value}
      {d : Diagnostic} (h : Value.applyBinary operator left right = .error (.fault d)) :
      Fails ⟨right :: left :: values, store⟩ (.binary operator) d

/-- Steps one after the other, none of which fails. -/
inductive Runs : Machine → List Step → List Note → Machine → Prop where
  | nil (m : Machine) : Runs m [] [] m
  | cons {first middle last : Machine} {step : Step} {rest : List Step} {noted notes : List Note}
      (h : Performs first step noted middle) (hrest : Runs middle rest notes last) :
      Runs first (step :: rest) (noted ++ notes) last

/-- The outcome of some steps with a trace of some detail. It is the value that they leave on top of
the values `below`, or the fault of the first step that fails. -/
inductive EndsWith (detail : Nat) (below : List Value) (start : Machine) (steps : List Step) :
    Outcome Value → Prop where
  | value {value : Value} {store : Store} {notes : List Note}
      (h : Runs start steps notes ⟨value :: below, store⟩) :
      EndsWith detail below start steps ⟨.ok value, store, [], notes.filter (Note.isShown detail)⟩
  | fault {done rest : List Step} {failing : Step} {notes : List Note} {last : Machine}
      {d : Diagnostic} (hsteps : steps = done ++ failing :: rest) (h : Runs start done notes last)
      (hfailing : Fails last failing d) :
      EndsWith detail below start steps
        ⟨.error (.fault d), last.store, [], notes.filter (Note.isShown detail)⟩

/-! The machine has one way to go on. -/

theorem Performs.unique {m a b : Machine} {step : Step} {noted noted' : List Note}
    (h : Performs m step noted a) (h' : Performs m step noted' b) : noted = noted' ∧ a = b := by
  cases h with
  | literal | assign | grouping =>
    cases h'
    exact ⟨rfl, rfl⟩
  | ref values hvalue =>
    cases h' with
    | ref _ hvalue' =>
      obtain rfl := Option.some.inj (hvalue.symm.trans hvalue')
      exact ⟨rfl, rfl⟩
  | unary values store hresult =>
    cases h' with
    | unary _ _ hresult' =>
      obtain rfl := Except.ok.inj (hresult.symm.trans hresult')
      exact ⟨rfl, rfl⟩
  | binary values store hresult =>
    cases h' with
    | binary _ _ hresult' =>
      obtain rfl := Except.ok.inj (hresult.symm.trans hresult')
      exact ⟨rfl, rfl⟩

theorem Fails.unique {m : Machine} {step : Step} {d d' : Diagnostic} (h : Fails m step d)
    (h' : Fails m step d') : d = d' := by
  cases h with
  | ref | assign =>
    cases h'
    rfl
  | unary values store hresult =>
    cases h' with
    | unary _ _ hresult' =>
      exact Stop.fault.inj (Except.error.inj (hresult.symm.trans hresult'))
  | binary values store hresult =>
    cases h' with
    | binary _ _ hresult' =>
      exact Stop.fault.inj (Except.error.inj (hresult.symm.trans hresult'))

theorem Fails.not_performs {m m' : Machine} {step : Step} {d : Diagnostic} {noted : List Note}
    (h : Fails m step d) (h' : Performs m step noted m') : False := by
  cases h with
  | ref values hnone =>
    cases h' with
    | ref _ hvalue => cases hnone.symm.trans hvalue
  | assign values value hnone =>
    cases h' with
    | assign _ _ hdefined =>
      obtain ⟨old, hold⟩ := hdefined
      cases hnone.symm.trans hold
  | unary values store hresult =>
    cases h' with
    | unary _ _ hresult' => cases hresult.symm.trans hresult'
  | binary values store hresult =>
    cases h' with
    | binary _ _ hresult' => cases hresult.symm.trans hresult'

theorem Runs.unique {m a b : Machine} {steps : List Step} {notes notes' : List Note}
    (h : Runs m steps notes a) (h' : Runs m steps notes' b) : notes = notes' ∧ a = b := by
  induction h generalizing notes' with
  | nil =>
    cases h'
    exact ⟨rfl, rfl⟩
  | cons hfirst _ ih =>
    cases h' with
    | cons hfirst' hrest' =>
      obtain ⟨rfl, rfl⟩ := hfirst.unique hfirst'
      obtain ⟨rfl, rfl⟩ := ih hrest'
      exact ⟨rfl, rfl⟩

theorem Runs.trans {first middle last : Machine} {before after : List Step} {notes more : List Note}
    (h : Runs first before notes middle) (h' : Runs middle after more last) :
    Runs first (before ++ after) (notes ++ more) last := by
  induction h with
  | nil => exact h'
  | cons hfirst _ ih =>
    rw [List.append_assoc]
    exact .cons hfirst (ih h')

/-- The steps up to any of those performed have been performed, and that one too. -/
theorem Runs.exists_performs {first last : Machine} {before after : List Step} {step : Step}
    {notes : List Note} (h : Runs first (before ++ step :: after) notes last) :
    ∃ done noted middle next, Runs first before done middle ∧ Performs middle step noted next := by
  induction before generalizing first notes with
  | nil =>
    cases h with
    | cons hstep => exact ⟨[], _, first, _, .nil first, hstep⟩
  | cons other rest ih =>
    cases h with
    | cons hother hrest =>
      obtain ⟨done, noted, middle, next, hdone, hstep⟩ := ih hrest
      exact ⟨_, noted, middle, next, .cons hother hdone, hstep⟩

/-- A step that fails is not among those performed. -/
theorem Fails.not_runs {first left last : Machine} {before after : List Step} {step : Step}
    {done notes : List Note} {d : Diagnostic} (hdone : Runs first before done left)
    (h : Fails left step d) (hruns : Runs first (before ++ step :: after) notes last) : False := by
  obtain ⟨done', noted, middle, next, hdone', hstep⟩ := hruns.exists_performs
  obtain ⟨-, rfl⟩ := hdone.unique hdone'
  exact h.not_performs hstep

/-- Of some steps, only one can be the first that fails. -/
theorem Runs.unique_failing {first left left' : Machine} {done rest done' rest' : List Step}
    {failing failing' : Step} {notes notes' : List Note} {d d' : Diagnostic}
    (h : Runs first done notes left) (hfails : Fails left failing d)
    (h' : Runs first done' notes' left') (hfails' : Fails left' failing' d')
    (heq : done ++ failing :: rest = done' ++ failing' :: rest') :
    notes = notes' ∧ left = left' ∧ d = d' := by
  induction h generalizing done' notes' with
  | nil =>
    cases h' with
    | nil =>
      obtain ⟨rfl, -⟩ := List.cons.inj heq
      exact ⟨rfl, rfl, hfails.unique hfails'⟩
    | cons hfirst' =>
      obtain ⟨rfl, -⟩ := List.cons.inj heq
      exact (hfails.not_performs hfirst').elim
  | cons hfirst _ ih =>
    cases h' with
    | nil =>
      obtain ⟨rfl, -⟩ := List.cons.inj heq
      exact (hfails'.not_performs hfirst).elim
    | cons hfirst' hrest' =>
      obtain ⟨rfl, hsteps⟩ := List.cons.inj heq
      obtain ⟨rfl, rfl⟩ := hfirst.unique hfirst'
      obtain ⟨rfl, hleft, hd⟩ := ih hfails hrest' hsteps
      exact ⟨rfl, hleft, hd⟩

theorem EndsWith.unique {detail : Nat} {below : List Value} {start : Machine} {steps : List Step}
    {a b : Outcome Value} (h : EndsWith detail below start steps a)
    (h' : EndsWith detail below start steps b) : a = b := by
  cases h with
  | value hruns =>
    cases h' with
    | value hruns' =>
      obtain ⟨rfl, heq⟩ := hruns.unique hruns'
      cases heq
      rfl
    | fault hsteps hdone hfailing =>
      subst hsteps
      exact (hfailing.not_runs hdone hruns).elim
  | fault hsteps hdone hfailing =>
    cases h' with
    | value hruns' =>
      subst hsteps
      exact (hfailing.not_runs hdone hruns').elim
    | fault hsteps' hdone' hfailing' =>
      obtain ⟨rfl, rfl, rfl⟩ :=
        hdone.unique_failing hfailing hdone' hfailing' (hsteps.symm.trans hsteps')
      rfl

/-! What the steps say about the outcome. -/

/-- The store changes by the assignments among the steps, in their order, and by nothing else. -/
theorem Runs.store_eq {first last : Machine} {steps : List Step} {notes : List Note}
    (h : Runs first steps notes last) :
    last.store = first.store.defineAll (notes.filterMap Note.assignment?) ∧
      (notes.filterMap Note.assignment?).map Prod.fst = steps.filterMap Step.target? := by
  induction h with
  | nil => exact ⟨rfl, rfl⟩
  | cons hfirst _ ih =>
    obtain ⟨hstore, hnames⟩ := ih
    cases hfirst with
    | @assign values store name value => exact ⟨hstore, congrArg (name.lexeme :: ·) hnames⟩
    | _ => exact ⟨hstore, hnames⟩

end Machine

namespace Value

variable {operator : Token} {left right : Value} {d : Diagnostic}

theorem applyUnary_fault (h : right.applyUnary operator = .error (.fault d)) :
    d = .onLine operator.line (.typeMismatch .oneNumber) := by
  unfold applyUnary at h
  split at h
  · cases h
  · cases right <;> cases h <;> rfl
  · cases h

theorem arithmetic_fault {f : Float → Float → Float}
    (h : arithmetic operator f left right = .error (.fault d)) :
    d = .onLine operator.line (.typeMismatch .numbers) := by
  cases left <;> cases right <;> cases h <;> rfl

theorem applyBinary_fault (h : applyBinary operator left right = .error (.fault d)) :
    d = .onLine operator.line
      (.typeMismatch (if operator.kind = .plus then .numbersOrStrings else .numbers)) := by
  unfold applyBinary at h
  split at h <;> rename_i hkind
  · rw [if_pos hkind]
    cases left <;> cases right <;> cases h <;> rfl
  · rw [if_neg (by simp [hkind]), arithmetic_fault h]
  · rw [if_neg (by simp [hkind]), arithmetic_fault h]
  · rw [if_neg (by simp [hkind]), arithmetic_fault h]
  -- Comparisons take operands of every kind, and the other operators are not known.
  all_goals cases h

end Value

theorem Machine.Fails.fault? {m : Machine} {step : Step} {d : Diagnostic} (h : Fails m step d) :
    step.fault? = some d := by
  cases h with
  | ref | assign => rfl
  | unary values store hresult => rw [Value.applyUnary_fault hresult, Step.fault?]
  | binary values store hresult => rw [Value.applyBinary_fault hresult, Step.fault?]

namespace Machine.EndsWith

variable {detail : Nat} {below : List Value} {start : Machine} {store : Store}

/-- A single step that does not fail. -/
theorem performed {step : Step} {value : Value} {noted : List Note}
    (h : Performs start step noted ⟨value :: below, store⟩) :
    EndsWith detail below start [step] ⟨.ok value, store, [], noted.filter (Note.isShown detail)⟩ := by
  have hruns := Runs.cons h (.nil _)
  rw [List.append_nil] at hruns
  exact .value hruns

/-- A single step that fails. -/
theorem failed {step : Step} {d : Diagnostic} (h : Fails start step d) :
    EndsWith detail below start [step] ⟨.error (.fault d), start.store, [], []⟩ :=
  .fault (List.nil_append [step]).symm (.nil start) h

/-- Steps that come to the value of one action, and from there to the outcome of the next one. -/
theorem bind {a : Action Value} {next : Value → Action Value} {values : List Value}
    {before after : List Step} (ha : EndsWith detail values start before (a.run start.store))
    (hnext : ∀ value store,
      EndsWith detail below ⟨value :: values, store⟩ after ((next value).run store)) :
    EndsWith detail below start (before ++ after) ((a >>= next).run start.store) := by
  generalize hfirst : a.run start.store = first at ha
  cases ha with
  | @value value store notes hruns =>
    rw [Action.run_bind_of_ok (congrArg Outcome.result hfirst), hfirst]
    have hsecond := hnext value store
    generalize (next value).run store = second at hsecond
    cases hsecond with
    | value hruns' =>
      simp only [List.append_nil, ← List.filter_append]
      exact .value (hruns.trans hruns')
    | fault hsteps hdone hfailing =>
      simp only [List.append_nil, ← List.filter_append]
      rw [hsteps, ← List.append_assoc]
      exact .fault rfl (hruns.trans hdone) hfailing
  | fault hsteps hdone hfailing =>
    rw [Action.run_bind_of_error (congrArg Outcome.result hfirst), hfirst]
    rw [hsteps, List.append_assoc, List.cons_append]
    exact .fault rfl hdone hfailing

/-- A group passes on the value that is there. -/
theorem grouping {steps : List Step} {outcome : Outcome Value}
    (h : EndsWith detail below start steps outcome) :
    EndsWith detail below start (steps ++ [.grouping]) outcome := by
  cases h with
  | value hruns =>
    have hruns' := hruns.trans (.cons (.grouping _) (.nil _))
    rw [List.append_nil, List.append_nil] at hruns'
    exact .value hruns'
  | fault hsteps hdone hfailing =>
    rw [hsteps, List.append_assoc, List.cons_append]
    exact .fault rfl hdone hfailing

end Machine.EndsWith

/-- The faults of evaluation are no trees that cannot be run. -/
theorem Stop.IsFaultAt.exists_fault {P : Token → Prop} {reason : Stop} (h : reason.IsFaultAt P) :
    ∃ d, reason = .fault d := by
  cases h <;> exact ⟨_, rfl⟩

theorem Action.run_note_pure {α : Type} (detail : Nat) (step : Note) (value : α) (store : Store) :
    (note detail step >>= fun _ => pure value : Action α).run store =
      ⟨.ok value, store, [], [step].filter (Note.isShown detail)⟩ := by
  have hnotes : (if step.level ≤ detail then [step] else []) = [step].filter (Note.isShown detail) := by
    simp [List.filter_cons, Note.isShown_eq]
  change Outcome.mk (.ok value) store [] ((if step.level ≤ detail then [step] else []) ++ []) = _
  rw [hnotes, List.append_nil]

namespace Node

open Machine

variable {P : Token → Prop} (detail : Nat) (values : List Value) (store : Store)

theorem ends_assign (name : Token) (value : Value) :
    EndsWith detail values ⟨value :: values, store⟩ [.assign name]
      ((do
        Action.assign name value
        Action.note detail (.assigned name.lexeme value)
        return value : Action Value).run store) := by
  cases hold : store.get? name.lexeme with
  | none =>
    have hassign : (Action.assign name value).run store =
        ⟨.error (.fault (Store.undefined name)), store, [], []⟩ := by
      simp only [Action.run, Action.assign, Store.assign, hold]
    rw [Action.run_bind_of_error (congrArg Outcome.result hassign), hassign]
    exact .failed (.assign values value hold)
  | some old =>
    have hassign : (Action.assign name value).run store =
        ⟨.ok (), store.define name.lexeme value, [], []⟩ := by
      simp only [Action.run, Action.assign, Store.assign, hold]
    rw [Action.run_bind_of_ok (congrArg Outcome.result hassign), hassign, Action.run_note_pure]
    exact .performed (.assign values value ⟨old, hold⟩)

theorem ends_unary {operator : Token} (hkind : operator.kind ∈ Value.unaryOperators)
    (right : Value) : EndsWith detail values ⟨right :: values, store⟩ [.unary operator]
      ((Action.ofResult (right.applyUnary operator)).run store) := by
  cases hresult : right.applyUnary operator with
  | ok result => exact .performed (.unary values store hresult)
  | error reason =>
    obtain ⟨d, rfl⟩ :=
      (Value.applyUnary_error (P := fun _ => True) trivial hkind hresult).exists_fault
    exact .failed (.unary values store hresult)

theorem ends_binary {operator : Token} (hkind : operator.kind ∈ Value.binaryOperators)
    (left right : Value) : EndsWith detail values ⟨right :: left :: values, store⟩ [.binary operator]
      ((do
        let result ← Action.ofResult (Value.applyBinary operator left right)
        Action.note detail (.computed left operator.lexeme right result)
        return result : Action Value).run store) := by
  cases hresult : Value.applyBinary operator left right with
  | ok result =>
    have hrun : (Action.ofResult (.ok result)).run store = ⟨.ok result, store, [], []⟩ := rfl
    rw [Action.run_bind_of_ok (congrArg Outcome.result hrun), hrun, Action.run_note_pure]
    exact .performed (.binary values store hresult)
  | error reason =>
    obtain ⟨d, rfl⟩ :=
      (Value.applyBinary_error (P := fun _ => True) trivial hkind hresult).exists_fault
    exact .failed (.binary values store hresult)

/-- Evaluation comes to what the steps of the expression come to, whatever values lie below. -/
theorem Evaluable.ends {n : Node} (h : n.Evaluable P) :
    EndsWith detail values ⟨values, store⟩ n.postorder ((evaluate detail n).run store) := by
  -- An operand pushes its value on those that are there, so the values below differ from case to case.
  induction h generalizing values store with
  | literal value => exact .performed (.literal values store value)
  | @ref name =>
    simp only [evaluate, Action.run, Action.read, Store.read]
    cases hvalue : store.get? name.lexeme with
    | some value => exact .performed (.ref values hvalue)
    | none => exact .failed (.ref values hvalue)
  | @assign name value _ _ ih =>
    exact (ih values store).bind fun v store => ends_assign detail values store name v
  | unary _ hkind _ ih =>
    exact (ih values store).bind fun v store => ends_unary detail values store hkind v
  | binary _ hkind _ _ ih₁ ih₂ =>
    refine (ih₁ values store).bind fun a store => (ih₂ (a :: values) store).bind fun b store => ?_
    exact ends_binary detail values store hkind a b
  | grouping _ ih => exact (ih values store).grouping

/-- Evaluation is strict, goes from left to right and stops at the first node that fails. Its outcome is
the one outcome of the nodes in post-order, performed on a stack. All of them are performed, and the last
one leaves the value; or those before one that fails are, and the fault is that node's own, on the line
of its token. Either way the store is the one at the start after the assignments among the nodes that
were performed, in that order. -/
theorem evaluate_postorder {n : Node} (h : n.Evaluable fun _ => True) (detail : Nat)
    (values : List Value) (store : Store) :
    let outcome := (evaluate detail n).run store
    (∀ other, EndsWith detail values ⟨values, store⟩ n.postorder other ↔ other = outcome) ∧
    ∃ done notes left, Runs ⟨values, store⟩ done notes left ∧
      outcome.notes = notes.filter (Note.isShown detail) ∧ outcome.store = left.store ∧
      outcome.store = store.defineAll (notes.filterMap Note.assignment?) ∧
      (notes.filterMap Note.assignment?).map Prod.fst = done.filterMap Step.target? ∧
      (done = n.postorder ∧
          (∃ value, left.values = value :: values ∧ outcome.result = .ok value) ∨
        ∃ failing rest d, n.postorder = done ++ failing :: rest ∧ Fails left failing d ∧
          failing.fault? = some d ∧ outcome.result = .error (.fault d)) := by
  intro outcome
  have hends : EndsWith detail values ⟨values, store⟩ n.postorder outcome := h.ends detail values store
  refine ⟨fun other => ⟨fun hother => hother.unique hends, fun heq => heq ▸ hends⟩, ?_⟩
  generalize outcome = result at hends
  cases hends with
  | @value value last notes hruns =>
    obtain ⟨hstore, hnames⟩ := hruns.store_eq
    exact ⟨n.postorder, notes, _, hruns, rfl, rfl, hstore, hnames, .inl ⟨rfl, value, rfl, rfl⟩⟩
  | @fault done rest failing notes left d hsteps hruns hfailing =>
    obtain ⟨hstore, hnames⟩ := hruns.store_eq
    exact ⟨done, notes, left, hruns, rfl, rfl, hstore, hnames,
      .inr ⟨failing, rest, d, hsteps, hfailing, hfailing.fault?, rfl⟩⟩

/-- Two assignments, one inside the other, and an operator that fails after both, before the last one. -/
theorem evaluate_postorder_negation :
    let plus : Token := ⟨.plus, "+", .nil, 1⟩
    let minus : Token := ⟨.minus, "-", .nil, 2⟩
    let a : Token := ⟨.identifier, "a", .nil, 1⟩
    let b : Token := ⟨.identifier, "b", .nil, 1⟩
    let n := binary
      (grouping (assign a (binary (ref b) plus (assign b (literal (.string "y")))))) plus
      (unary minus (ref a))
    let store := (Store.define {} "a" .nil).define "b" (.string "x")
    let outcome := (evaluate 3 n).run store
    n.Evaluable (fun _ => True) ∧ EndsWith 3 [] ⟨[], store⟩ n.postorder outcome ∧
      outcome.result = .error (.fault ⟨2, .typeMismatch .oneNumber, .unnamed⟩) ∧
      outcome.store = store.defineAll [("b", .string "y"), ("a", .string "xy")] := by
  intro plus minus a b n store outcome
  have hn : n.Evaluable fun _ => True := by
    refine .binary trivial (by decide) ?_ (.unary trivial (by decide) (.ref trivial))
    refine .grouping (.assign trivial (.binary trivial (by decide) (.ref trivial) ?_))
    exact .assign trivial (.literal _)
  obtain ⟨hends, -⟩ := evaluate_postorder hn 3 [] store
  exact ⟨hn, (hends outcome).mpr rfl, by decide +kernel, by decide +kernel⟩

end Node

end LoxCore
