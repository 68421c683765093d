import LoxCore.Execution

/-!
Trees that can be run. Execution of them never meets a node or an operator that it does not know: it
comes to its end, or stops at a name that is not defined, at operands of the wrong kind, or before a
statement that nests too deep.
-/
namespace LoxCore

/-- The prefix operators that evaluation knows. -/
def Value.unaryOperators : List Token.Kind :=
  [.bang, .minus]

/-- The binary operators that evaluation knows. -/
def Value.binaryOperators : List Token.Kind :=
  [.plus, .minus, .star, .slash, .greater, .greaterEqual, .less, .lessEqual, .equalEqual, .bangEqual]

namespace Node

/-- Expressions of the nodes and operators that evaluation knows, with all tokens of one class. There
are no logical operations among them, and no statements inside. -/
inductive Evaluable (P : Token → Prop) : Node → Prop where
  | literal (value : Value) : Evaluable P (.literal value)
  | ref {name : Token} (hname : P name) : Evaluable P (.ref name)
  | assign {name : Token} {value : Node} (hname : P name) (h : Evaluable P value) :
      Evaluable P (.assign name value)
  | unary {operator : Token} {right : Node} (hoperator : P operator)
      (hkind : operator.kind ∈ Value.unaryOperators) (h : Evaluable P right) :
      Evaluable P (.unary operator right)
  | binary {left right : Node} {operator : Token} (hoperator : P operator)
      (hkind : operator.kind ∈ Value.binaryOperators) (h₁ : Evaluable P left)
      (h₂ : Evaluable P right) : Evaluable P (.binary left operator right)
  | grouping {inner : Node} (h : Evaluable P inner) : Evaluable P (.grouping inner)

/-- Statements of the three kinds that execution knows, around such expressions. -/
inductive Executable (P : Token → Prop) : Node → Prop where
  | expression {inner : Node} (h : Evaluable P inner) : Executable P (.expression inner)
  | print {inner : Node} (h : Evaluable P inner) : Executable P (.print inner)
  | declare {name : Token} (hname : P name) : Executable P (.var name .null)
  | define {name : Token} {value : Node} (hname : P name) (h : Evaluable P value) :
      Executable P (.var name value)

end Node

namespace Action

variable {α β : Type}

/-- After an action that stops nothing is done. -/
theorem run_bind_of_error {a : Action α} {next : α → Action β} {store : Store} {reason : Stop}
    (h : (a.run store).result = .error reason) :
    (a >>= next).run store =
      ⟨.error reason, (a.run store).store, (a.run store).printed, (a.run store).notes⟩ := by
  change andThen a next store = _
  simp only [run, andThen] at h ⊢
  rcases houtcome : a store with ⟨result, after, printed, notes⟩
  rw [houtcome] at h
  cases h
  rfl

/-- After an action that comes to its end the next one goes on from its store. -/
theorem run_bind_of_ok {a : Action α} {next : α → Action β} {store : Store} {value : α}
    (h : (a.run store).result = .ok value) :
    (a >>= next).run store =
      { (next value).run (a.run store).store with
        printed := (a.run store).printed ++ ((next value).run (a.run store).store).printed
        notes := (a.run store).notes ++ ((next value).run (a.run store).store).notes } := by
  change andThen a next store = _
  simp only [run, andThen] at h ⊢
  rcases houtcome : a store with ⟨result, after, printed, notes⟩
  rw [houtcome] at h
  cases h
  rfl

/-- One of two actions stops if the whole does. -/
theorem result_of_bind_error {a : Action α} {next : α → Action β} {store : Store} {reason : Stop}
    (h : ((a >>= next).run store).result = .error reason) :
    (a.run store).result = .error reason ∨ ∃ value, (a.run store).result = .ok value ∧
      ((next value).run (a.run store).store).result = .error reason := by
  cases hfirst : (a.run store).result with
  | error first =>
    rw [run_bind_of_error hfirst] at h
    cases h
    exact .inl rfl
  | ok value =>
    rw [run_bind_of_ok hfirst] at h
    exact .inr ⟨value, rfl, h⟩

theorem bind_assoc {γ : Type} (a : Action α) (f : α → Action β) (g : β → Action γ) :
    a >>= f >>= g = a >>= fun value => f value >>= g := by
  funext store
  change andThen (andThen a f) g store = andThen a (fun value => andThen (f value) g) store
  unfold andThen
  rcases a store with ⟨reason | value, after, printed, notes⟩
  · rfl
  · dsimp only
    rcases f value after with ⟨reason | value', after', printed', notes'⟩ <;>
      simp only [List.append_assoc]

variable {Q : Stop → Prop}

/-- Whatever the store, the action comes to its end or stops for a reason of the given kind. -/
def StopsOnly (Q : Stop → Prop) (a : Action α) : Prop :=
  ∀ store reason, (a.run store).result = .error reason → Q reason

theorem stopsOnly_pure (value : α) : (pure value : Action α).StopsOnly Q := by
  intro store reason h
  cases h

theorem stopsOnly_note (detail : Nat) (step : Note) : (note detail step).StopsOnly Q := by
  intro store reason h
  cases h

theorem stopsOnly_define (name : String) (value : Value) : (define name value).StopsOnly Q := by
  intro store reason h
  cases h

theorem stopsOnly_print (text : String) : (print text).StopsOnly Q := by
  intro store reason h
  cases h

theorem stopsOnly_stop {reason : Stop} (h : Q reason) : (stop reason : Action α).StopsOnly Q := by
  intro store reason' heq
  cases heq
  exact h

theorem stopsOnly_ofResult {result : Except Stop α} (h : ∀ reason, result = .error reason → Q reason) :
    (ofResult result).StopsOnly Q := by
  cases result with
  | ok value => exact stopsOnly_pure value
  | error reason => exact stopsOnly_stop (h reason rfl)

theorem stopsOnly_read {name : Token} (h : Q (.fault (Store.undefined name))) :
    (read name).StopsOnly Q := by
  intro store reason heq
  simp only [run, read, Store.read] at heq
  cases hvalue : store.get? name.lexeme with
  | some value =>
    rw [hvalue] at heq
    cases heq
  | none =>
    rw [hvalue] at heq
    cases heq
    exact h

theorem stopsOnly_assign {name : Token} (h : Q (.fault (Store.undefined name))) (value : Value) :
    (assign name value).StopsOnly Q := by
  intro store reason heq
  simp only [run, assign, Store.assign] at heq
  cases hvalue : store.get? name.lexeme with
  | some old =>
    rw [hvalue] at heq
    cases heq
  | none =>
    rw [hvalue] at heq
    cases heq
    exact h

theorem StopsOnly.bind {a : Action α} {next : α → Action β} (ha : a.StopsOnly Q)
    (hnext : ∀ value, (next value).StopsOnly Q) : (a >>= next).StopsOnly Q := by
  intro store reason h
  rcases result_of_bind_error h with hfirst | ⟨value, -, hsecond⟩
  · exact ha store reason hfirst
  · exact hnext value (a.run store).store reason hsecond

theorem StopsOnly.mono {Q' : Stop → Prop} {a : Action α} (h : a.StopsOnly Q)
    (himp : ∀ reason, Q reason → Q' reason) : a.StopsOnly Q' :=
  fun store reason heq => himp reason (h store reason heq)

end Action

/-- The faults of evaluation, each at a token of the class: a name that is not defined, or operands
that an operator does not take. -/
inductive Stop.IsFaultAt (P : Token → Prop) : Stop → Prop where
  | undefined {name : Token} (h : P name) : IsFaultAt P (.fault (Store.undefined name))
  | mismatch {operator : Token} (h : P operator) (operands : Diagnostic.Operands) :
      IsFaultAt P (.fault (.onLine operator.line (.typeMismatch operands)))

/-- What can go wrong in a run: a fault of evaluation, or a statement that nests too deep. -/
inductive Stop.IsRunFaultAt (P : Token → Prop) : Stop → Prop where
  | fault {reason : Stop} (h : reason.IsFaultAt P) : IsRunFaultAt P reason
  | tooDeep (line : Int) : IsRunFaultAt P (.fault (.onLine line .evaluationTooDeep))

/-- A fault in a run has the code of its cause, and unless it is about the depth of a statement it is on
the line of a token. -/
theorem Stop.IsRunFaultAt.exists_fault {P : Token → Prop} {reason : Stop}
    (h : reason.IsRunFaultAt P) : ∃ d, reason = .fault d ∧
      (d.code = 103 ∨ (d.code = 100 ∨ d.code = 101) ∧ ∃ t, P t ∧ d.line = t.line) := by
  cases h with
  | tooDeep line => exact ⟨_, rfl, .inl rfl⟩
  | fault h =>
    cases h with
    | @undefined name hname => exact ⟨_, rfl, .inr ⟨.inl rfl, name, hname, rfl⟩⟩
    | @mismatch operator hoperator => exact ⟨_, rfl, .inr ⟨.inr rfl, operator, hoperator, rfl⟩⟩

namespace Value

variable {P : Token → Prop} {operator : Token} {reason : Stop}

theorem applyUnary_error (hoperator : P operator) (hkind : operator.kind ∈ unaryOperators)
    {right : Value} (h : right.applyUnary operator = .error reason) : reason.IsFaultAt P := by
  simp only [unaryOperators, List.mem_cons, List.not_mem_nil, or_false] at hkind
  rcases hkind with hkind | hkind <;> simp only [applyUnary, hkind] at h
  · cases h
  · cases right <;> cases h <;> exact .mismatch hoperator _

theorem applyBinary_error (hoperator : P operator) (hkind : operator.kind ∈ binaryOperators)
    {left right : Value} (h : applyBinary operator left right = .error reason) :
    reason.IsFaultAt P := by
  have harithmetic (f : Float → Float → Float) (h : arithmetic operator f left right =
      .error reason) : reason.IsFaultAt P := by
    cases left <;> cases right <;> cases h <;> exact .mismatch hoperator _
  have hadd (h : add operator left right = .error reason) : reason.IsFaultAt P := by
    cases left <;> cases right <;> cases h <;> exact .mismatch hoperator _
  simp only [binaryOperators, List.mem_cons, List.not_mem_nil, or_false] at hkind
  unfold applyBinary at h
  rcases hkind with hkind | hkind | hkind | hkind | hkind | hkind | hkind | hkind | hkind | hkind <;>
    simp only [hkind] at h
  · exact hadd h
  · exact harithmetic _ h
  · exact harithmetic _ h
  · exact harithmetic _ h
  -- Comparisons take operands of every kind.
  all_goals cases h

end Value

namespace Node

variable {P : Token → Prop}

/-- Evaluation of an expression stops at one of its own tokens if it does not come to its end. -/
theorem Evaluable.stopsOnly {n : Node} (h : n.Evaluable P) (detail : Nat) :
    (evaluate detail n).StopsOnly (Stop.IsFaultAt P) := by
  induction h with
  | literal value => exact Action.stopsOnly_pure value
  | ref hname => exact Action.stopsOnly_read (.undefined hname)
  | assign hname _ ih =>
    refine ih.bind fun value => ?_
    refine (Action.stopsOnly_assign (.undefined hname) value).bind fun _ => ?_
    exact (Action.stopsOnly_note detail _).bind fun _ => Action.stopsOnly_pure value
  | unary hoperator hkind _ ih =>
    refine ih.bind fun value => Action.stopsOnly_ofResult fun reason hresult => ?_
    exact Value.applyUnary_error hoperator hkind hresult
  | binary hoperator hkind _ _ ih₁ ih₂ =>
    refine ih₁.bind fun left => ih₂.bind fun right => ?_
    refine Action.StopsOnly.bind (Action.stopsOnly_ofResult fun reason hresult => ?_) fun value => ?_
    · exact Value.applyBinary_error hoperator hkind hresult
    · exact (Action.stopsOnly_note detail _).bind fun _ => Action.stopsOnly_pure value
  | grouping _ ih => exact ih

theorem Evaluable.evaluateInitializer_eq {n : Node} (h : n.Evaluable P) (detail : Nat) :
    evaluateInitializer detail n = evaluate detail n := by
  cases h <;> rfl

theorem Executable.stopsOnly_perform {statement : Node} (h : statement.Executable P) (detail : Nat) :
    (perform detail statement).StopsOnly (Stop.IsFaultAt P) := by
  cases h with
  | expression h => exact (h.stopsOnly detail).bind fun _ => Action.stopsOnly_pure ()
  | print h => exact (h.stopsOnly detail).bind fun value => Action.stopsOnly_print value.text
  | @declare name _ =>
    refine (Action.stopsOnly_pure Value.nil).bind fun value => ?_
    exact (Action.stopsOnly_define _ value).bind fun _ => Action.stopsOnly_note detail _
  | @define name value _ h =>
    have hvalue : (evaluateInitializer detail value).StopsOnly (Stop.IsFaultAt P) := by
      rw [h.evaluateInitializer_eq]
      exact h.stopsOnly detail
    refine hvalue.bind fun value => ?_
    exact (Action.stopsOnly_define _ value).bind fun _ => Action.stopsOnly_note detail _

theorem execute_of_tooDeep {statement : Node} (h : statement.isTooDeep = true) (detail : Nat) :
    execute detail statement =
      Action.stop (.fault (.onLine statement.firstLine .evaluationTooDeep)) := by
  rw [execute, if_pos h]

theorem execute_of_shallow {statement : Node} (h : statement.isTooDeep = false) (detail : Nat) :
    execute detail statement =
      Action.note detail (.executing statement) >>= fun _ => perform detail statement := by
  rw [execute, if_neg (by simp [h])]

/-- Execution of a statement stops at one of its own tokens, or before the whole of it. -/
theorem Executable.stopsOnly_execute {statement : Node} (h : statement.Executable P)
    (detail : Nat) : (execute detail statement).StopsOnly (Stop.IsRunFaultAt P) := by
  unfold execute
  split
  · exact Action.stopsOnly_stop (.tooDeep _)
  · refine (Action.stopsOnly_note detail _).bind fun _ => ?_
    exact (h.stopsOnly_perform detail).mono fun _ => .fault

theorem stopsOnly_interpret {statements : List Node} (h : ∀ s ∈ statements, s.Executable P)
    (detail : Nat) : (interpret detail statements).StopsOnly (Stop.IsRunFaultAt P) := by
  induction statements with
  | nil => exact Action.stopsOnly_pure ()
  | cons s rest ih =>
    obtain ⟨hs, hrest⟩ := List.forall_mem_cons.mp h
    exact (hs.stopsOnly_execute detail).bind fun _ => ih hrest

/-! Statements one after another. -/

theorem interpret_append (detail : Nat) (before after : List Node) :
    interpret detail (before ++ after) =
      interpret detail before >>= fun _ => interpret detail after := by
  induction before with
  | nil =>
    funext store
    rfl
  | cons s before ih => rw [List.cons_append, interpret, interpret, ih, Action.bind_assoc]

/-- Statements go on from the store that others leave when they come to their end. -/
theorem run_interpret_append {detail : Nat} {before : List Node} {store : Store}
    (h : ((interpret detail before).run store).result = .ok ()) (after : List Node) :
    let first := (interpret detail before).run store
    let second := (interpret detail after).run first.store
    (interpret detail (before ++ after)).run store =
      { second with
        printed := first.printed ++ second.printed
        notes := first.notes ++ second.notes } := by
  intro first second
  rw [interpret_append, Action.run_bind_of_ok h]

end Node

end LoxCore
