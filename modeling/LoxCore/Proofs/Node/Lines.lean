import LoxCore.Proofs.Node.Executable

/-!
Lines do not matter to what a program does. Moving its tokens to other lines moves the faults of a run
to those lines, and changes neither what is stored and printed nor the text of the trace.
-/
namespace LoxCore

/-- The token on the line that another one is moved to. -/
def Token.mapLine (g : Int → Int) (t : Token) : Token :=
  { t with line := g t.line }

namespace Node

mutual

/-- A tree with other tokens in the places of its tokens. -/
def mapTokens (f : Token → Token) : Node → Node
  | null => null
  | list items => list (mapTokensAll f items)
  | literal value => literal value
  | ref name => ref (f name)
  | assign name value => assign (f name) (mapTokens f value)
  | logical left operator right => logical (mapTokens f left) (f operator) (mapTokens f right)
  | unary operator right => unary (f operator) (mapTokens f right)
  | binary left operator right => binary (mapTokens f left) (f operator) (mapTokens f right)
  | grouping inner => grouping (mapTokens f inner)
  | block statements => block (mapTokensAll f statements)
  | expression inner => expression (mapTokens f inner)
  | conditional condition thenBranch elseBranch =>
    conditional (mapTokens f condition) (mapTokens f thenBranch) (mapTokens f elseBranch)
  | print inner => print (mapTokens f inner)
  | var name initializer => var (f name) (mapTokens f initializer)

def mapTokensAll (f : Token → Token) : List Node → List Node
  | [] => []
  | n :: rest => mapTokens f n :: mapTokensAll f rest

end

/-- A tree with all its tokens moved to other lines. -/
def mapLines (g : Int → Int) : Node → Node :=
  mapTokens (Token.mapLine g)

mutual

theorem depth_mapTokens (f : Token → Token) : ∀ n : Node, (n.mapTokens f).depth = n.depth
  | null | literal _ | ref _ => rfl
  | list items | block items => congrArg (· + 1) (depthAll_mapTokensAll f items)
  | assign _ inner | unary _ inner | grouping inner | expression inner | print inner
  | var _ inner => congrArg (· + 1) (depth_mapTokens f inner)
  | logical left _ right | binary left _ right => by
    simp only [mapTokens, depth, depth_mapTokens f left, depth_mapTokens f right]
  | conditional condition thenBranch elseBranch => by
    simp only [mapTokens, depth, depth_mapTokens f condition, depth_mapTokens f thenBranch,
      depth_mapTokens f elseBranch]

theorem depthAll_mapTokensAll (f : Token → Token) :
    ∀ items : List Node, depthAll (mapTokensAll f items) = depthAll items
  | [] => rfl
  | n :: rest => by
    simp only [mapTokensAll, depthAll, depth_mapTokens f n, depthAll_mapTokensAll f rest]

end

theorem mapTokens_eq_null_iff {f : Token → Token} {n : Node} : n.mapTokens f = null ↔ n = null := by
  cases n <;> simp [mapTokens]

mutual

/-- Renderings show no lines. -/
theorem text_mapLines (g : Int → Int) : ∀ n : Node, (n.mapTokens (Token.mapLine g)).text = n.text
  | null | literal _ | ref _ => rfl
  | list items => by simp only [mapTokens, text, textAll_mapLines g items]
  | block items => by simp only [mapTokens, text, textAll_mapLines g items]
  | assign name inner => by simp only [mapTokens, text, text_mapLines g inner, Token.mapLine]
  | unary operator inner => by simp only [mapTokens, text, text_mapLines g inner, Token.mapLine]
  | grouping inner | expression inner => text_mapLines g inner
  | print inner => by simp only [mapTokens, text, text_mapLines g inner]
  | logical left operator right => by
    simp only [mapTokens, text, text_mapLines g left, text_mapLines g right, Token.mapLine]
  | binary left operator right => by
    simp only [mapTokens, text, text_mapLines g left, text_mapLines g right, Token.mapLine]
  | conditional condition thenBranch elseBranch => by
    have hcondition := text_mapLines g condition
    have hthen := text_mapLines g thenBranch
    by_cases hnull : elseBranch = null
    · subst hnull
      simp only [mapTokens, text, hcondition, hthen]
    · rw [mapTokens, text_conditional hnull, text_conditional (mt mapTokens_eq_null_iff.mp hnull),
        hcondition, hthen, text_mapLines g elseBranch]
  | var name initializer => by
    by_cases hnull : initializer = null
    · subst hnull
      rfl
    · rw [mapTokens, text_var hnull, text_var (mt mapTokens_eq_null_iff.mp hnull),
        text_mapLines g initializer]
      rfl

theorem textAll_mapLines (g : Int → Int) :
    ∀ items : List Node, textAll (mapTokensAll (Token.mapLine g) items) = textAll items
  | [] => rfl
  | n :: rest => by
    simp only [mapTokensAll, textAll, text_mapLines g n, textAll_mapLines g rest]

end

end Node

/-- A fault on the line that its own is moved to. A tree that cannot be run has no line. -/
def Stop.mapLine (g : Int → Int) : Stop → Stop
  | fault d => fault { d with line := g d.line }
  | stuck s => stuck s

/-- An outcome with its fault, if there is one, on another line. -/
def Outcome.mapLine {α : Type} (g : Int → Int) (outcome : Outcome α) : Outcome α :=
  { outcome with result := outcome.result.mapError (Stop.mapLine g) }

namespace Action

variable {α β : Type} (g : Int → Int)

/-- The action with its fault, if there is one, on another line. -/
def mapLine (a : Action α) : Action α := fun store =>
  (a.run store).mapLine g

theorem mapLine_pure (value : α) : (pure value : Action α).mapLine g = pure value :=
  rfl

theorem mapLine_note (detail : Nat) (step : Note) :
    (note detail step).mapLine g = note detail step :=
  rfl

theorem mapLine_bind (a : Action α) (next : α → Action β) :
    (a >>= next).mapLine g = a.mapLine g >>= fun value => (next value).mapLine g := by
  funext store
  change (andThen a next store).mapLine g = andThen (a.mapLine g) _ store
  simp only [andThen, mapLine, run, Outcome.mapLine]
  cases h : a store with
  | mk result store printed notes => cases result <;> rfl

theorem mapLine_ofResult (result : Except Stop α) :
    (ofResult result).mapLine g = ofResult (result.mapError (Stop.mapLine g)) := by
  cases result <;> rfl

theorem mapLine_read (name : Token) : (read name).mapLine g = read (name.mapLine g) := by
  funext store
  simp only [mapLine, run, read, Store.read, Token.mapLine]
  cases store.get? name.lexeme <;> rfl

theorem mapLine_assign (name : Token) (value : Value) :
    (assign name value).mapLine g = assign (name.mapLine g) value := by
  funext store
  simp only [mapLine, run, assign, Store.assign, Token.mapLine]
  cases store.get? name.lexeme <;> rfl

end Action

namespace Value

variable (g : Int → Int) (operator : Token)

theorem applyUnary_mapLine (right : Value) : right.applyUnary (operator.mapLine g) =
    (right.applyUnary operator).mapError (Stop.mapLine g) := by
  simp only [applyUnary, Token.mapLine]
  cases operator.kind <;> cases right <;> rfl

theorem applyBinary_mapLine (left right : Value) : applyBinary (operator.mapLine g) left right =
    (applyBinary operator left right).mapError (Stop.mapLine g) := by
  simp only [applyBinary, Token.mapLine]
  cases operator.kind <;> first | rfl | (cases left <;> cases right <;> rfl)

end Value

namespace Node

variable (g : Int → Int)

/-- Evaluation of a tree whose tokens are moved to other lines. -/
theorem evaluate_mapLines (detail : Nat) (n : Node) :
    evaluate detail (n.mapLines g) = (evaluate detail n).mapLine g := by
  unfold mapLines
  fun_induction evaluate detail n with
  | case1 value => rfl
  | case2 name => exact (Action.mapLine_read g name).symm
  | case3 name value ih =>
    simp only [mapTokens, evaluate, ih, Action.mapLine_bind, Action.mapLine_assign,
      Action.mapLine_note, Action.mapLine_pure]
    rfl
  | case4 inner ih => exact ih
  | case5 operator right ih =>
    simp only [mapTokens, evaluate, ih, Action.mapLine_bind, Action.mapLine_ofResult,
      Value.applyUnary_mapLine]
  | case6 left operator right ihleft ihright =>
    simp only [mapTokens, evaluate, ihleft, ihright, Action.mapLine_bind, Action.mapLine_ofResult,
      Action.mapLine_note, Action.mapLine_pure, Value.applyBinary_mapLine]
    rfl
  | case7 left operator right => rfl
  | case8 n => cases n <;> first | rfl | simp_all

/-- What a statement does when its tokens are moved to other lines. A statement that cannot be run
is left out, since the line of its fault need not be that of a token. -/
theorem Executable.perform_mapLines {P : Token → Prop} {statement : Node}
    (h : statement.Executable P) (detail : Nat) :
    perform detail (statement.mapLines g) = (perform detail statement).mapLine g := by
  cases h with
  | @expression inner h =>
    change (evaluate detail (inner.mapLines g) >>= fun _ => pure ()) =
      (evaluate detail inner >>= fun _ => pure ()).mapLine g
    rw [Action.mapLine_bind, evaluate_mapLines]
    rfl
  | @print inner h =>
    change (evaluate detail (inner.mapLines g) >>= fun v => Action.print v.text) =
      (evaluate detail inner >>= fun v => Action.print v.text).mapLine g
    rw [Action.mapLine_bind, evaluate_mapLines]
    rfl
  | declare => rfl
  | @define name value _ h =>
    have hmoved : evaluateInitializer detail (value.mapLines g) =
        (evaluateInitializer detail value).mapLine g := by
      rw [h.evaluateInitializer_eq, ← evaluate_mapLines]
      cases h <;> rfl
    change (evaluateInitializer detail (value.mapLines g) >>= _) =
      (evaluateInitializer detail value >>= _).mapLine g
    rw [Action.mapLine_bind, hmoved]
    rfl

end Node

/-- The second outcome is the first with its fault, if there is one, on another line. The notes of the
two may hold trees on different lines, but the trace shows the same of them. -/
structure Outcome.Moves {α : Type} (g : Int → Int) (a b : Outcome α) : Prop where
  result : b.result = a.result.mapError (Stop.mapLine g)
  store : b.store = a.store
  printed : b.printed = a.printed
  notes : b.notes.map Note.text = a.notes.map Note.text

/-- Outcomes go on alike if what follows them goes on alike. -/
theorem Outcome.Moves.bind {α β : Type} {g : Int → Int} {a a' : Action α} {next next' : α → Action β}
    {store : Store} (h : Moves g (a.run store) (a'.run store))
    (hnext : ∀ value, (a.run store).result = .ok value →
      Moves g ((next value).run (a.run store).store) ((next' value).run (a.run store).store)) :
    Moves g ((a >>= next).run store) ((a' >>= next').run store) := by
  obtain ⟨hresult, hstore, hprinted, hnotes⟩ := h
  cases hfirst : (a.run store).result with
  | error reason =>
    rw [hfirst] at hresult
    rw [Action.run_bind_of_error hfirst, Action.run_bind_of_error hresult]
    exact ⟨rfl, hstore, hprinted, hnotes⟩
  | ok value =>
    rw [hfirst] at hresult
    rw [Action.run_bind_of_ok hfirst, Action.run_bind_of_ok hresult, hstore]
    have hrest := hnext value hfirst
    refine ⟨hrest.result, hrest.store, ?_, ?_⟩
    · simp only [hprinted, hrest.printed]
    · simp only [List.map_append, hnotes, hrest.notes]

/-- A statement nested too deep for the run to go on. -/
def Stop.IsTooDeep (reason : Stop) : Prop :=
  ∃ line, reason = .fault (.onLine line .evaluationTooDeep)

namespace Node

variable {P : Token → Prop} (g : Int → Int) (detail : Nat)

theorem isTooDeep_mapLines (n : Node) : (n.mapLines g).isTooDeep = n.isTooDeep := by
  simp only [isTooDeep, mapLines, depth_mapTokens]

/-- Execution of two statements that look alike and do alike, if neither nests too deep. -/
theorem execute_moves {s t : Node} {store : Store} (hs : s.isTooDeep = false)
    (ht : t.isTooDeep = false) (htext : t.text = s.text)
    (h : (perform detail t).run store = ((perform detail s).run store).mapLine g) :
    Outcome.Moves g ((execute detail s).run store) ((execute detail t).run store) := by
  have hexecute (n : Node) (hn : n.isTooDeep = false) : (execute detail n).run store =
      { (perform detail n).run store with
        notes := (if Note.level (.executing n) ≤ detail then [.executing n] else []) ++
          ((perform detail n).run store).notes } := by
    rw [execute_of_shallow hn]
    rfl
  rw [hexecute s hs, hexecute t ht, h]
  refine ⟨rfl, rfl, rfl, ?_⟩
  have hnote : (Note.executing t).text = (Note.executing s).text := congrArg ("execute " ++ ·) htext
  by_cases hshown : 1 ≤ detail <;> simp [Outcome.mapLine, Note.level, hshown, hnote]

/-- Execution of statements that are changed one by one, unless one nests too deep. -/
theorem interpret_moves {change : Node → Node} {statements : List Node}
    (h : ∀ s ∈ statements, s.isTooDeep = false → ∀ store,
      Outcome.Moves g ((execute detail s).run store) ((execute detail (change s)).run store))
    (store : Store)
    (hdepth : ∀ reason, ((interpret detail statements).run store).result = .error reason →
      ¬reason.IsTooDeep) :
    Outcome.Moves g ((interpret detail statements).run store)
      ((interpret detail (statements.map change)).run store) := by
  induction statements generalizing store with
  | nil => exact ⟨rfl, rfl, rfl, rfl⟩
  | cons s rest ih =>
    obtain ⟨hs, hrest⟩ := List.forall_mem_cons.mp h
    have hshallow : s.isTooDeep = false := by
      rw [← Bool.not_eq_true]
      intro hdeep
      have hstop : ((execute detail s).run store).result =
          .error (.fault (.onLine s.firstLine .evaluationTooDeep)) := by
        rw [execute_of_tooDeep hdeep]
        rfl
      refine hdepth _ ?_ ⟨s.firstLine, rfl⟩
      rw [interpret, Action.run_bind_of_error hstop]
    rw [interpret] at hdepth ⊢
    refine (hs hshallow store).bind fun _ hdone => ih hrest _ ?_
    intro reason hstop
    apply hdepth
    rw [Action.run_bind_of_ok hdone]
    exact hstop

/-- Execution of statements whose tokens are moved to other lines. One that nests too deep is left out:
it need not hold any token, and then its fault is on no line of the source. -/
theorem interpret_mapLines {statements : List Node} (h : ∀ s ∈ statements, s.Executable P)
    (store : Store)
    (hdepth : ∀ reason, ((interpret detail statements).run store).result = .error reason →
      ¬reason.IsTooDeep) :
    Outcome.Moves g ((interpret detail statements).run store)
      ((interpret detail (statements.map (mapLines g))).run store) := by
  refine interpret_moves g detail (fun s hs hshallow store => ?_) store hdepth
  exact execute_moves g detail hshallow ((isTooDeep_mapLines g s).trans hshallow)
    (text_mapLines g s) (congrFun ((h s hs).perform_mapLines g detail) store)

end Node

end LoxCore
