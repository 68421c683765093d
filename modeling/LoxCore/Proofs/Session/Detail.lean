import LoxCore.Proofs.Node.Lines
import LoxCore.Session

/-!
Levels of detail. A trace only watches a run: with less detail the run does the same, and its trace is
the fuller one with the finer steps left out.
-/
namespace LoxCore

/-- Whether a trace of some detail shows a step. Statements show from the first level on, definitions
and assignments from the second, and operations from the third. -/
def Note.isShown (detail : Nat) : Note → Bool
  | executing _ => decide (1 ≤ detail)
  | defined _ _ | assigned _ _ => decide (2 ≤ detail)
  | computed .. => decide (3 ≤ detail)

theorem Note.isShown_eq (detail : Nat) (step : Note) :
    step.isShown detail = decide (step.level ≤ detail) := by
  cases step <;> rfl

theorem Note.isShown_of_three_le {detail : Nat} (h : 3 ≤ detail) (step : Note) :
    step.isShown detail = true := by
  rw [isShown_eq, decide_eq_true_eq]
  cases step <;> simp only [level] <;> omega

theorem Note.isShown_zero (step : Note) : step.isShown 0 = false := by
  cases step <;> rfl

/-- The outcome with the notes that a trace of some detail shows. -/
def Outcome.atDetail {α : Type} (detail : Nat) (outcome : Outcome α) : Outcome α :=
  { outcome with notes := outcome.notes.filter (Note.isShown detail) }

namespace Action

variable {α β : Type} (detail : Nat)

/-- The action with the notes that a trace of some detail shows. -/
def atDetail (a : Action α) : Action α := fun store =>
  (a.run store).atDetail detail

theorem atDetail_pure (value : α) : (pure value : Action α).atDetail detail = pure value :=
  rfl

theorem atDetail_ofResult (result : Except Stop α) :
    (ofResult result).atDetail detail = ofResult result := by
  cases result <;> rfl

theorem atDetail_read (name : Token) : (read name).atDetail detail = read name := by
  funext store
  simp only [atDetail, run, read]
  cases store.read name <;> rfl

theorem atDetail_assign (name : Token) (value : Value) :
    (assign name value).atDetail detail = assign name value := by
  funext store
  simp only [atDetail, run, assign]
  cases store.assign name value <;> rfl

theorem atDetail_define (name : String) (value : Value) :
    (define name value).atDetail detail = define name value :=
  rfl

theorem atDetail_bind (a : Action α) (next : α → Action β) :
    (a >>= next).atDetail detail = a.atDetail detail >>= fun value => (next value).atDetail detail := by
  funext store
  change (andThen a next store).atDetail detail = andThen (a.atDetail detail) _ store
  simp only [andThen, atDetail, run, Outcome.atDetail]
  rcases a store with ⟨reason | value, after, printed, notes⟩
  · rfl
  · simp only [List.filter_append]

/-- A step that is noted at some level is left out of the trace at a lower one, unless it shows there. -/
theorem atDetail_note {low high : Nat} (h : low ≤ high) (step : Note) :
    (note high step).atDetail low = note low step := by
  funext store
  have hnotes : (if step.level ≤ high then [step] else []).filter (Note.isShown low) =
      if step.level ≤ low then [step] else [] := by
    by_cases hlow : step.level ≤ low
    · rw [if_pos hlow, if_pos (Nat.le_trans hlow h)]
      simp [Note.isShown_eq, hlow]
    · rw [if_neg hlow, List.filter_eq_nil_iff]
      intro other hother
      split at hother
      · obtain rfl := List.mem_singleton.mp hother
        simp [Note.isShown_eq, hlow]
      · cases hother
  simp only [atDetail, run, note, Outcome.atDetail, hnotes]

end Action

namespace Node

variable {low high : Nat} (h : low ≤ high)
include h

theorem evaluate_atDetail (n : Node) : (evaluate high n).atDetail low = evaluate low n := by
  fun_induction evaluate high n with
  | case1 value => rfl
  | case2 name => exact Action.atDetail_read low name
  | case3 name value ih =>
    simp only [evaluate, Action.atDetail_bind, ih, Action.atDetail_assign, Action.atDetail_note h,
      Action.atDetail_pure]
  | case4 inner ih => exact ih
  | case5 operator right ih =>
    simp only [evaluate, Action.atDetail_bind, ih, Action.atDetail_ofResult]
  | case6 left operator right ihleft ihright =>
    simp only [evaluate, Action.atDetail_bind, ihleft, ihright, Action.atDetail_ofResult,
      Action.atDetail_note h, Action.atDetail_pure]
  | case7 left operator right => rfl
  | case8 n => cases n <;> first | rfl | simp_all

theorem evaluateInitializer_atDetail (n : Node) :
    (evaluateInitializer high n).atDetail low = evaluateInitializer low n := by
  by_cases hnull : n = null
  · subst hnull
    rfl
  · simp only [evaluateInitializer]
    exact evaluate_atDetail h n

theorem perform_atDetail (statement : Node) :
    (perform high statement).atDetail low = perform low statement := by
  cases statement with
  | expression inner =>
    change (evaluate high inner >>= fun _ => pure ()).atDetail low = _
    rw [Action.atDetail_bind, evaluate_atDetail h]
    rfl
  | print inner =>
    change (evaluate high inner >>= fun v => Action.print v.text).atDetail low = _
    rw [Action.atDetail_bind, evaluate_atDetail h]
    rfl
  | var name initializer =>
    simp only [perform, Action.atDetail_bind, evaluateInitializer_atDetail h, Action.atDetail_define,
      Action.atDetail_note h]
  | _ => rfl

theorem execute_atDetail (statement : Node) :
    (execute high statement).atDetail low = execute low statement := by
  unfold execute
  split
  · rfl
  · rw [Action.atDetail_bind, Action.atDetail_note h, perform_atDetail h]

/-- The run of some statements with less detail is their run with more detail and the finer steps left
out of the trace. -/
theorem interpret_atDetail (statements : List Node) :
    (interpret high statements).atDetail low = interpret low statements := by
  induction statements with
  | nil => rfl
  | cons s rest ih => rw [interpret, interpret, Action.atDetail_bind, execute_atDetail h, ih]

end Node

namespace Session

/-- The execution of some statements, whatever they are, at two levels of detail. Both come to the same
end, with the same error if there is one, print the same and leave the same variables. The trace with
less detail, which is what the debug file gets, is the other with the steps above its level left out. At
level zero it is empty and the debug file is not touched, and from level three on nothing is left out. -/
theorem interpret_detail (session : Session) (statements : List Node) {low high : Nat}
    (h : low ≤ high) :
    let less := ({ session with detail := low } : Session).interpret statements
    let more := ({ session with detail := high } : Session).interpret statements
    less.result = more.result ∧ less.printed = more.printed ∧
      less.session.store = more.session.store ∧
      less.notes = more.notes.filter (Note.isShown low) ∧
      less.session.log =
        session.log.record ((more.notes.filter (Note.isShown low)).map Note.text) ∧
      (low = 0 → less.notes = [] ∧ less.session.log = session.log.close) ∧
      (3 ≤ low → less.notes = more.notes ∧ less.session.log = more.session.log) := by
  intro less more
  have hrun : (Node.interpret low statements).run session.store =
      ((Node.interpret high statements).run session.store).atDetail low :=
    congrFun (Node.interpret_atDetail h statements).symm session.store
  have hnotes : less.notes = more.notes.filter (Note.isShown low) := congrArg Outcome.notes hrun
  have hlog : less.session.log = session.log.record (less.notes.map Note.text) := rfl
  refine ⟨(congrArg Outcome.result hrun :), (congrArg Outcome.printed hrun :),
    (congrArg Outcome.store hrun :), hnotes, hnotes ▸ hlog, ?_, ?_⟩
  · rintro rfl
    have hnone : less.notes = [] := by
      rw [hnotes, List.filter_eq_nil_iff]
      intro step _
      simp [Note.isShown_zero]
    rw [hlog, hnone]
    exact ⟨rfl, rfl⟩
  · intro hlow
    have hall : less.notes = more.notes := by
      rw [hnotes, List.filter_eq_self]
      exact fun step _ => Note.isShown_of_three_le hlow step
    rw [hlog, hall]
    exact ⟨rfl, rfl⟩

/-- A run that assigns inside an operand and then fails, traced by statements only and in full. -/
theorem interpret_detail_undefined :
    let statements := (Source.ofText "var a = \"x\"; print a + (a = \"y\"); print a + b;").statements
    let less := ({ detail := 1 } : Session).interpret statements
    let more := ({ detail := 3 } : Session).interpret statements
    less.result = more.result ∧ less.printed = more.printed ∧
      less.session.store = more.session.store ∧
      less.notes = more.notes.filter (Note.isShown 1) ∧
      less.printed = ["xy"] ∧
      more.notes.map Note.text = ["execute var a = x", "define a = x", "execute print (a + a = y)",
        "assign a = y", "binary x + y -> xy", "execute print (a + b)"] := by
  intro statements less more
  obtain ⟨hresult, hprinted, hstore, hnotes, -⟩ :=
    interpret_detail { detail := 0 } statements (show 1 ≤ 3 by decide)
  exact ⟨hresult, hprinted, hstore, hnotes, by decide +kernel, by decide +kernel⟩

end Session

end LoxCore
