import LoxCore.Proofs.Session.Ending
import LoxCore.Proofs.Source.Join

/-!
Running texts one after another. Texts without errors that are run in one session do what their joined
text does in a single run, up to the first text that a fault ends. This is why lines typed at the
prompt and the same lines in a script do the same.
-/
namespace LoxCore

/-! The debug file. -/

namespace DebugLog

variable {log : DebugLog}

/-- Closing the file is forgotten when the next line is written. -/
theorem write_close (h : log.isOpen = true → log.started = true) (line : String) :
    log.close.write line = log.write line := by
  obtain ⟨file, started, isOpen⟩ := log
  cases isOpen with
  | false => rfl
  | true =>
    obtain rfl : started = true := h rfl
    rfl

theorem started_foldl_write (h : log.isOpen = true → log.started = true) (lines : List String) :
    (lines.foldl write log).isOpen = true → (lines.foldl write log).started = true := by
  induction lines generalizing log with
  | nil => exact h
  | cons line lines ih =>
    refine ih fun _ => ?_
    obtain ⟨file, started, isOpen⟩ := log
    cases isOpen with
    | false => rfl
    | true => exact h rfl

/-- Two runs write what one run that writes the lines of both does. -/
theorem record_record (h : log.isOpen = true → log.started = true) (lines more : List String) :
    (log.record lines).record more = log.record (lines ++ more) := by
  have hstarted := started_foldl_write h lines
  rw [record, record, record, List.foldl_append]
  generalize lines.foldl write log = written at hstarted
  cases more with
  | nil => rfl
  | cons line more => rw [List.foldl_cons, List.foldl_cons, write_close hstarted]

end DebugLog

namespace Diagnostic

/-- A name that is not defined, or operands that an operator does not take. -/
def IsOfEvaluation (d : Diagnostic) : Prop :=
  (∃ name, d.cause = .undefinedVariable name) ∨ ∃ operands, d.cause = .typeMismatch operands

/-- The report about a statement that nests too deep starts with its wording, whatever the line. -/
theorem head?_report_evaluationTooDeep (line : Int) :
    (onLine line .evaluationTooDeep).report.toList.head? = some 'E' := by
  have hmessage : Cause.evaluationTooDeep.message.toList.head? = some 'E' := by
    decide +kernel
  have hruntime : (onLine line .evaluationTooDeep).isRuntime = true := rfl
  rw [report, if_pos hruntime, String.append_assoc, String.append_assoc, String.toList_append,
    List.head?_append]
  simp only [message, onLine, hmessage, Option.some_or]

end Diagnostic

namespace Session

/-- The runs of some texts, one after the other in one session, up to the first that a fault ends. -/
def runEach (session : Session) : List String → List Run
  | [] => []
  | text :: more =>
    let run := session.run text
    if run.ending = .status runtimeError then [run] else run :: runEach run.session more

/-- A run shows what some runs show one after the other, and ends as the last of them does. The line
of its fault, if there is one, is `lines` further down. -/
structure Run.Joins (whole : Run) (earlier : List Run) (last : Run) (lines : Nat) : Prop where
  ending : whole.ending = last.ending
  out : whole.out = String.join ((earlier ++ [last]).map Run.out)
  notes : whole.notes.map Note.text =
    (earlier ++ [last]).flatMap fun run => run.notes.map Note.text
  store : whole.session.store = last.session.store
  err : (last.err = "" ∧ whole.err = "") ∨ ∃ d : Diagnostic, d.IsOfEvaluation ∧
    last.err = d.report ∧ whole.err = { d with line := d.line + lines }.report

/-- As `Run.Joins`, before the result is shown to the user. -/
structure Performance.Joins (whole : Performance) (earlier : List Run) (last : Performance)
    (lines : Nat) : Prop where
  result : whole.result = last.result.mapError (Stop.mapLine (· + lines))
  out : asLines whole.printed = String.join (earlier.map Run.out) ++ asLines last.printed
  notes : whole.notes.map Note.text =
    (earlier.flatMap fun run => run.notes.map Note.text) ++ last.notes.map Note.text
  store : whole.session.store = last.session.store

/-- A performance that came to its end, or was ended by a fault of evaluation. -/
def Performance.IsShallow (p : Performance) : Prop :=
  p.result = .ok () ∨ ∃ d, d.IsOfEvaluation ∧ p.result = .error (.fault d)

theorem Performance.IsShallow.not_tooDeep {p : Performance} (h : p.IsShallow) :
    ∀ reason, p.result = .error reason → ¬reason.IsTooDeep := by
  rintro reason hreason ⟨line, rfl⟩
  rcases h with hdone | ⟨d, hd, hfault⟩
  · rw [hdone] at hreason
    cases hreason
  · rw [hfault] at hreason
    cases hreason
    rcases hd with ⟨name, hcause⟩ | ⟨operands, hcause⟩ <;> cases hcause

/-! All but the ending and the report is shown as it was done. -/

theorem Performance.out_toRun (p : Performance) : p.toRun.out = asLines p.printed := by
  rcases hresult : p.result with (d | s) | _ <;> simp only [toRun, hresult]

theorem Performance.notes_toRun (p : Performance) : p.toRun.notes = p.notes := by
  rcases hresult : p.result with (d | s) | _ <;> simp only [toRun, hresult]

theorem Performance.session_toRun (p : Performance) : p.toRun.session = p.session := by
  rcases hresult : p.result with (d | s) | _ <;> simp only [toRun, hresult]

namespace Performance.Joins

variable {whole rest last : Performance} {first : Run} {earlier : List Run} {lines more : Nat}

theorem refl (p : Performance) : p.Joins [] p 0 := by
  refine ⟨?_, by simp, by simp, rfl⟩
  rcases hresult : p.result with (d | s) | _ <;> simp [Except.mapError, Stop.mapLine]

/-- What is shown by the first of two runs, and then by the second, may be shown by the first and then
by several. -/
theorem trans (h : whole.Joins [first] rest lines) (hrest : rest.Joins earlier last more) :
    whole.Joins (first :: earlier) last (lines + more) := by
  refine ⟨?_, ?_, ?_, h.store.trans hrest.store⟩
  · rw [h.result, hrest.result]
    rcases last.result with (d | s) | _
    · simp only [Except.mapError, Stop.mapLine, Int.natCast_add]
      rw [Int.add_assoc, Int.add_comm (more : Int)]
    · rfl
    · rfl
  · rw [h.out, hrest.out]
    simp [String.join_cons, String.append_assoc]
  · rw [h.notes, hrest.notes]
    simp

theorem isShallow (h : whole.Joins earlier last lines) (hlast : last.IsShallow) :
    whole.IsShallow := by
  rcases hlast with hdone | ⟨d, hd, hfault⟩
  · exact .inl (by rw [h.result, hdone]; rfl)
  · exact .inr ⟨{ d with line := d.line + lines }, hd, by rw [h.result, hfault]; rfl⟩

theorem toRun (h : whole.Joins earlier last lines) (hlast : last.IsShallow) :
    whole.toRun.Joins earlier last.toRun lines := by
  have hends : whole.toRun.ending = last.toRun.ending ∧
      ((last.toRun.err = "" ∧ whole.toRun.err = "") ∨ ∃ d : Diagnostic, d.IsOfEvaluation ∧
        last.toRun.err = d.report ∧ whole.toRun.err = { d with line := d.line + lines }.report) := by
    have hresult := h.result
    rcases hlast with hdone | ⟨d, hd, hfault⟩
    · rw [hdone] at hresult
      simp [Performance.toRun, hdone, hresult, Except.mapError]
    · rw [hfault] at hresult
      simp only [Performance.toRun, hfault, hresult, Except.mapError, Stop.mapLine]
      exact ⟨trivial, .inr ⟨d, hd, rfl, rfl⟩⟩
  refine ⟨hends.1, ?_, ?_, ?_, hends.2⟩
  · rw [out_toRun, h.out, ← out_toRun last, List.map_append, String.join_append]
    simp [String.join_cons]
  · rw [notes_toRun, h.notes, ← notes_toRun last, List.flatMap_append]
    simp
  · rw [session_toRun, session_toRun, h.store]

end Performance.Joins

/-! Two texts. -/

theorem asLines_append (records more : List String) :
    asLines (records ++ more) = asLines records ++ asLines more := by
  induction records with
  | nil => simp [asLines]
  | cons record records ih =>
    change record ++ "\n" ++ asLines (records ++ more) = record ++ "\n" ++ asLines records ++ _
    rw [ih]
    simp only [String.append_assoc]

variable {before after : List Node}

/-- Nothing is done after a fault. -/
theorem interpret_append_of_error {session : Session} {reason : Stop}
    (h : (session.interpret before).result = .error reason) :
    session.interpret (before ++ after) = session.interpret before := by
  have hstop : (Node.interpret session.detail (before ++ after)).run session.store =
      (Node.interpret session.detail before).run session.store := by
    rw [Node.interpret_append, Action.run_bind_of_error h, ← h]
    rfl
  simp only [interpret, hstop]

/-- After statements that come to their end, others go on in the session that these leave, also if
they stand some lines further down. -/
theorem interpret_append_mapLines {P : Token → Prop} (session : Session)
    (hbefore : (session.interpret before).result = .ok ()) (hafter : ∀ s ∈ after, s.Executable P)
    (hshallow : ((session.interpret before).session.interpret after).IsShallow) (lines : Nat) :
    let whole := session.interpret (before ++ after.map (Node.mapLines (· + lines)))
    let rest := (session.interpret before).session.interpret after
    whole.Joins [(session.interpret before).toRun] rest lines ∧
      ((session.log.isOpen = true → session.log.started = true) →
        whole.session = rest.session) := by
  intro whole rest
  have hmoves := Node.interpret_mapLines (· + (lines : Int)) session.detail hafter
    ((Node.interpret session.detail before).run session.store).store hshallow.not_tooDeep
  have hwhole := Node.run_interpret_append hbefore (after.map (Node.mapLines (· + lines)))
  refine ⟨⟨?_, ?_, ?_, ?_⟩, fun hlog => ?_⟩
  · simp only [whole, interpret, hwhole, hmoves.result, rest]
  · simp only [whole, List.map_cons, List.map_nil, String.join_cons, String.join_nil,
      String.append_empty, Performance.out_toRun, interpret, hwhole, hmoves.printed, asLines_append,
      rest]
  · simp only [whole, List.flatMap_cons, List.flatMap_nil, List.append_nil, Performance.notes_toRun,
      interpret, hwhole, List.map_append, hmoves.notes, rest]
  · simp only [whole, interpret, hwhole, hmoves.store, rest]
  · simp only [whole, interpret, hwhole, hmoves.store, List.map_append, hmoves.notes, rest,
      DebugLog.record_record hlog]

/-- Statements that can be run come to their end, unless a fault of evaluation or the depth of a
statement stops them. -/
theorem isShallow_interpret {P : Token → Prop} {session : Session} {statements : List Node}
    (h : ∀ s ∈ statements, s.Executable P)
    (hdepth : ∀ line, (session.interpret statements).toRun.err ≠
      (Diagnostic.onLine line .evaluationTooDeep).report) :
    (session.interpret statements).IsShallow := by
  cases hresult : (session.interpret statements).result with
  | ok _ => exact .inl hresult
  | error reason =>
    right
    cases Node.stopsOnly_interpret h session.detail session.store reason hresult with
    | tooDeep line =>
      refine absurd ?_ (hdepth line)
      simp only [Performance.toRun, hresult]
    | fault hfault =>
      cases hfault with
      | undefined _ => exact ⟨_, .inl ⟨_, rfl⟩, hresult⟩
      | mismatch _ operands => exact ⟨_, .inr ⟨operands, rfl⟩, hresult⟩

/-! Any number of texts. -/

theorem run_eq_toRun {text : String} {statements : List Node}
    (h : Source.ofText text = ⟨[], statements, []⟩) (session : Session) :
    session.run text = (session.interpret statements).toRun := by
  simp only [run, Source.check_eq_ok_iff.mpr h]

/-- The number of line feeds before one of several texts that are joined. -/
def linesBefore (count : Nat) (texts : List String) : Nat :=
  (String.join ((texts.take count).map (· ++ "\n"))).toList.count '\n'

theorem linesBefore_cons (count : Nat) (text : String) (texts : List String) :
    linesBefore (count + 1) (text :: texts) =
      (Scan.ofSource text).endLine + linesBefore count texts := by
  simp only [linesBefore, Scan.ofSource, List.take_succ_cons, List.map_cons, String.join_cons,
    String.toList_append, List.count_append]
  rw [Nat.add_comm 1]
  rfl

section Each

variable {session : Session} {text : String} {more : List String}
  (hrun : session.run text = (session.interpret before).toRun)
include hrun

theorem runEach_cons_of_ok (hdone : (session.interpret before).result = .ok ()) :
    session.runEach (text :: more) = (session.interpret before).toRun ::
      (session.interpret before).session.runEach more := by
  rw [runEach, hrun]
  simp [Performance.toRun, hdone, finished, runtimeError]

theorem runEach_cons_of_fault {d : Diagnostic}
    (hfault : (session.interpret before).result = .error (.fault d)) :
    session.runEach (text :: more) = [(session.interpret before).toRun] := by
  rw [runEach, hrun]
  simp [Performance.toRun, hfault]

end Each

/-- A performance that does what the runs of some texts in a session do, up to the first that a fault
ends. No statement of them nests too deep. -/
def Performance.IsRunOf (whole : Performance) (session : Session) (texts : List String) : Prop :=
  ∃ earlier last, session.runEach texts = earlier ++ [last.toRun] ∧
    (∀ run ∈ earlier, run.ending = .status finished) ∧ last.IsShallow ∧
    (last.result = .ok () → earlier.length + 1 = texts.length) ∧
    whole.Joins earlier last (linesBefore earlier.length texts) ∧
    ((session.log.isOpen = true → session.log.started = true) → whole.session = last.session)

namespace Performance.IsRunOf

variable {whole rest : Performance} {session : Session} {text : String} {more texts : List String}

/-- The run of the only text, or of one that a fault ends. -/
theorem single {p : Performance} (hruns : session.runEach texts = [p.toRun])
    (hshallow : p.IsShallow) (hlength : p.result = .ok () → texts.length = 1) :
    p.IsRunOf session texts :=
  ⟨[], p, hruns, nofun, hshallow, fun hok => (hlength hok).symm, .refl p, fun _ => rfl⟩

theorem isShallow (h : whole.IsRunOf session texts) : whole.IsShallow := by
  obtain ⟨earlier, last, -, -, hlast, -, hjoins, -⟩ := h
  exact hjoins.isShallow hlast

/-- A text that comes to its end, and others that are run in the session it leaves. -/
theorem cons (hrun : session.run text = (session.interpret before).toRun)
    (hdone : (session.interpret before).result = .ok ())
    (hfirst : whole.Joins [(session.interpret before).toRun] rest (Scan.ofSource text).endLine)
    (hlog : (session.log.isOpen = true → session.log.started = true) → whole.session = rest.session)
    (hrest : rest.IsRunOf (session.interpret before).session more) :
    whole.IsRunOf session (text :: more) := by
  obtain ⟨earlier, last, hruns, hfinished, hlast, hlength, hjoins, hsession⟩ := hrest
  refine ⟨(session.interpret before).toRun :: earlier, last, ?_, ?_, hlast, ?_, ?_, ?_⟩
  · rw [runEach_cons_of_ok hrun hdone, hruns]
    rfl
  · refine List.forall_mem_cons.mpr ⟨?_, hfinished⟩
    simp [toRun, hdone]
  · exact fun hok => congrArg (· + 1) (hlength hok)
  · rw [List.length_cons, linesBefore_cons]
    exact hfirst.trans hjoins
  · intro hopen
    rw [hlog hopen]
    exact hsession (by simp [interpret, DebugLog.record, DebugLog.close])

end Performance.IsRunOf

/-- The statements of a joined text do what the runs of its parts do. -/
theorem interpret_intercalate {texts : List String} (hne : texts ≠ [])
    (htexts : ∀ text ∈ texts, (Source.ofText text).errors = []) (session : Session)
    (hdepth : ∀ run ∈ session.runEach texts, ∀ line,
      run.err ≠ (Diagnostic.onLine line .evaluationTooDeep).report)
    {statements : List Node}
    (h : Source.ofText ("\n".intercalate texts) = ⟨[], statements, []⟩) :
    (session.interpret statements).IsRunOf session texts := by
  induction texts generalizing session statements with
  | nil => exact absurd rfl hne
  | cons text more ih =>
    obtain ⟨htext, hmore⟩ := List.forall_mem_cons.mp htexts
    obtain ⟨before, hbefore⟩ := Source.ofText_of_errors_eq_nil htext
    have hrun := run_eq_toRun hbefore session
    have hshallow : (session.interpret before).IsShallow := by
      refine isShallow_interpret (Source.executable_of_ofText hbefore) fun line => ?_
      rw [← hrun]
      refine hdepth _ ?_ line
      rw [runEach]
      split <;> simp
    cases more with
    | nil =>
      obtain rfl : before = statements := by
        rw [String.intercalate_singleton, hbefore] at h
        exact congrArg Source.statements h
      exact .single (by simp [runEach, hrun]) hshallow fun _ => rfl
    | cons next more =>
      obtain ⟨after, hafter⟩ := Source.ofText_of_errors_eq_nil
        (Source.errors_intercalate (List.cons_ne_nil _ _) hmore)
      obtain rfl : before ++ after.map (Node.mapLines (· + (Scan.ofSource text).endLine)) =
          statements := by
        rw [String.intercalate_cons_cons, Source.ofText_join hbefore hafter] at h
        exact congrArg Source.statements h
      rcases hshallow with hdone | ⟨d, hd, hfault⟩
      · rw [runEach_cons_of_ok hrun hdone] at hdepth
        have hrest := ih (List.cons_ne_nil _ _) hmore _ (List.forall_mem_cons.mp hdepth).2 hafter
        obtain ⟨hfirst, hlog⟩ := interpret_append_mapLines session hdone
          (Source.executable_of_ofText hafter) hrest.isShallow (Scan.ofSource text).endLine
        exact .cons hrun hdone hfirst hlog hrest
      · rw [interpret_append_of_error hfault]
        refine .single (runEach_cons_of_fault hrun hfault) (.inr ⟨d, hd, hfault⟩) ?_
        rw [hfault]
        exact nofun

/-- Texts without errors are run one after another in any session, up to the first that a fault ends.
Their joined text, run once in the same session, does the same, unless a statement nests too deep to
be executed: it ends with the status of the last of these runs, prints and traces what all of them do,
and leaves the variables of the last, and its debug file too. (A debug file that is open has been
started.) If a fault ends the last run it ends the joined one as well, on a line raised by the number of
line feeds before the last text that was run. -/
theorem run_intercalate {texts : List String} (hne : texts ≠ [])
    (htexts : ∀ text ∈ texts, (Source.ofText text).errors = []) (session : Session)
    (hdepth : ∀ run ∈ session.runEach texts, ∀ line,
      run.err ≠ (Diagnostic.onLine line .evaluationTooDeep).report) :
    ∃ earlier last, session.runEach texts = earlier ++ [last] ∧
      (∀ run ∈ earlier, run.ending = .status finished) ∧
      (last.ending = .status runtimeError ∨
        last.ending = .status finished ∧ earlier.length + 1 = texts.length) ∧
      (session.run ("\n".intercalate texts)).Joins earlier last
        (linesBefore earlier.length texts) ∧
      ((session.log.isOpen = true → session.log.started = true) →
        (session.run ("\n".intercalate texts)).session = last.session) := by
  obtain ⟨statements, hstatements⟩ :=
    Source.ofText_of_errors_eq_nil (Source.errors_intercalate hne htexts)
  obtain ⟨earlier, last, hruns, hfinished, hlast, hlength, hjoins, hsession⟩ :=
    interpret_intercalate hne htexts session hdepth hstatements
  rw [run_eq_toRun hstatements]
  refine ⟨earlier, last.toRun, hruns, hfinished, ?_, hjoins.toRun hlast, ?_⟩
  · rcases hlast with hdone | ⟨d, -, hfault⟩
    · exact .inr ⟨by simp [Performance.toRun, hdone], hlength hdone⟩
    · exact .inl (by simp [Performance.toRun, hfault])
  · intro hopen
    rw [Performance.session_toRun, Performance.session_toRun, hsession hopen]

/-- A fault on the second line of the second of three texts, in a run with all of the trace. -/
theorem run_intercalate_undefined :
    let texts := ["var a = \"x\"; print a;", "\nprint a + b;", "print a;"]
    let session : Session := { detail := 3 }
    (∀ text ∈ texts, (Source.ofText text).errors = []) ∧
      (∀ run ∈ session.runEach texts, ∀ line,
        run.err ≠ (Diagnostic.onLine line .evaluationTooDeep).report) ∧
      ∃ earlier last, session.runEach texts = earlier ++ [last] ∧
        (session.run ("\n".intercalate texts)).Joins earlier last
          (linesBefore earlier.length texts) ∧
        (session.run ("\n".intercalate texts)).session = last.session ∧
        (session.run ("\n".intercalate texts)).err = "Undefined variable 'b'.\n[line 3]\n" := by
  intro texts session
  have htexts : ∀ text ∈ texts, (Source.ofText text).errors = [] := by
    simp only [Source.errors_eq_nil_iff]
    decide +kernel
  have herr : (session.runEach texts).map Run.err = ["", "Undefined variable 'b'.\n[line 2]\n"] := by
    decide +kernel
  have hdepth : ∀ run ∈ session.runEach texts, ∀ line,
      run.err ≠ (Diagnostic.onLine line .evaluationTooDeep).report := by
    intro run hrun line heq
    have hmem : run.err ∈ (session.runEach texts).map Run.err := List.mem_map_of_mem hrun
    have hhead := Diagnostic.head?_report_evaluationTooDeep line
    rw [herr, heq] at hmem
    simp only [List.mem_cons, List.not_mem_nil, or_false] at hmem
    rcases hmem with h | h <;> rw [h] at hhead <;> revert hhead <;> decide +kernel
  obtain ⟨earlier, last, hruns, -, -, hjoins, hsession⟩ :=
    run_intercalate (List.cons_ne_nil _ _) htexts session hdepth
  exact ⟨htexts, hdepth, earlier, last, hruns, hjoins, hsession nofun, by decide +kernel⟩

end Session

end LoxCore
