import LoxCore.CommandLine.Run
import LoxCore.Proofs.Node.Effect
import LoxCore.Proofs.Session.Detail
import LoxCore.Proofs.Session.Names

/-!
The debug file of a session. However the runs end, the file holds the messages of all of them, one a
line, and nothing else. As long as there is no message, it is left as it was.
-/
namespace LoxCore

namespace DebugLog

/-- Once a file is open, every line is added at its end. -/
theorem foldl_write_open (text : String) (lines : List String) :
    lines.foldl write ⟨some text, true, true⟩ = ⟨some (text ++ Session.asLines lines), true, true⟩ := by
  induction lines generalizing text with
  | nil => simp [Session.asLines]
  | cons line lines ih =>
    rw [List.foldl_cons]
    change lines.foldl write ⟨some (text ++ line ++ "\n"), true, true⟩ = _
    rw [ih]
    simp [Session.asLines, String.append_assoc]

/-- The first line of all discards what was in the file. -/
theorem record_eq (old : Option String) (lines : List String) :
    record ⟨old, false, false⟩ lines =
      ⟨if lines = [] then old else some (Session.asLines lines), !lines.isEmpty, false⟩ := by
  cases lines with
  | nil => rfl
  | cons first rest =>
    rw [record, List.foldl_cons]
    change (rest.foldl write ⟨some ("" ++ first ++ "\n"), true, true⟩).close = _
    rw [foldl_write_open]
    simp [close, Session.asLines]

end DebugLog

namespace Action

/-- What an action notes stays noted, whatever comes after it. -/
theorem notes_prefix_bind {α β : Type} (a : Action α) (next : α → Action β) (store : Store) :
    (a.run store).notes <+: ((a >>= next).run store).notes := by
  cases hresult : (a.run store).result with
  | error reason =>
    rw [run_bind_of_error hresult]
  | ok value =>
    rw [run_bind_of_ok hresult]
    exact List.prefix_append _ _

end Action

namespace Session

/-- The first message is about the first statement, so there is none exactly if nothing is traced, if
there is no statement, or if the first nests too deep. -/
theorem notes_interpret_eq_nil_iff (session : Session) (statements : List Node) :
    (session.interpret statements).notes = [] ↔
      session.detail = 0 ∨ ∀ s ∈ statements.head?, s.isTooDeep = true := by
  obtain ⟨detail, store, log⟩ := session
  change ((Node.interpret detail statements).run store).notes = [] ↔ detail = 0 ∨ _
  constructor
  · intro hnone
    by_contra! hsome
    obtain ⟨hdetail, s, hs, hshallow⟩ := hsome
    obtain ⟨rest, rfl⟩ := List.head?_eq_some_iff.mp hs
    have hfirst : ((Action.note detail (.executing s)).run store).notes = [.executing s] :=
      if_pos (Nat.pos_of_ne_zero hdetail)
    have hexecute := Action.notes_prefix_bind (Action.note detail (.executing s))
      (fun _ => Node.perform detail s) store
    rw [hfirst, ← Node.execute_of_shallow (Bool.eq_false_of_not_eq_true hshallow)] at hexecute
    have hall := hexecute.trans
      (Action.notes_prefix_bind _ (fun _ => Node.interpret detail rest) store)
    change _ <+: ((Node.interpret detail (s :: rest)).run store).notes at hall
    rw [hnone] at hall
    cases List.prefix_nil.mp hall
  · rintro (rfl | hdeep)
    · have hrun := congrFun (Node.interpret_atDetail (Nat.le_refl 0) statements) store
      have hnotes : ((Node.interpret 0 statements).run store).notes.filter (Note.isShown 0) =
          ((Node.interpret 0 statements).run store).notes := congrArg Outcome.notes hrun
      rw [← hnotes, List.filter_eq_nil_iff]
      intro step _
      simp [Note.isShown_zero]
    · cases statements with
      | nil => rfl
      | cons s rest =>
        rw [Node.interpret, Node.execute_of_tooDeep (hdeep s rfl), Action.run_bind_of_error rfl]
        rfl

/-- The statements that an operation executes. Of a text with errors it executes none. -/
def Operation.statements : Operation → List Node
  | run source =>
    match Source.check source with
    | .ok statements => statements
    | .error _ => []
  | interpret statements => statements
  | define .. | get _ | assign .. => []

/-- The messages that an operation issues, in the order in which it does. -/
def messages (session : Session) : Operation → List String
  | .run source => (session.run source).notes.map Note.text
  | .interpret statements => (session.interpret statements).notes.map Note.text
  | .define .. | .get _ | .assign .. => []

/-- The messages that some operations issue, each in the session that those before it leave. -/
def messagesAll (session : Session) : List Operation → List String
  | [] => []
  | operation :: rest => session.messages operation ++ (session.perform operation).messagesAll rest

theorem messages_eq (session : Session) (operation : Operation) :
    session.messages operation =
      (session.interpret operation.statements).notes.map Note.text := by
  cases operation with
  | run source =>
    simp only [messages, run, Operation.statements]
    cases Source.check source with
    | error found => rfl
    | ok statements => exact congrArg (List.map Note.text) (Performance.notes_toRun _)
  | _ => rfl

theorem detail_perform (session : Session) (operation : Operation) :
    (session.perform operation).detail = session.detail := by
  cases operation with
  | run source =>
    simp only [perform, run]
    cases Source.check source with
    | error found => rfl
    | ok statements =>
      simp only [Performance.session_toRun]
      rfl
  | _ => rfl

/-- An operation closes the debug file behind the messages that it issued. -/
theorem log_perform {session : Session} (hclosed : session.log.isOpen = false)
    (operation : Operation) :
    (session.perform operation).log = session.log.record (session.messages operation) := by
  have hquiet : session.log = session.log.record [] := by
    rw [DebugLog.record, List.foldl_nil, DebugLog.close, ← hclosed]
  cases operation with
  | run source =>
    simp only [perform, messages, run]
    cases Source.check source with
    | error found => exact hquiet
    | ok statements =>
      simp only [Performance.session_toRun, Performance.notes_toRun]
      rfl
  | interpret statements => rfl
  | _ => exact hquiet

/-- Operations write what one that issues the messages of all of them does. -/
theorem log_performAll {session : Session} (hclosed : session.log.isOpen = false)
    (operations : List Operation) :
    (session.performAll operations).log = session.log.record (session.messagesAll operations) := by
  induction operations generalizing session with
  | nil =>
    change session.log = session.log.close
    rw [DebugLog.close, ← hclosed]
  | cons operation rest ih =>
    have hstep := log_perform hclosed operation
    have hstarted : session.log.isOpen = true → session.log.started = true := by simp [hclosed]
    change ((session.perform operation).performAll rest).log = _
    rw [ih (by rw [hstep]; rfl), hstep, DebugLog.record_record hstarted, messagesAll]

theorem messagesAll_eq_nil_iff (session : Session) (operations : List Operation) :
    session.messagesAll operations = [] ↔
      session.detail = 0 ∨
        ∀ operation ∈ operations, ∀ s ∈ operation.statements.head?, s.isTooDeep = true := by
  induction operations generalizing session with
  | nil => simp [messagesAll]
  | cons operation rest ih =>
    rw [messagesAll, List.append_eq_nil_iff, ih, detail_perform, messages_eq, List.map_eq_nil_iff,
      notes_interpret_eq_nil_iff, List.forall_mem_cons, or_and_left]

/-- The run of a text ends with a status. -/
theorem exists_status (session : Session) (source : String) :
    ∃ code, (session.run source).ending = .status code := by
  cases hcheck : Source.check source with
  | error found => exact ⟨staticError, by simp only [run, hcheck]⟩
  | ok statements =>
    have hexecutable := Source.executable_of_ofText (Source.check_eq_ok_iff.mp hcheck)
    simp only [run, hcheck, Performance.toRun]
    cases hresult : (session.interpret statements).result with
    | ok _ => exact ⟨finished, rfl⟩
    | error reason =>
      obtain ⟨d, rfl, -⟩ :=
        (Node.stopsOnly_interpret hexecutable session.detail session.store reason hresult).exists_fault
      exact ⟨runtimeError, rfl⟩

end Session

namespace CommandLine

open Session

/-- The prompt goes on to the end of its lines, and leaves the debug file of the session behind. -/
theorem serve_eq {find : Lookup} (hfind : debugIsBlocked find = false) (session : Session)
    (lines : List String) :
    (serve session find lines).ending = .status finished ∧
      (serve session find lines).written = debugFile (session.performAll (lines.map .run)) := by
  induction lines generalizing session with
  | nil => exact ⟨rfl, rfl⟩
  | cons line rest ih =>
    obtain ⟨code, hcode⟩ := session.exists_status line
    have hending : (ofRun find (session.run line)).ending = .status code := by
      simp [ofRun, hfind, hcode]
    simp only [serve, hending]
    exact ih (session.run line).session

end CommandLine

namespace Session

open CommandLine

/-- The debug file of a session after any operations, at any level of detail. Whatever each of them came
to, the file is closed, and it holds every message that was issued, in order, each on a line of its own.
Message by message, it is what it was before the session until the first is written, and then holds
nothing but the messages written so far. No message is issued as long as nothing is traced, or no
operation has a statement to execute first that does not nest too deep. The prompt creates no other file
and no file without a message. (Where the debug file would be, no directory is in the way.) -/
theorem log_faithful (detail : Nat) (store : Store) (old : Option String)
    (operations : List Operation) :
    let start : Session := ⟨detail, store, ⟨old, false, false⟩⟩
    let session := start.performAll operations
    let issued := start.messagesAll operations
    session.log.isOpen = false ∧
    session.log.file = (if issued = [] then old else some (asLines issued)) ∧
    (∀ next count,
      let written := (session.messages next).take count
      (written.foldl DebugLog.write session.log).file =
        if issued ++ written = [] then old else some (asLines (issued ++ written))) ∧
    (issued = [] ↔ detail = 0 ∨
      ∀ operation ∈ operations, ∀ s ∈ operation.statements.head?, s.isTooDeep = true) ∧
    ∀ find lines, debugIsBlocked find = false → operations = lines.map .run →
      (serve start find lines).ending = .status finished ∧
      (serve start find lines).written =
        if issued = [] then [] else [(debugPath, asLines issued)] := by
  intro start session issued
  have hlog : session.log = start.log.record issued := log_performAll rfl operations
  have hrecord : session.log =
      ⟨if issued = [] then old else some (asLines issued), !issued.isEmpty, false⟩ := by
    rw [hlog]
    exact DebugLog.record_eq old issued
  refine ⟨?_, ?_, ?_, start.messagesAll_eq_nil_iff operations, ?_⟩
  · rw [hrecord]
  · rw [hrecord]
  · intro next count written
    have hwritten : session.log.record written = start.log.record (issued ++ written) := by
      rw [hlog]
      exact DebugLog.record_record (absurd · Bool.false_ne_true) issued written
    change (session.log.record written).file = _
    rw [hwritten]
    exact congrArg DebugLog.file (DebugLog.record_eq old (issued ++ written))
  · rintro find lines hfind rfl
    obtain ⟨hending, hfile⟩ := serve_eq hfind start lines
    refine ⟨hending, ?_⟩
    change _ = debugFile session at hfile
    rw [hfile, debugFile, hrecord]
    by_cases hnone : issued = [] <;> simp [hnone]

/-- A text with an error and one without statements, which leave an older file alone, then a run that a
fault ends and one that comes to its end. -/
theorem log_faithful_undefined :
    let lines := ["print ;", "", "var a = \"x\"; print b;", "a = nil;"]
    let start : Session := ⟨2, {}, ⟨some "older", false, false⟩⟩
    let find : Lookup := fun _ => .missing
    let issued := ["execute var a = x", "define a = x", "execute print b", "execute a = nil",
      "assign a = nil"]
    debugIsBlocked find = false ∧
      (start.performAll ((lines.take 2).map .run)).log.file = some "older" ∧
      (start.performAll ((lines.take 3).map .run)).log.isOpen = false ∧
      (start.performAll ((lines.take 3).map .run)).log.file = some (asLines (issued.take 3)) ∧
      (serve start find lines).ending = .status finished ∧
      (serve start find lines).written = [(debugPath, asLines issued)] := by
  intro lines start find issued
  have hfind : debugIsBlocked find = false := rfl
  have hquiet : start.messagesAll ((lines.take 2).map .run) = [] := by
    decide +kernel
  have hfault : start.messagesAll ((lines.take 3).map .run) = issued.take 3 := by
    decide +kernel
  have hall : start.messagesAll (lines.map .run) = issued := by
    decide +kernel
  obtain ⟨-, holder, -, -, -⟩ := log_faithful 2 {} (some "older") ((lines.take 2).map .run)
  obtain ⟨hopen, hfile, -, -, -⟩ := log_faithful 2 {} (some "older") ((lines.take 3).map .run)
  obtain ⟨-, -, -, -, hprompt⟩ := log_faithful 2 {} (some "older") (lines.map .run)
  obtain ⟨hending, hwritten⟩ := hprompt find lines hfind rfl
  rw [hquiet] at holder
  rw [hfault] at hfile
  rw [hall] at hwritten
  exact ⟨hfind, holder, hopen, hfile, hending, hwritten⟩

end Session

end LoxCore
