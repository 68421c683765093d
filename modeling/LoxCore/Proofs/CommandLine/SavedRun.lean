import LoxCore.Proofs.CommandLine.Files
import LoxCore.Proofs.Node.Saved

/-!
Running a saved tree does what running the script does. The tree goes to a file as JSON and is read
back from there, and neither the trace nor any report shows the detour.
-/
namespace LoxCore

/-- The reader of JSON hits none of its limits on the text: neither that of nesting nor that of the
digits of an integer. -/
def Json.WithinLimits (text : String) : Prop :=
  ∀ fault, Json.readTo nestingLimit text = .error fault → fault = .malformed

theorem Json.withinLimits_of_isOk {text : String} (h : (Json.readTo nestingLimit text).isOk = true) :
    Json.WithinLimits text := by
  intro fault hfault
  rw [hfault] at h
  contradiction

namespace CommandLine

/-- The files after some texts are written, one after the other. -/
def Files.writeAll (files : Files) (written : List (Path × String)) : Files :=
  written.foldl (fun files (path, text) => files.write path text) files

/-- Statements are read from a file that is UTF-8 text without errors. All else is a failure. -/
theorem readStatements_cases (find : Lookup) (script : Path) :
    (∃ contents text statements, find script = .file contents ∧
      Text.decode? contents = some text ∧ Source.check text = .ok statements ∧
      readStatements find script = .ok statements) ∨
    ∃ effect, readStatements find script = .error effect ∧
      effect.ending ≠ .status Session.finished := by
  unfold readStatements readScript readFile
  cases hfind : find script with
  | file contents =>
    cases htext : Text.decode? contents with
    | none =>
      right
      simp only [htext]
      exact ⟨_, rfl, nofun⟩
    | some text =>
      cases hcheck : Source.check text with
      | error found =>
        right
        simp only [htext, hcheck]
        exact ⟨_, rfl, by simp [failure, Session.staticError, Session.finished]⟩
      | ok statements =>
        left
        simp only [htext, hcheck]
        exact ⟨contents, text, statements, rfl, htext, hcheck, rfl⟩
  | missing => exact .inr ⟨_, rfl, by simp [missingFile, failure, missingStatus, Session.finished]⟩
  | directory => exact .inr ⟨_, rfl, nofun⟩
  | nameTooLong => exact .inr ⟨_, rfl, nofun⟩

/-- An emission that succeeds has read a script without errors, and writes its saved form to a path
where a file can be. -/
theorem emitTree_finished {find : Lookup} {script : Path}
    (h : (emitTree find script).ending = .status Session.finished) :
    ∃ contents text statements saved, find script = .file contents ∧
      Text.decode? contents = some text ∧ Source.check text = .ok statements ∧
      Node.save? statements = some saved ∧ find (script.lengthen savedSuffix) ≠ .nameTooLong ∧
      (emitTree find script).written = [(script.lengthen savedSuffix, saved.write)] := by
  unfold emitTree at h ⊢
  rcases readStatements_cases find script with
    ⟨contents, text, statements, hfind, htext, hstatements, hread⟩ | ⟨effect, hread, hfailure⟩
  · simp only [hread] at h ⊢
    cases hsaved : Node.save? statements with
    | none =>
      simp only [hsaved] at h
      simp [nestedTooDeep, failure, Session.staticError, Session.finished] at h
    | some saved =>
      simp only [hsaved] at h ⊢
      refine ⟨contents, text, statements, saved, hfind, htext, hstatements, hsaved, ?_⟩
      cases htarget : find (script.lengthen savedSuffix) with
      | directory =>
        simp only [htarget] at h
        cases h
      | nameTooLong =>
        simp only [htarget] at h
        cases h
      | missing => exact ⟨nofun, rfl⟩
      | file old => exact ⟨nofun, rfl⟩
  · simp only [hread] at h
    exact absurd h hfailure

theorem append_savedSuffix_ne_debug (name : String) : name ++ savedSuffix ≠ "debug.txt" := by
  intro h
  have hlast := congrArg (fun s => s.toList.getLast?) h
  simp [savedSuffix] at hlast

/-- What a run of statements does depends on the files only through what stands in the place of the
debug file. -/
theorem ofRun_congr {find find' : Lookup} (h : find debugPath = find' debugPath)
    (run : Session.Run) : ofRun find run = ofRun find' run := by
  rw [ofRun, ofRun, debugIsBlocked, debugIsBlocked, h]

/-- A script is run by running its statements. -/
theorem runScript_eq {session : Session} {find : Lookup} {script : Path} {contents : ByteArray}
    {text : String} {statements : List Node} (hfind : find script = .file contents)
    (htext : Text.decode? contents = some text) (hstatements : Source.check text = .ok statements) :
    runScript session find script = ofRun find (session.interpret statements).toRun := by
  simp only [runScript, readScript, readFile, hfind, htext, Session.run, hstatements]

/-- A saved tree is run by running the statements that were saved. -/
theorem runTree_eq {session : Session} {find : Lookup} {path : Path} {saved : Json}
    {statements : List Node} (hfind : find path = .file saved.write.toUTF8)
    (hsaved : Node.save? statements = some saved) (hlimits : Json.WithinLimits saved.write) :
    runTree session find path = ofRun find (session.interpret statements).toRun := by
  have hload : Node.loadText saved.write = .ok statements := by
    rcases Node.loadText_write hsaved with hload | ⟨fault, hread, hfault⟩
    · exact hload
    · exact absurd (hlimits fault hread) hfault
  simp only [runTree, readFile, hfind, Json.decode?_write, hload]

/-- Running the tree that a script was saved to shows the same ending, the same output, the same
reports and the same debug file as running the script, at every level of detail. -/
theorem runTree_saved_eq_runScript (files : Files) (script : Path) (detail : ℕ) (input : String)
    (session : Session)
    (hemit : ((Task.tree .emit script).perform session files.find input).ending =
      .status Session.finished)
    (hlimits : ∀ path text,
      (path, text) ∈ ((Task.tree .emit script).perform session files.find input).written →
        Json.WithinLimits text) :
    (Task.tree .run (script.lengthen savedSuffix)).perform { detail }
        (files.writeAll ((Task.tree .emit script).perform session files.find input).written).find input =
      (Task.script script).perform { detail } files.find input := by
  change (emitTree files.find script).ending = _ at hemit
  change ∀ path text, (path, text) ∈ (emitTree files.find script).written → _ at hlimits
  change runTree _ (files.writeAll (emitTree files.find script).written).find _ =
    runScript _ files.find script
  obtain ⟨contents, text, statements, saved, hscript, htext, hstatements, hsaved, hname, hwritten⟩ :=
    emitTree_finished hemit
  rw [hwritten] at hlimits ⊢
  change runTree _ (files.write (script.lengthen savedSuffix) saved.write).find _ = _
  rcases Files.locate_saved hscript with hlocate | ⟨around, haround, hlocate⟩
  · exfalso
    apply hname
    simp only [Files.find, hlocate]
  · have hself := Files.find_write_self saved.write hlocate
    have hdebug := Files.find_write_debugPath saved.write haround
      (append_savedSuffix_ne_debug _) hlocate
    rw [runTree_eq hself hsaved (hlimits _ _ List.mem_cons_self),
      runScript_eq hscript htext hstatements]
    exact ofRun_congr hdebug _

/-- A directory with one script in it. -/
def greeting : Files :=
  ⟨[(["hello.lox"], "print \"hello\";".toUTF8)]⟩

/-- The script that prints a greeting is saved, and its saved tree prints the same. -/
theorem runTree_saved_greeting :
    ((Task.tree .emit ⟨"", ["hello.lox"]⟩).perform { detail := 0 } greeting.find "").ending =
        .status Session.finished ∧
      (∀ path text, (path, text) ∈
        ((Task.tree .emit ⟨"", ["hello.lox"]⟩).perform { detail := 0 } greeting.find "").written →
          Json.WithinLimits text) ∧
      (Task.tree .run ⟨"", ["hello.lox.ast.json"]⟩).perform { detail := 3 }
          (greeting.writeAll ((Task.tree .emit ⟨"", ["hello.lox"]⟩).perform { detail := 0 }
            greeting.find "").written).find "" =
        (Task.script ⟨"", ["hello.lox"]⟩).perform { detail := 3 } greeting.find "" := by
  have hemit : ((Task.tree .emit ⟨"", ["hello.lox"]⟩).perform { detail := 0 }
      greeting.find "").ending = .status Session.finished := by
    decide +kernel
  have hread : ∀ written ∈ ((Task.tree .emit ⟨"", ["hello.lox"]⟩).perform { detail := 0 }
      greeting.find "").written, (Json.readTo nestingLimit written.2).isOk = true := by
    decide +kernel
  have hlimits : ∀ path text, (path, text) ∈
      ((Task.tree .emit ⟨"", ["hello.lox"]⟩).perform { detail := 0 } greeting.find "").written →
        Json.WithinLimits text :=
    fun path text hmem => Json.withinLimits_of_isOk (hread (path, text) hmem)
  exact ⟨hemit, hlimits, runTree_saved_eq_runScript greeting ⟨"", ["hello.lox"]⟩ 3 "" { detail := 0 }
    hemit hlimits⟩

end CommandLine

end LoxCore
