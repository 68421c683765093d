import LoxCore.Proofs.Node.Loading
import LoxCore.CommandLine.Run

/-!
Running a saved tree is all or nothing. A file is run if it holds a list of trees that fit the schema,
and whatever else it holds, none of it is run, not even the statements before the fault.
-/
namespace LoxCore.CommandLine

/-- An ending before anything was run: nothing is printed but a message, and no file is written. -/
structure Effect.Refuses (effect : Effect) (ending : Ending) : Prop where
  ending : effect.ending = ending
  out : effect.out = ""
  written : effect.written = []

/-- How the program ends on a tree that cannot be loaded. -/
def loadEnding : LoadFault → Ending
  | .numberTooLarge => .numberTooLarge
  | _ => .status malformedStatus

variable {session : Session} {find : Lookup} {path : Path} {contents : ByteArray}

/-- A tree that does not load is refused. -/
theorem runTree_unloadable {text : String} {j : Json} {fault : LoadFault}
    (hfind : find path = .file contents) (htext : Text.decode? contents = some text)
    (hread : Json.readTo nestingLimit text = .ok j) (hload : Node.loadStatements j = .error fault) :
    (runTree session find path).Refuses (loadEnding fault) := by
  have hloadText : Node.loadText text = .error (.unloadable fault) := by
    rw [Node.loadText, hread]
    simp only [hload]
  simp only [runTree, readFile, hfind, htext, hloadText]
  cases fault <;> exact ⟨rfl, rfl, rfl⟩

/-- A file that cannot be read as JSON is refused. -/
theorem runTree_unreadable (hfind : find path = .file contents)
    (hread : ∀ text j, Text.decode? contents = some text →
      Json.readTo nestingLimit text ≠ .ok j) :
    (runTree session find path).Refuses (.status malformedStatus) := by
  simp only [runTree, readFile, hfind]
  cases htext : Text.decode? contents with
  | none => exact ⟨rfl, rfl, rfl⟩
  | some text =>
    cases hj : Json.readTo nestingLimit text with
    | ok j => exact absurd hj (hread text j htext)
    | error fault =>
      have hloadText : Node.loadText text = .error (.unreadable fault) := by
        rw [Node.loadText, hj]
      simp only [hloadText]
      exact ⟨rfl, rfl, rfl⟩

/-- A saved tree loads exactly if it fits the schema, and else the fault is that of the first element
that does not fit. A file that does not load is refused as a whole, whatever its first statements are:
what cannot be read as JSON is malformed, and so is what offends, but for a number that is too large. -/
theorem loading_all_or_nothing :
    (∀ j, Node.Ordinary .tree j →
      ((∃ statements, Node.loadStatements j = .ok statements) ↔ Node.FitsProgram j) ∧
      ∀ fault, Node.loadStatements j = .error fault ↔ Node.ProgramOffends j fault) ∧
    (∀ (session : Session) (find : Lookup) (path : Path) (input : String) (contents : ByteArray)
        (text : String) (j : Json) (fault : LoadFault),
      find path = .file contents → Text.decode? contents = some text →
      Json.readTo nestingLimit text = .ok j → Node.Ordinary .tree j → Node.ProgramOffends j fault →
        ((Task.tree .run path).perform session find input).Refuses (loadEnding fault)) ∧
    (∀ (session : Session) (find : Lookup) (path : Path) (input : String) (contents : ByteArray),
      find path = .file contents →
      (∀ text j, Text.decode? contents = some text → Json.readTo nestingLimit text ≠ .ok j) →
        ((Task.tree .run path).perform session find input).Refuses (.status malformedStatus)) := by
  have hdecides : ∀ j, Node.Ordinary .tree j →
      ((∃ statements, Node.loadStatements j = .ok statements) ↔ Node.FitsProgram j) ∧
      ∀ fault, Node.loadStatements j = .error fault ↔ Node.ProgramOffends j fault :=
    fun j hordinary => (Node.decides_loadStatements hordinary).iff
      (fun _ => Node.ProgramOffends.not_fits) (fun _ _ => Node.ProgramOffends.unique)
  refine ⟨hdecides, ?_, ?_⟩
  · intro session find path input contents text j fault hfind htext hread hordinary hoffends
    have hload := ((hdecides j hordinary).2 fault).mpr hoffends
    exact runTree_unloadable hfind htext hread hload
  · intro session find path input contents hfind hread
    exact runTree_unreadable hfind hread

/-- Two statements. The second is a list, and the name of the variable in it is absent. -/
def unfinishedTree : Json :=
  .array [
    Node.tagged "Print" [("expression", Node.tagged "Literal" [("value", .string "hi")])],
    .array [.null, Node.tagged "Print" [("expression", Node.tagged "Variable" [])]]]

/-- The first statement of the unfinished tree is not run. -/
theorem loading_all_or_nothing_unfinished :
    Node.Ordinary .tree unfinishedTree ∧
      Node.ProgramOffends unfinishedTree (.missingField "name") ∧
      (∀ input, ((Task.tree .run ⟨"", ["hello.json"]⟩).perform { detail := 0 }
        (fun _ => .file unfinishedTree.write.toUTF8) input).Refuses (.status 64)) ∧
      ∀ input, ((Task.tree .run ⟨"", ["hello.json"]⟩).perform { detail := 0 }
        (fun _ => .file "[".toUTF8) input).Refuses (.status 64) := by
  have hordinary : Node.Ordinary .tree unfinishedTree := by
    have hliteral : Node.Ordinary .tree (Node.tagged "Literal" [("value", .string "hi")]) :=
      .of_kind rfl rfl (by simpa [Node.OrdinaryField] using .scalar trivial)
    have hvariable : Node.Ordinary .tree (Node.tagged "Variable" []) :=
      .of_kind rfl rfl (by simp [Node.OrdinaryField, Json.field?, List.lookup])
    have hprint : ∀ inner, Node.Ordinary .tree inner →
        Node.Ordinary .tree (Node.tagged "Print" [("expression", inner)]) :=
      fun inner hinner => .of_kind rfl rfl (by simpa [Node.OrdinaryField] using hinner)
    have hlist : Node.Ordinary .tree
        (.array [.null, Node.tagged "Print" [("expression", Node.tagged "Variable" [])]]) :=
      .list (by simpa using ⟨.bare trivial, hprint _ hvariable⟩)
    exact .list (by simpa using ⟨hprint _ hliteral, hlist⟩)
  have hload : Node.loadStatements unfinishedTree = .error (.missingField "name") := rfl
  have hoffends := ((loading_all_or_nothing.1 _ hordinary).2 _).mp hload
  have hdistinct : Json.Distinct unfinishedTree := by
    have hprint : ∀ inner : Json, inner.Distinct →
        (Node.tagged "Print" [("expression", inner)]).Distinct :=
      fun inner hinner => Node.distinct_tagged (by simp) (by simpa using hinner)
    have hliteral : (Node.tagged "Literal" [("value", .string "hi")]).Distinct :=
      Node.distinct_tagged (by simp) (by simpa using .string "hi")
    have hvariable : (Node.tagged "Variable" []).Distinct :=
      Node.distinct_tagged (by simp) nofun
    have hlist : (Json.array [.null,
        Node.tagged "Print" [("expression", Node.tagged "Variable" [])]]).Distinct :=
      .array (by simpa using ⟨.null, hprint _ hvariable⟩)
    exact .array (by simpa using ⟨hprint _ hliteral, hlist⟩)
  have hread : Json.readTo nestingLimit unfinishedTree.write = .ok unfinishedTree := by
    have hlimits : (Json.readTo nestingLimit unfinishedTree.write).isOk = true := by
      decide +kernel
    rcases Json.readTo_write nestingLimit hdistinct with hread | ⟨fault, hread, -⟩
    · exact hread
    · rw [hread] at hlimits
      contradiction
  refine ⟨hordinary, hoffends, fun input => ?_, fun input => ?_⟩
  · exact loading_all_or_nothing.2.1 _ _ _ input _ _ _ _ rfl (Json.decode?_write _) hread hordinary
      hoffends
  · refine loading_all_or_nothing.2.2 _ _ _ input _ rfl fun text j htext hread => ?_
    have hbracket : Text.decode? "[".toUTF8 = some "[" := Text.decode?_toUTF8 (by decide)
    obtain rfl := Option.some.inj (hbracket.symm.trans htext)
    have hunread : (Json.readTo nestingLimit "[").isOk = false := by
      decide +kernel
    rw [hread] at hunread
    cases hunread

end LoxCore.CommandLine
