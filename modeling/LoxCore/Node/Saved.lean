import LoxCore.Node
import LoxCore.Json.Read
import LoxCore.Json.Display

/-!
The saved form of syntax trees. A node is an object whose field `type` names its kind, a token an
object with its kind, text, literal and line. Loading reads the fields of an object in a fixed order,
and what first fails to load decides the fault.
-/
namespace LoxCore

/-! Saving. -/

/-- The saved form of what a token carries. -/
def Token.Literal.toJson : Token.Literal → Json
  | nil => .null
  | bool b => .bool b
  | integer n => .integer n
  | number x => .number x
  | string s => .string s

def Token.toJson (t : Token) : Json :=
  .object [("type", .string t.kind.name), ("lexeme", .string t.lexeme),
    ("literal", t.literal.toJson), ("line", .integer t.line)]

def Value.toJson : Value → Json
  | nil => .null
  | bool b => .bool b
  | number x => .number x
  | string s => .string s

namespace Node

/-- An object for a node of a given kind. -/
def tagged (kind : String) (fields : List (String × Json)) : Json :=
  .object (("type", .string kind) :: fields)

mutual

/-- The saved form of a tree, whatever its depth. -/
def toJson : Node → Json
  | null => .null
  | list items => .array (toJsonAll items)
  | literal value => tagged "Literal" [("value", value.toJson)]
  | ref name => tagged "Variable" [("name", name.toJson)]
  | assign name value => tagged "Assign" [("name", name.toJson), ("value", toJson value)]
  | logical left operator right =>
    tagged "Logical"
      [("left", toJson left), ("operator", operator.toJson), ("right", toJson right)]
  | unary operator right =>
    tagged "Unary" [("operator", operator.toJson), ("right", toJson right)]
  | binary left operator right =>
    tagged "Binary"
      [("left", toJson left), ("operator", operator.toJson), ("right", toJson right)]
  | grouping inner => tagged "Grouping" [("expression", toJson inner)]
  | block statements => tagged "Block" [("statements", .array (toJsonAll statements))]
  | expression inner => tagged "Expression" [("expression", toJson inner)]
  | conditional condition thenBranch elseBranch =>
    tagged "If"
      [("condition", toJson condition), ("then_branch", toJson thenBranch),
        ("else_branch", toJson elseBranch)]
  | print inner => tagged "Print" [("expression", toJson inner)]
  | var name initializer =>
    tagged "Var" [("name", name.toJson), ("initializer", toJson initializer)]

def toJsonAll : List Node → List Json
  | [] => []
  | n :: rest => toJson n :: toJsonAll rest

end

/-- The saved form of a program, if none of its statements nests too deep. -/
def save? (statements : List Node) : Option Json :=
  if statements.any isTooDeep then none else some (.array (toJsonAll statements))

end Node

/-! Loading. -/

/-- Why a saved tree cannot be loaded. -/
inductive LoadFault where
  | missingField (name : String)
  | unknownTokenKind (name : String)
  | notAList
  | unknownNodeKind (kind : Json)
  | malformedNode (j : Json)
  /-- A value of the wrong form stands where a token, a list or a scalar should. -/
  | wrongForm
  /-- An integer beyond the range of numbers. -/
  | numberTooLarge

/-- The field or token kind at fault, or a sentence. -/
def LoadFault.message : LoadFault → String
  | missingField name => name
  | unknownTokenKind name => name
  | notAList => "AST JSON must be a list of statements"
  | unknownNodeKind kind => "Unknown AST node type: " ++ kind.mention
  | malformedNode j => "Malformed AST object: " ++ j.display
  | wrongForm => "wrong form"
  | numberTooLarge => "integer too large"

namespace Json

/-- A field that has to be there. -/
def require (fields : List (String × Json)) (name : String) : Except LoadFault Json :=
  match field? fields name with
  | some j => .ok j
  | none => .error (.missingField name)

end Json

/-- The kind of a token from its name. -/
def Token.Kind.load : Json → Except LoadFault Token.Kind
  | .string name =>
    match Token.Kind.ofName? name with
    | some kind => .ok kind
    | none => .error (.unknownTokenKind name)
  | .array _ | .object _ => .error .wrongForm
  | other => .error (.unknownTokenKind other.mention)

def Token.Literal.load : Json → Except LoadFault Token.Literal
  | .null => .ok .nil
  | .bool b => .ok (.bool b)
  | .integer n => .ok (.integer n)
  | .number x => .ok (.number x)
  | .string s => .ok (.string s)
  | .array _ | .object _ => .error .wrongForm

/-- Load a token. Only its literal may be absent. -/
def Token.load : Json → Except LoadFault Token
  | .object fields => do
    let kind ← Token.Kind.load (← Json.require fields "type")
    let lexeme ← loadText (← Json.require fields "lexeme")
    let literal ← Token.Literal.load ((Json.field? fields "literal").getD .null)
    let line ← loadLine (← Json.require fields "line")
    return ⟨kind, lexeme, literal, line⟩
  | _ => .error .wrongForm
where
  loadText : Json → Except LoadFault String
    | .string s => .ok s
    | _ => .error .wrongForm
  loadLine : Json → Except LoadFault Int
    | .integer n => .ok n
    | _ => .error .wrongForm

/-- Load the value of a literal. Integers become numbers, rounded to the nearest. -/
def Value.load : Json → Except LoadFault Value
  | .null => .ok .nil
  | .bool b => .ok (.bool b)
  | .integer n =>
    let magnitude := Decimal.nearest ⟨n.natAbs, 0⟩
    if magnitude = Double.infinityBits then .error .numberTooLarge
    else .ok (.number (Double.ofMagnitude (decide (n < 0)) magnitude))
  | .number x => .ok (.number x)
  | .string s => .ok (.string s)
  | .array _ | .object _ => .error .wrongForm

namespace Node

/-- The loaded trees of the fields of an object, each of which may have failed. -/
abbrev Subtrees := List (String × Except LoadFault Node)

/-- The tree of a field that has to be there. -/
def Subtrees.require (trees : Subtrees) (name : String) : Except LoadFault Node :=
  match trees.lookup name with
  | some outcome => outcome
  | none => .error (.missingField name)

/-- The tree of a field, or nothing if it is absent. -/
def Subtrees.optional (trees : Subtrees) (name : String) : Except LoadFault Node :=
  match trees.lookup name with
  | some outcome => outcome
  | none => .ok null

def requireToken (fields : List (String × Json)) (name : String) : Except LoadFault Token :=
  (Json.require fields name).bind Token.load

/-- A block of the trees of a list. -/
def blockOfList : Node → Node
  | list items => block items
  | other => other

/-- The block of some statements. A string is walked by its characters and an object by the names of
its fields, and none of these is a node. -/
def loadBlock (statements : Json) (trees : Subtrees) : Except LoadFault Node :=
  match statements with
  | .array _ => (trees.require "statements").map blockOfList
  | .string s =>
    match s.toList with
    | [] => .ok (block [])
    | c :: _ => .error (.malformedNode (.string (String.ofList [c])))
  | .object [] => .ok (block [])
  | .object ((name, _) :: _) => .error (.malformedNode (.string name))
  | _ => .error .wrongForm

/-- The node that an object describes, given its fields and the trees they load to. -/
def ofFields (fields : List (String × Json)) (trees : Subtrees) : Except LoadFault Node :=
  match Json.field? fields "type" with
  | none => .error (.malformedNode (.object fields))
  | some (.string "Literal") => do
    return literal (← Value.load (← Json.require fields "value"))
  | some (.string "Variable") => do
    return ref (← requireToken fields "name")
  | some (.string "Assign") => do
    let name ← requireToken fields "name"
    return assign name (← trees.require "value")
  | some (.string "Logical") => do
    let left ← trees.require "left"
    let operator ← requireToken fields "operator"
    return logical left operator (← trees.require "right")
  | some (.string "Unary") => do
    let operator ← requireToken fields "operator"
    return unary operator (← trees.require "right")
  | some (.string "Binary") => do
    let left ← trees.require "left"
    let operator ← requireToken fields "operator"
    return binary left operator (← trees.require "right")
  | some (.string "Grouping") => do
    return grouping (← trees.require "expression")
  | some (.string "Block") => do
    loadBlock (← Json.require fields "statements") trees
  | some (.string "Expression") => do
    return expression (← trees.require "expression")
  | some (.string "If") => do
    let condition ← trees.require "condition"
    let thenBranch ← trees.require "then_branch"
    return conditional condition thenBranch (← trees.optional "else_branch")
  | some (.string "Print") => do
    return print (← trees.require "expression")
  | some (.string "Var") => do
    let name ← requireToken fields "name"
    return var name (← trees.optional "initializer")
  | some other => .error (.unknownNodeKind other)

mutual

/-- Load a tree. -/
def load : Json → Except LoadFault Node
  | .null => .ok null
  | .array items => (loadAll items).map list
  | .object fields => ofFields fields (loadFields fields)
  | other => .error (.malformedNode other)

/-- Load trees up to the first that fails. -/
def loadAll : List Json → Except LoadFault (List Node)
  | [] => .ok []
  | j :: rest =>
    match load j with
    | .error fault => .error fault
    | .ok n => (loadAll rest).map (n :: ·)

def loadFields : List (String × Json) → Subtrees
  | [] => []
  | (name, j) :: rest => (name, load j) :: loadFields rest

end

/-- Load the statements of a program. -/
def loadStatements : Json → Except LoadFault (List Node)
  | .array items => loadAll items
  | _ => .error .notAList

/-- Why a text cannot be loaded as a program. -/
inductive TextFault where
  | unreadable (fault : Json.Fault)
  | unloadable (fault : LoadFault)

/-- Load the statements of a program from JSON text. -/
def loadText (s : String) : Except TextFault (List Node) :=
  match Json.readTo nestingLimit s with
  | .error fault => .error (.unreadable fault)
  | .ok j =>
    match loadStatements j with
    | .error fault => .error (.unloadable fault)
    | .ok statements => .ok statements

end Node

end LoxCore
