import LoxCore.Token

/-!
Syntax trees. One type holds expressions and statements, since a tree that was written by hand may
have either in the other's place, and nothing or a bare list as well.
-/
namespace LoxCore

/-- A node of a syntax tree. Trees read from source text are built of literals, references,
assignments, unary and binary operations, groups, and the three statements `expression`, `print` and
`var`; the other nodes come from saved trees. -/
inductive Node where
  /-- Nothing, where a node could stand. -/
  | null
  | list (items : List Node)
  | literal (value : Value)
  | ref (name : Token)
  | assign (name : Token) (value : Node)
  | logical (left : Node) (operator : Token) (right : Node)
  | unary (operator : Token) (right : Node)
  | binary (left : Node) (operator : Token) (right : Node)
  | grouping (inner : Node)
  | block (statements : List Node)
  | expression (inner : Node)
  | conditional (condition thenBranch elseBranch : Node)
  | print (inner : Node)
  | var (name : Token) (initializer : Node)

/-- The number of levels that text, saved trees, rendering and evaluation may nest. -/
def nestingLimit : Nat := 1000

namespace Node

mutual

/-- The number of levels of a tree. -/
def depth : Node → Nat
  | null | literal _ | ref _ => 1
  | list items | block items => depthAll items + 1
  | assign _ inner | unary _ inner | grouping inner | expression inner | print inner
  | var _ inner => depth inner + 1
  | logical left _ right | binary left _ right => max (depth left) (depth right) + 1
  | conditional condition thenBranch elseBranch =>
    max (depth condition) (max (depth thenBranch) (depth elseBranch)) + 1

/-- The number of levels of the deepest of some trees. -/
def depthAll : List Node → Nat
  | [] => 0
  | n :: rest => max (depth n) (depthAll rest)

end

/-- Whether a tree nests deeper than is allowed. -/
def isTooDeep (n : Node) : Bool :=
  decide (nestingLimit < n.depth)

mutual

/-- The tokens that a tree holds, in the order in which they are written down. -/
def tokens : Node → List Token
  | null | literal _ => []
  | list items | block items => tokensAll items
  | ref name => [name]
  | assign name value => name :: tokens value
  | logical left operator right | binary left operator right =>
    tokens left ++ operator :: tokens right
  | unary operator right => operator :: tokens right
  | grouping inner | expression inner | print inner => tokens inner
  | conditional condition thenBranch elseBranch =>
    tokens condition ++ tokens thenBranch ++ tokens elseBranch
  | var name initializer => name :: tokens initializer

def tokensAll : List Node → List Token
  | [] => []
  | n :: rest => tokens n ++ tokensAll rest

end

/-- What a node is made of: tokens and nodes. -/
inductive Part where
  | token (t : Token)
  | node (n : Node)

/-- The parts of a node, in the order of its fields. -/
def parts : Node → List Part
  | null | literal _ => []
  | list items | block items => items.map .node
  | ref name => [.token name]
  | assign name value => [.token name, .node value]
  | logical left operator right | binary left operator right =>
    [.node left, .token operator, .node right]
  | unary operator right => [.token operator, .node right]
  | grouping inner | expression inner | print inner => [.node inner]
  | conditional condition thenBranch elseBranch =>
    [.node condition, .node thenBranch, .node elseBranch]
  | var name initializer => [.token name, .node initializer]

mutual

/-- The number of tokens and nodes in a tree. -/
def size : Node → Nat
  | null | literal _ => 1
  | list items | block items => sizeAll items + 1
  | ref _ => 2
  | assign _ inner | unary _ inner | var _ inner => size inner + 2
  | logical left _ right | binary left _ right => size left + size right + 2
  | grouping inner | expression inner | print inner => size inner + 1
  | conditional condition thenBranch elseBranch =>
    size condition + size thenBranch + size elseBranch + 1

def sizeAll : List Node → Nat
  | [] => 0
  | n :: rest => size n + sizeAll rest

end

def Part.size : Part → Nat
  | token _ => 1
  | node n => n.size

/-- The number of tokens and nodes in some parts. -/
def Part.sizeAll : List Part → Nat
  | [] => 0
  | p :: rest => p.size + sizeAll rest

theorem Part.sizeAll_append (first second : List Part) :
    sizeAll (first ++ second) = sizeAll first + sizeAll second := by
  induction first with
  | nil => simp [sizeAll]
  | cons p rest ih => simp [sizeAll, ih, Nat.add_assoc]

theorem Part.sizeAll_map_node (items : List Node) :
    sizeAll (items.map node) = Node.sizeAll items := by
  induction items with
  | nil => rfl
  | cons n rest ih =>
    rw [List.map_cons, sizeAll, ih]
    rfl

/-- A node is larger than its parts together. -/
theorem sizeAll_parts_lt (n : Node) : Part.sizeAll n.parts < n.size := by
  cases n <;> simp only [parts, Part.sizeAll_map_node, Part.sizeAll, Part.size, size] <;> omega

/-- The first token among some parts, each searched to its end before the next. The parts still to
be searched are kept in a list, so the search needs no more room than the tree. -/
def firstToken? : List Part → Option Token
  | [] => none
  | .token t :: _ => some t
  | .node n :: rest => firstToken? (n.parts ++ rest)
termination_by pending => Part.sizeAll pending
decreasing_by
  have := sizeAll_parts_lt n
  simp only [Part.sizeAll_append, Part.sizeAll, Part.size]
  omega

/-- The line of the first token of a tree, or zero if it has none. -/
def firstLine (n : Node) : Int :=
  ((firstToken? [.node n]).map Token.line).getD 0

/-- The name of a kind of node in saved trees. The first two have no saved form of their own. -/
def kindName : Node → String
  | null => "NoneType"
  | list _ => "list"
  | literal _ => "Literal"
  | ref _ => "Variable"
  | assign .. => "Assign"
  | logical .. => "Logical"
  | unary .. => "Unary"
  | binary .. => "Binary"
  | grouping _ => "Grouping"
  | block _ => "Block"
  | expression _ => "Expression"
  | conditional .. => "If"
  | print _ => "Print"
  | var .. => "Var"

end Node

end LoxCore
