import LoxCore.Node

/-!
One-line renderings of syntax trees. Operators carry their own parentheses, so groups show none.
-/
namespace LoxCore.Node

mutual

/-- The rendering of a tree, whatever its depth. -/
def text : Node → String
  | null => "None"
  | list items => "[" ++ ", ".intercalate (textAll items) ++ "]"
  | literal value => value.text
  | ref name => name.lexeme
  | assign name value => name.lexeme ++ " = " ++ text value
  | logical left operator right =>
    text left ++ (if operator.kind = .andKeyword then " and " else " or ") ++ text right
  | unary operator right => "(" ++ operator.lexeme ++ " " ++ text right ++ ")"
  | binary left operator right =>
    "(" ++ text left ++ " " ++ operator.lexeme ++ " " ++ text right ++ ")"
  | grouping inner | expression inner => text inner
  | block statements => "\x7b " ++ "  ".intercalate (textAll statements) ++ " \x7d"
  | conditional condition thenBranch elseBranch =>
    "if (" ++ text condition ++ ") " ++ text thenBranch ++
      (match elseBranch with
        | null => ""
        | present => " else " ++ text present)
  | print inner => "print " ++ text inner
  | var name initializer =>
    "var " ++ name.lexeme ++
      (match initializer with
        | null => ""
        | present => " = " ++ text present)

def textAll : List Node → List String
  | [] => []
  | n :: rest => text n :: textAll rest

end

theorem text_conditional {elseBranch : Node} (h : elseBranch ≠ null) (condition thenBranch : Node) :
    text (conditional condition thenBranch elseBranch) =
      "if (" ++ text condition ++ ") " ++ text thenBranch ++ (" else " ++ text elseBranch) := by
  cases elseBranch <;> first | rfl | contradiction

theorem text_var {initializer : Node} (h : initializer ≠ null) (name : Token) :
    text (var name initializer) = "var " ++ name.lexeme ++ (" = " ++ text initializer) := by
  cases initializer <;> first | rfl | contradiction

/-- The rendering of a tree that does not nest too deep. -/
def render? (n : Node) : Option String :=
  if n.isTooDeep then none else some n.text

end LoxCore.Node
