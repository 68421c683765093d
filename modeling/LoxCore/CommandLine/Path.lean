/-!
Paths of files: a root, if the path is absolute, and the names below it. Empty names and single points
mean nothing and are dropped; double points are kept.
-/
namespace LoxCore.CommandLine

structure Path where
  root : String
  parts : List String
deriving DecidableEq, Repr

namespace Path

/-- One slash at the front makes a path absolute, and so do three or more. Exactly two are a root of
their own. -/
def rootOf (cs : List Char) : String :=
  match (cs.takeWhile (· = '/')).length with
  | 0 => ""
  | 2 => "//"
  | _ => "/"

def ofString (s : String) : Path :=
  let parts := (s.toList.splitOn '/').map String.ofList
  ⟨rootOf s.toList, parts.filter fun part => part ≠ "" ∧ part ≠ "."⟩

/-- The path as messages show it. -/
def text (p : Path) : String :=
  if p.root = "" ∧ p.parts = [] then "." else p.root ++ "/".intercalate p.parts

/-- The path with its last name lengthened. -/
def lengthen (p : Path) (suffix : String) : Path :=
  { p with parts := p.parts.dropLast ++ [p.parts.getLastD "" ++ suffix] }

end Path

end LoxCore.CommandLine
