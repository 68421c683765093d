import LoxCore.CommandLine.Path
import LoxCore.Table

/-!
What paths lead to. A tree of files is held as a table from the names on the way to a file to its
contents; the directories are those that have a file somewhere below them, and the outermost one.
Outside the tree there are directories too, but nothing in them can be found.
-/
namespace LoxCore.CommandLine

/-- What is found at a path. -/
inductive Finding where
  | missing
  | directory
  | file (contents : ByteArray)
  /-- The path, or a name that was looked for on its way, is longer than any path or name can be. -/
  | nameTooLong

/-- The number of bytes that a name may have. -/
def nameLimit : Nat := 255

/-- The number of bytes that a path may have. -/
def pathLimit : Nat := 4095

/-- Where a path has led so far. -/
inductive Place where
  | within (names : List String)
  /-- A directory outside the tree. -/
  | outside
deriving DecidableEq, Repr

/-- The directory around a place. -/
def Place.parent : Place → Place
  | within [] | outside => outside
  | within names => within names.dropLast

/-- Files by the names of the directories that hold them and their own. -/
structure Files where
  entries : List (List String × ByteArray)

namespace Files

def isDirectory (files : Files) (names : List String) : Bool :=
  names.isEmpty ||
    files.entries.any fun entry => names.isPrefixOf entry.1 && entry.1.length != names.length

/-- The place that some names lead to from a directory on, or what is found in its stead. All names
but the last have to name directories. -/
def follow (files : Files) (directory : Place) : List String → Except Finding Place
  | [] => .ok directory
  | name :: rest =>
    if name = ".." then follow files directory.parent rest
    else if nameLimit < name.utf8ByteSize then .error .nameTooLong
    else
      match directory with
      | .outside => .error .missing
      | .within names =>
        if rest = [] ∨ files.isDirectory (names ++ [name]) then
          follow files (.within (names ++ [name])) rest
        else .error .missing

/-- The place that a path leads to, or what is found in its stead. No name holds a null character. -/
def locate (files : Files) (path : Path) : Except Finding Place :=
  if path.text.toList.contains '\x00' then .error .missing
  else if pathLimit < path.text.utf8ByteSize then .error .nameTooLong
  else files.follow (if path.root = "" then .within [] else .outside) path.parts

def find (files : Files) (path : Path) : Finding :=
  match files.locate path with
  | .error finding => finding
  | .ok .outside => .directory
  | .ok (.within names) =>
    match files.entries.lookup names with
    | some contents => .file contents
    | none => if files.isDirectory names then .directory else .missing

/-- Write a text to a path. A path that leads to no place in the tree is not written to. -/
def write (files : Files) (path : Path) (text : String) : Files :=
  match files.locate path with
  | .ok (.within names) => ⟨Table.set names text.toUTF8 files.entries⟩
  | _ => files

/-- The files that are new or have other contents than before. -/
def changed (before after : Files) : List (List String × ByteArray) :=
  after.entries.filter fun entry =>
    match before.entries.lookup entry.1 with
    | none => true
    | some old => old.data != entry.2.data

end Files

end LoxCore.CommandLine
