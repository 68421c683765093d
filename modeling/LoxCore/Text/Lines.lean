/-!
Line breaks in text from outside.
-/
namespace LoxCore.Text

/-- Every line break as a line feed: a carriage return with the line feed after it, if there is one,
is a single break. -/
def unifyBreaks : List Char → List Char
  | [] => []
  | '\r' :: '\n' :: rest => '\n' :: unifyBreaks rest
  | '\r' :: rest => '\n' :: unifyBreaks rest
  | c :: rest => c :: unifyBreaks rest

/-- A text from UTF-8, with every line break as a line feed. -/
def decode? (bytes : ByteArray) : Option String :=
  (String.fromUTF8? bytes).map fun s => String.ofList (unifyBreaks s.toList)

/-- The lines of a text, which line feeds end. The last line may lack its line feed. -/
def lines (cs : List Char) : List (List Char) :=
  let pieces := cs.splitOn '\n'
  if pieces.getLast? = some [] then pieces.dropLast else pieces

end LoxCore.Text
