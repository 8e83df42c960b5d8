/-
CommentThreads.Text.Words — small questions about strings, answered over
their characters.
-/

namespace CommentThreads.Text

/-- What follows a given beginning, if the text has it. -/
def afterStart? : (start : List Char) → List Char → Option (List Char)
  | [], s => some s
  | c :: start, x :: s => if c = x then afterStart? start s else none
  | _ :: _, [] => none

/-- What follows a given beginning, if the string has it. -/
def following? (start s : String) : Option String :=
  (afterStart? start.toList s.toList).map String.ofList

/-- The string begins with another one. -/
def startsWith (s start : String) : Bool :=
  (afterStart? start.toList s.toList).isSome

/-- The first characters of a string. -/
def firstChars (n : Nat) (s : String) : String :=
  String.ofList (s.toList.take n)

/-- The string, unless it is empty. -/
def nonEmpty? (s : String) : Option String :=
  if s = "" then none else some s

/-- Strings one behind the other with a separator between them. -/
def joinWith (separator : String) : List String → String
  | [] => ""
  | [s] => s
  | s :: rest => s ++ separator ++ joinWith separator rest

end CommentThreads.Text
