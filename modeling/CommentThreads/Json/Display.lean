/-
CommentThreads.Json.Display — values as they are shown to a person.

A text is shown as it is, but between quotation marks inside a list or an
object. The empty value and the truth values are the words `None`, `True`
and `False`.
-/
import CommentThreads.Json.Basic
import CommentThreads.Number.Shortest
import CommentThreads.Text.Quoted

namespace CommentThreads.Json

open CommentThreads.Text CommentThreads.Number

mutual

/-- A value inside another one: texts are quoted. -/
def inner : Json → List Char
  | .null => "None".toList
  | .bool true => "True".toList
  | .bool false => "False".toList
  | .int n => signedDecimal n
  | .real x => x.text "inf" "nan"
  | .text s => (quote s).toList
  | .list items => '[' :: innerItems items ++ [']']
  | .object entries => '{' :: innerEntries entries ++ ['}']

/-- Items with commas and blanks between them. -/
def innerItems : List Json → List Char
  | [] => []
  | [v] => inner v
  | v :: rest => inner v ++ ',' :: ' ' :: innerItems rest

/-- Entries with commas and blanks between them. -/
def innerEntries : List (RawText × Json) → List Char
  | [] => []
  | [(k, v)] => (quote k).toList ++ ':' :: ' ' :: inner v
  | (k, v) :: rest => (quote k).toList ++ ':' :: ' ' :: inner v ++ ',' :: ' ' :: innerEntries rest

end

/-- The value as it is shown. -/
def display : Json → RawText
  | .text s => s
  | v => .plain (String.ofList (inner v))

end CommentThreads.Json
