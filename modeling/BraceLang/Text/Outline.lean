/-!
# Outlines

Nested data as indented text: a node is a single word, a name with its items in parentheses or
braces, or a list of items in brackets. Every item stands on lines of its own, one level further in,
and ends with a comma; a list without items is a pair of brackets.
-/

namespace BraceLang.Text

inductive Outline where
  | atom (text : String)
  | field (label : String) (value : Outline)
  | record (name : String) (fields : List Outline)
  | tuple (name : String) (items : List Outline)
  | list (items : List Outline)

namespace Outline

def indentation (depth : Nat) : String :=
  String.ofList (List.replicate (4 * depth) ' ')

mutual

/-- The text of a node whose first line starts elsewhere. -/
def textAt (depth : Nat) : Outline → String
  | atom text => text
  | field label value => label ++ ": " ++ value.textAt depth
  | record name fields =>
    name ++ " \x7b\n" ++ itemsAt (depth + 1) fields ++ indentation depth ++ "\x7d"
  | tuple name items => name ++ "(\n" ++ itemsAt (depth + 1) items ++ indentation depth ++ ")"
  | list [] => "[]"
  | list items => "[\n" ++ itemsAt (depth + 1) items ++ indentation depth ++ "]"

def itemsAt (depth : Nat) : List Outline → String
  | [] => ""
  | item :: rest => indentation depth ++ item.textAt depth ++ ",\n" ++ itemsAt depth rest

end

def text (o : Outline) : String :=
  o.textAt 0

end Outline

end BraceLang.Text
