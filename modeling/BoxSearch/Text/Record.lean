/-!
# Written forms of records and lists

A record is its name and its fields in braces, a list its elements in brackets, and quoted text
escapes the characters that would end or disturb it.
-/
set_option autoImplicit false

namespace BoxSearch.Text

def record (name : String) (fields : List (String × String)) : String :=
  if fields.isEmpty then name
  else
    name ++ " \x7b " ++ String.intercalate ", " (fields.map fun f => f.1 ++ ": " ++ f.2) ++ " \x7d"

def list (items : List String) : String := "[" ++ String.intercalate ", " items ++ "]"

def escaped (c : Char) : String :=
  match c with
  | '\"' => "\\\""
  | '\\' => "\\\\"
  | '\n' => "\\n"
  | '\t' => "\\t"
  | '\r' => "\\r"
  | c => String.ofList [c]

def quoted (s : String) : String := "\"" ++ String.join (s.toList.map escaped) ++ "\""

def optional : Option String → String
  | none => "None"
  | some s => "Some(" ++ s ++ ")"

def padRight (width : Nat) (s : String) : String :=
  s ++ String.ofList (List.replicate (width - s.length) ' ')

def rule (width : Nat) : String := String.ofList (List.replicate width '-')

end BoxSearch.Text
