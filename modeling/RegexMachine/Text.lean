/-!
# Written forms

How values are spelled in listings: a list in brackets, a name with its arguments in
parentheses, and a name with labelled fields in braces.
-/

namespace RegexMachine.Text

/-- The items of a list, separated by commas, in brackets. -/
def list (items : List String) : String :=
  "[" ++ ", ".intercalate items ++ "]"

/-- A name applied to one argument. -/
def applied (name argument : String) : String :=
  name ++ "(" ++ argument ++ ")"

/-- A name with labelled fields. -/
def labelled (name : String) (fields : List (String × String)) : String :=
  name ++ " \x7b " ++ ", ".intercalate (fields.map fun field => field.1 ++ ": " ++ field.2) ++
    " \x7d"

/-- An optional item: its absence, or its presence applied to it. -/
def optional (item : Option String) : String :=
  match item with
  | none => "None"
  | some text => applied "Some" text

/-- The two truth values. -/
def truth (value : Bool) : String :=
  if value then "true" else "false"

/-- The digit of a value below 16. -/
def hexDigit (value : Nat) : Char :=
  if value < 10 then Char.ofNat (48 + value) else Char.ofNat (87 + value)

/-- A byte as two lower-case hexadecimal digits. -/
def hexByte (byte : UInt8) : String :=
  String.ofList [hexDigit (byte.toNat / 16), hexDigit (byte.toNat % 16)]

/-- Text brought to a width by spaces on its left. -/
def padLeft (width : Nat) (text : String) : String :=
  String.ofList (List.replicate (width - text.length) ' ') ++ text

end RegexMachine.Text
