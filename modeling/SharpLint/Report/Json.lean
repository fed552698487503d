import SharpLint.Text.Digit

/-!
# JSON

Values for other programs, written over several lines with two spaces of
indentation.

## Main definitions

* `JsonValue`: the values.
* `JsonValue.pretty`: the text of a value.
-/

namespace SharpLint

/-- A value for other programs. -/
inductive JsonValue
  | null
  | number (value : Nat)
  | string (text : String)
  | list (items : List JsonValue)
  /-- Values with names, in order. -/
  | record (fields : List (String × JsonValue))
  deriving Repr, Inhabited

namespace JsonValue

/-- A character within quotes. -/
def escape (c : Char) : List Char :=
  if c == '"' then ['\\', '"']
  else if c == '\\' then ['\\', '\\']
  else if c == '\n' then ['\\', 'n']
  else if c == '\r' then ['\\', 'r']
  else if c == '\t' then ['\\', 't']
  else if c == '\x08' then ['\\', 'b']
  else if c == '\x0c' then ['\\', 'f']
  else if c.toNat < 32 then
    ['\\', 'u', '0', '0', Digit.lower (c.toNat / 16), Digit.lower (c.toNat % 16)]
  else [c]

/-- The text in quotes. -/
def quote (text : String) : String :=
  "\"" ++ String.ofList (text.toList.flatMap escape) ++ "\""

/-- A line feed and the indentation of what is nested `depth` deep. -/
def newLine (depth : Nat) : String :=
  String.ofList ('\n' :: List.replicate (2 * depth) ' ')

/-- The texts on lines of their own, between two brackets. -/
def enclose (opening closing : String) (depth : Nat) (texts : List String) : String :=
  if texts.isEmpty then opening ++ closing
  else
    opening ++ newLine (depth + 1) ++ String.intercalate ("," ++ newLine (depth + 1)) texts
      ++ newLine depth ++ closing

mutual

/-- The text of a value that is nested `depth` deep. -/
def prettyAt (depth : Nat) : JsonValue → String
  | .null => "null"
  | .number value => toString value
  | .string text => quote text
  | .list items => enclose "[" "]" depth (prettyItems (depth + 1) items)
  | .record fields => enclose "\x7b" "\x7d" depth (prettyFields (depth + 1) fields)

/-- The texts of the items of a list. -/
def prettyItems (depth : Nat) : List JsonValue → List String
  | [] => []
  | item :: items => prettyAt depth item :: prettyItems depth items

/-- The texts of the fields of a record. -/
def prettyFields (depth : Nat) : List (String × JsonValue) → List String
  | [] => []
  | (name, value) :: fields =>
    (quote name ++ ": " ++ prettyAt depth value) :: prettyFields depth fields

end

/-- The text of a value. -/
def pretty (value : JsonValue) : String :=
  prettyAt 0 value

/-- The value, or `null` where there is none. -/
def ofOption {α : Type} (write : α → JsonValue) : Option α → JsonValue
  | some value => write value
  | none => .null

end JsonValue

end SharpLint
