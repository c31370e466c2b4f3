/-
Writing JSON text, on one line or indented by two blanks a level.

Strings escape the quote, the backslash and control characters and leave
every other character as it is.
-/
import ContractCalls.Json.Basic

namespace ContractCalls.Json

/-- The characters of a string's text for one character. -/
def escapeChar (c : Char) : List Char :=
  if c = '"' then ['\\', '"']
  else if c = '\\' then ['\\', '\\']
  else if c = '\n' then ['\\', 'n']
  else if c = '\r' then ['\\', 'r']
  else if c = '\t' then ['\\', 't']
  else if c.toNat = 8 then ['\\', 'b']
  else if c.toNat = 12 then ['\\', 'f']
  else if c.toNat < 0x20 then
    ['\\', 'u', '0', '0', Nat.digitChar (c.toNat / 16), Nat.digitChar (c.toNat % 16)]
  else [c]

/-- A string in quotes. -/
def quote (s : String) : String :=
  String.ofList ('"' :: s.toList.flatMap escapeChar ++ ['"'])

/-- A number: a whole number as its digits, a double as the fewest digits that read back. -/
def writeNumber : JsonNumber → String
  | .whole n => toString n
  | .double x => x.render

mutual

/-- A value on one line. -/
def compact : Json → String
  | .null => "null"
  | .bool b => if b then "true" else "false"
  | .number n => writeNumber n
  | .string s => quote s
  | .array items => "[" ++ ",".intercalate (compactItems items) ++ "]"
  | .object fields => "\x7b" ++ ",".intercalate (compactFields fields) ++ "\x7d"

/-- The items of an array, each on one line. -/
def compactItems : List Json → List String
  | [] => []
  | item :: rest => compact item :: compactItems rest

/-- The fields of an object, each on one line. -/
def compactFields : List (String × Json) → List String
  | [] => []
  | (key, item) :: rest => (quote key ++ ":" ++ compact item) :: compactFields rest

end

/-- A line break followed by the indentation of a level. -/
def breakAt (level : Nat) : String :=
  String.ofList ('\n' :: List.replicate (2 * level) ' ')

/-- Parts between brackets, each on a line of its own one level deeper. -/
def bracketed (level : Nat) (opening closing : String) (parts : List String) : String :=
  match parts with
  | [] => opening ++ closing
  | parts =>
      opening ++ breakAt (level + 1) ++ ("," ++ breakAt (level + 1)).intercalate parts ++
        breakAt level ++ closing

mutual

/-- A value over several lines, standing at an indentation level. -/
def prettyAt (level : Nat) : Json → String
  | .null => "null"
  | .bool b => if b then "true" else "false"
  | .number n => writeNumber n
  | .string s => quote s
  | .array items => bracketed level "[" "]" (prettyItems (level + 1) items)
  | .object fields => bracketed level "\x7b" "\x7d" (prettyFields (level + 1) fields)

/-- The items of an array at a level. -/
def prettyItems (level : Nat) : List Json → List String
  | [] => []
  | item :: rest => prettyAt level item :: prettyItems level rest

/-- The fields of an object at a level. -/
def prettyFields (level : Nat) : List (String × Json) → List String
  | [] => []
  | (key, item) :: rest => (quote key ++ ": " ++ prettyAt level item) :: prettyFields level rest

end

/-- A value over several lines. -/
def pretty (j : Json) : String := prettyAt 0 j

end ContractCalls.Json
