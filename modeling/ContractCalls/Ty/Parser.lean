/-
Reading types from the texts compilers print, such as
`mapping(address => uint256)`, `struct Vault.Position storage ref` or
`tuple(uint256,bool)`.

Data locations behind a type are dropped.  Every text has a type: what
nothing else matches is an elementary type of that name.
-/
import ContractCalls.Ty.Basic
import ContractCalls.Text.Blank
import ContractCalls.Text.Digits

namespace ContractCalls.Ty

open Text

/-- The data locations a type text may end in. -/
def locations : List (List Char) :=
  [" storage ref", " storage pointer", " memory", " calldata", " storage", " pointer",
    " ref"].map String.toList

/-- The text without one location, if it ends in that. -/
def dropLocation (text location : List Char) : List Char :=
  match stripEnd? location text with
  | some rest => trimRight rest
  | none => text

/-- The text after one pass over the locations. -/
def dropPass (text : List Char) : List Char := locations.foldl dropLocation text

/-- The text after passes over the locations until one changes nothing. -/
def dropLocations : (fuel : Nat) → List Char → List Char
  | 0, text => text
  | fuel + 1, text =>
      let next := dropPass text
      if next = text then text else dropLocations fuel next

/-- The text between an opening and a closing part. -/
def between? (opening closing : String) (text : List Char) : Option (List Char) :=
  (strip? opening.toList text).bind (stripEnd? closing.toList)

/-- Bracket depth behind a character. -/
def depthAfter (depth : Int) (c : Char) : Int :=
  if c = '(' ∨ c = '[' then depth + 1
  else if c = ')' ∨ c = ']' then depth - 1
  else depth

/-- The text cut at the occurrences of `sep` outside brackets; `skip` characters of a separator
are still to be passed over. -/
def splitOutside (sep : List Char) : (skip : Nat) → (depth : Int) → List Char → List (List Char)
  | _, _, [] => [[]]
  | skip + 1, depth, _ :: cs => splitOutside sep skip depth cs
  | 0, depth, c :: cs =>
      let depth := depthAfter depth c
      if depth = 0 ∧ sep.isPrefixOf (c :: cs) then
        [] :: splitOutside sep (sep.length - 1) depth cs
      else
        match splitOutside sep 0 depth cs with
        | [] => [[c]]
        | part :: rest => (c :: part) :: rest

/-- The parts of a text between separators outside brackets, trimmed. -/
def parts (sep : String) (text : List Char) : List (List Char) :=
  (splitOutside sep.toList 0 0 text).map trim

/-- Looks in a reversed text for the bracket that opens the one it starts with: what precedes
the bracket, and what stands inside.  `inside` holds what was passed, last first. -/
def openingBracket? : (depth : Int) → (inside : List Char) → List Char →
    Option (List Char × List Char)
  | _, _, [] => none
  | depth, inside, c :: cs =>
      if c = ']' then openingBracket? (depth + 1) (c :: inside) cs
      else if c = '[' then
        if depth = 1 then some (cs.reverse, inside) else openingBracket? (depth - 1) (c :: inside) cs
      else openingBracket? depth (c :: inside) cs

/-- Element and size texts of an array text. -/
def arrayParts? (text : List Char) : Option (List Char × List Char) :=
  match text.reverse with
  | ']' :: cs => (openingBracket? 1 [] cs)
  | _ => none

/-- The named types, by the word in front of the name. -/
def named? (text : List Char) : Option Ty :=
  let after := fun (word : String) => strip? word.toList text
  let name := fun cs => String.ofList (trim cs)
  match after "struct " with
  | some cs => some (.struct (name cs))
  | none =>
    match after "enum " with
    | some cs => some (.enum (name cs))
    | none =>
      match (after "contract ").or ((after "library ").or (after "interface ")) with
      | some cs => some (.contract (name cs))
      | none => none

/-- The types of literals. -/
def literal? (text : List Char) : Option Ty :=
  let starts := fun (word : String) => startsWith word.toList text
  match strip? "int_const ".toList text with
  | some value =>
      some (.elementary (if startsWith ['-'] (trimLeft value) then "int256" else "uint256"))
  | none =>
      if starts "rational_const " then some (.elementary "uint256")
      else if starts "literal_string" then some (.elementary "string")
      else if starts "literal_hex" || starts "hex_string" then some (.elementary "bytes")
      else none

/-- The type of a text without brackets around it: a name, a literal, or an elementary type. -/
def plain (text : List Char) : Ty :=
  ((named? text).or (literal? text)).getD (.elementary (String.ofList text))

/-- The type of a text, with fuel above its length. -/
def parseWith : (fuel : Nat) → List Char → Ty
  | 0, _ => .unknown
  | fuel + 1, raw =>
      let text := trim raw
      if text.isEmpty then .unknown
      else
        let text := dropLocations text.length text
        match between? "type(" ")" text with
        | some inner => .typeOf (parseWith fuel inner)
        | none =>
        match between? "mapping(" ")" text with
        | some inner =>
            match parts "=>" inner with
            | [key, value] => .mapping (parseWith fuel key) (parseWith fuel value)
            | _ => .unknown
        | none =>
        match between? "tuple(" ")" text with
        | some inner =>
            if (trim inner).isEmpty then .tuple []
            else .tuple ((parts "," inner).map (parseWith fuel))
        | none =>
        if startsWith "function".toList text then .function (String.ofList text)
        else
        match arrayParts? text with
        | some (element, size) => .array (parseWith fuel element) (word? (trim size))
        | none => plain text

/-- The type of a text. -/
def parse (text : String) : Ty := parseWith (text.toList.length + 1) text.toList

/-- The type of a text that may be missing. -/
def ofText? (text : Option String) : Ty :=
  match text with
  | some s => parse s
  | none => .unknown

/-! ## Parameter lists of function types -/

/-- The text inside the first parenthesis, up to the one that closes it. -/
def firstParenthesis? (text : List Char) : Option (List Char) :=
  match splitFirst? (· == '(') text with
  | some (_, rest) => closing 1 rest
  | none => none
where
  closing : Nat → List Char → Option (List Char)
    | _, [] => none
    | depth, c :: cs =>
        if c = '(' then (closing (depth + 1) cs).map (c :: ·)
        else if c = ')' then
          if depth ≤ 1 then some [] else (closing (depth - 1) cs).map (c :: ·)
        else (closing depth cs).map (c :: ·)

/-- The text cut at the commas outside brackets. -/
def splitCommas : (depth : Int) → List Char → List (List Char)
  | _, [] => [[]]
  | depth, c :: cs =>
      if c = ',' ∧ depth = 0 then [] :: splitCommas depth cs
      else
        match splitCommas (depthAfter depth c) cs with
        | [] => [[c]]
        | part :: rest => (c :: part) :: rest

/-- Parameter types of a function type text, as texts without locations. -/
def functionParameters? (text : String) : Option (List String) := do
  let rest ← strip? "function".toList (trim text.toList)
  let inner := trim (← firstParenthesis? rest)
  if inner.isEmpty then some []
  else some ((splitCommas 0 inner).map fun part => (parse (String.ofList part)).render)

/-- `name(type,...)` by the parameters of a function type text. -/
def signature (name : String) (typeText : Option String) : String :=
  let parameters := (typeText.bind functionParameters?).getD []
  name ++ "(" ++ ",".intercalate parameters ++ ")"

end ContractCalls.Ty
