/-
Operator tokens of Vyper trees.
-/
namespace ContractCalls.Vyper

/-- The token of an operator node. -/
def operatorSymbol : (nodeType : String) → String
  | "Add" => "+"
  | "Sub" => "-"
  | "Mult" => "*"
  | "Div" => "/"
  | "FloorDiv" => "//"
  | "Mod" => "%"
  | "Pow" => "**"
  | "LShift" => "<<"
  | "RShift" => ">>"
  | "BitAnd" => "&"
  | "BitOr" => "|"
  | "BitXor" => "^"
  | "And" => "&&"
  | "Or" => "||"
  | "Eq" => "=="
  | "NotEq" => "!="
  | "Lt" => "<"
  | "LtE" => "<="
  | "Gt" => ">"
  | "GtE" => ">="
  | "In" => "in"
  | "NotIn" => "not in"
  | "Not" => "!"
  | "Invert" => "~"
  | "USub" => "-"
  | _ => "?"

end ContractCalls.Vyper
