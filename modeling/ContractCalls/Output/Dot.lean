/-
Call graphs in the DOT language.

Reported functions are boxes with their visibility; other targets are keyed by
kind and text.  Nodes and edges come in sorted order.
-/
import ContractCalls.Output.Report

namespace ContractCalls.Dot

/-- The text with every pair of backslashes doubled. -/
def doublePairs : List Char → List Char
  | '\\' :: '\\' :: cs => '\\' :: '\\' :: '\\' :: '\\' :: doublePairs cs
  | c :: cs => c :: doublePairs cs
  | [] => []

/-- A character inside a quoted text. -/
def escapeQuote (c : Char) : List Char := if c = '"' then ['\\', '"'] else [c]

/-- The inside of a quoted text. -/
def escape (text : String) : String :=
  String.ofList ((doublePairs text.toList).flatMap escapeQuote)

/-- The colour of an edge. -/
def color : EdgeKind → String
  | .internal => "black"
  | .external => "red"
  | .library => "blue"
  | .modifier => "gray40"
  | .baseConstructor => "purple4"
  | .solidity => "darkorange3"

/-- The look of a node. -/
structure Style where
  label : String
  shape : String
deriving DecidableEq, Repr

/-- An edge of the graph. -/
structure Edge where
  source : String
  destination : String
  kind : EdgeKind
deriving DecidableEq, Repr

/-- The order of edges: by source, destination and the word for the kind. -/
def Edge.order : Ordered.Comparison Edge :=
  Ordered.lexically (Ordered.comparing Edge.source)
    (Ordered.lexically (Ordered.comparing Edge.destination)
      (Ordered.comparing fun e => e.kind.render))

/-- A graph: nodes by ascending id, edges ascending. -/
structure Graph where
  nodes : List (String × Style)
  edges : List Edge

/-- The node of a call target: its id and its look. -/
def target (call : CallEntry) : String × Style :=
  match call with
  | .function _ id _ display .. => (id, ⟨display, "box"⟩)
  | other =>
      let shape := match other.kind with
        | .unknown | .stateVar => "ellipse"
        | _ => "diamond"
      (other.kind.render ++ "::" ++ other.label, ⟨other.label, shape⟩)

/-- Adds a call of a function; a node that is there keeps its look. -/
def addCall (source : String) (g : Graph) (call : CallEntry) : Graph :=
  let (id, style) := target call
  { nodes := Ordered.putNew id style g.nodes
    edges := Ordered.insert Edge.order ⟨source, id, call.edge⟩ g.edges }

/-- Adds a reported function, whose look replaces any other, and its calls. -/
def addFunction (g : Graph) (entry : Visibility × FunctionNode) : Graph :=
  let (visibility, node) := entry
  let style : Style := ⟨node.display ++ "\\n[" ++ visibility.render ++ "]", "box"⟩
  node.calls.foldl (addCall node.id) { g with nodes := Ordered.put node.id style g.nodes }

/-- The graph of a report. -/
def graph (report : CompilationReport) : Graph :=
  (report.contracts.flatMap ContractReport.nodes).foldl addFunction ⟨[], []⟩

/-- A text in quotes. -/
def quoted (text : String) : String := "\"" ++ escape text ++ "\""

/-- The statement of a node. -/
def nodeLine (node : String × Style) : String :=
  "  " ++ quoted node.1 ++ " [label=" ++ quoted node.2.label ++ ", shape=\"" ++ node.2.shape ++
    "\"];"

/-- The statement of an edge. -/
def edgeLine (e : Edge) : String :=
  "  " ++ quoted e.source ++ " -> " ++ quoted e.destination ++ " [label=\"" ++ e.kind.render ++
    "\", color=\"" ++ color e.kind ++ "\"];"

/-- The text of a graph. -/
def render (g : Graph) : String :=
  let lines := ["digraph \"callgraph\" \x7b", "  rankdir=LR;", "  node [fontsize=10];"] ++
    g.nodes.map nodeLine ++ g.edges.map edgeLine ++ ["\x7d"]
  "\n".intercalate lines ++ "\n"

/-- The call graph of a report as text. -/
def ofReport (report : CompilationReport) : String := render (graph report)

end ContractCalls.Dot
