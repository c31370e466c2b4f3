/-
# Reading a graph back

A text in DOT is read in two steps, as tokens and as statements that end in
semicolons.  Where the texts in a graph are quotable, its text is read as one
statement for each node and each edge, in order, and nothing else
(`ofReport_reads`).
-/
import ContractCalls.Proofs.Output.Graph
import ContractCalls.Text.Blank

namespace ContractCalls.Dot

open Text

/-! ## Tokens -/

/-- A word, a quoted text, or a single character. -/
inductive Token where
  | word (text : String)
  | quoted (inside : String)
  | mark (c : Char)
deriving DecidableEq

/-- Where in a text a character is read: between tokens, in a word, or in a quoted text, there with
whether it stands behind an odd number of backslashes. -/
inductive Mode where
  | between
  | word (soFar : List Char)
  | inside (odd : Bool) (soFar : List Char)
deriving DecidableEq

/-- A character of a word. -/
def isWordChar (c : Char) : Bool := c.isAlphanum || c == '_'

/-- A character that no token is left open in front of. -/
def start (c : Char) : List Token × Mode :=
  if c = '"' then ([], .inside false [])
  else if isBlank c then ([], .between)
  else if isWordChar c then ([], .word [c])
  else ([.mark c], .between)

/-- What a character completes, and where it leads. -/
def Mode.step : Mode → Char → List Token × Mode
  | .between, c => start c
  | .word soFar, c =>
      if isWordChar c then ([], .word (soFar ++ [c]))
      else (.word (String.ofList soFar) :: (start c).1, (start c).2)
  | .inside odd soFar, c =>
      if c = '"' ∧ odd = false then ([.quoted (String.ofList soFar)], .between)
      else ([], .inside (c == '\\' && !odd) (soFar ++ [c]))

/-- The tokens that are completed in a text, and where it ends. -/
def scan : Mode → List Char → List Token × Mode
  | mode, [] => ([], mode)
  | mode, c :: cs =>
      let (tokens, next) := mode.step c
      let (more, last) := scan next cs
      (tokens ++ more, last)

/-- The tokens of a text, if no quoted text is left open. -/
def tokens? (text : String) : Option (List Token) :=
  match scan .between text.toList with
  | (tokens, .between) => some tokens
  | (tokens, .word soFar) => some (tokens ++ [.word (String.ofList soFar)])
  | (_, .inside ..) => none

/-! ## Statements -/

/-- A statement of a graph; attributes are names with values. -/
inductive Statement where
  | assignment (name value : String)
  | defaults (attributes : List (String × String))
  | node (id : String) (attributes : List (String × String))
  | edge (source destination : String) (attributes : List (String × String))
deriving DecidableEq

/-- What a token names. -/
def Token.id? : Token → Option String
  | .word text => some text
  | .quoted inside => some inside
  | .mark _ => none

/-- The attributes up to the bracket that closes them. -/
def attributes? : List Token → Option (List (String × String))
  | [.mark ']'] => some []
  | [name, .mark '=', value, .mark ']'] => do return [(← name.id?, ← value.id?)]
  | name :: .mark '=' :: value :: .mark ',' :: rest => do
      return (← name.id?, ← value.id?) :: (← attributes? rest)
  | _ => none

/-- The statement of some tokens. -/
def statement? : List Token → Option Statement
  | .word "node" :: .mark '[' :: rest => do return .defaults (← attributes? rest)
  | [name, .mark '=', value] => do return .assignment (← name.id?) (← value.id?)
  | id :: .mark '[' :: rest => do return .node (← id.id?) (← attributes? rest)
  | source :: .mark '-' :: .mark '>' :: destination :: .mark '[' :: rest => do
      return .edge (← source.id?) (← destination.id?) (← attributes? rest)
  | _ => none

/-- The statements up to the brace that closes the graph, behind some tokens of the first. -/
def statements? : (soFar : List Token) → List Token → Option (List Statement)
  | _, [] => none
  | soFar, t :: ts =>
      if t = .mark ';' then do return (← statement? soFar) :: (← statements? [] ts)
      else if t = .mark '\x7d' then if soFar = [] ∧ ts = [] then some [] else none
      else statements? (soFar ++ [t]) ts

/-- The statements of a directed graph. -/
def read (text : String) : Option (List Statement) := do
  match ← tokens? text with
  | .word "digraph" :: .quoted _ :: .mark '\x7b' :: rest => statements? [] rest
  | _ => none

/-! ## Tokens of the parts of a text -/

/-- The text is read as the tokens, between tokens. -/
def Lexes (cs : List Char) (tokens : List Token) : Prop :=
  scan .between cs = (tokens, .between)

instance (cs : List Char) (tokens : List Token) : Decidable (Lexes cs tokens) :=
  inferInstanceAs (Decidable (_ = _))

theorem scan_append (mode : Mode) (xs ys : List Char) : scan mode (xs ++ ys) =
    ((scan mode xs).1 ++ (scan (scan mode xs).2 ys).1, (scan (scan mode xs).2 ys).2) := by
  induction xs generalizing mode with
  | nil => rfl
  | cons x xs ih => simp only [List.cons_append, scan, ih, List.append_assoc]

theorem Lexes.append {xs ys : List Char} {ts us : List Token} (hx : Lexes xs ts)
    (hy : Lexes ys us) : Lexes (xs ++ ys) (ts ++ us) := by
  rw [Lexes, scan_append, hx, hy]

theorem Lexes.flatMap {α : Type} {xs : List α} {text : α → List Char} {tokens : α → List Token}
    (h : ∀ x ∈ xs, Lexes (text x) (tokens x)) : Lexes (xs.flatMap text) (xs.flatMap tokens) := by
  induction xs with
  | nil => rfl
  | cons x xs ih =>
      rw [List.forall_mem_cons] at h
      exact h.1.append (ih h.2)

/-- A quoted text is read up to the quote that closes it. -/
theorem scan_inside {odd : Bool} {soFar cs inside rest : List Char}
    (h : readQuoted odd cs = some (inside, rest)) : scan (.inside odd soFar) cs =
      (.quoted (String.ofList (soFar ++ inside)) :: (scan .between rest).1,
        (scan .between rest).2) := by
  induction cs generalizing odd soFar inside with
  | nil => cases h
  | cons c cs ih =>
      rw [readQuoted] at h
      rw [scan, Mode.step]
      split at h
      · next hclose =>
          cases h
          rw [if_pos hclose, List.append_nil]
          rfl
      · next hclose =>
          obtain ⟨⟨inside', rest'⟩, hrest, hpair⟩ := Option.map_eq_some_iff.1 h
          cases hpair
          rw [if_neg hclose]
          simp only [ih hrest, List.nil_append, List.append_assoc, List.singleton_append]

theorem lexes_quoted {text : String} (h : Quotable text) :
    Lexes (quoted text).toList [.quoted (escape text)] := by
  have hread := (readQuoted_escape text []).2 h
  have htext : (quoted text).toList = '"' :: ((escape text).toList ++ ['"']) := by simp [quoted]
  have hopen : Mode.between.step '"' = ([], .inside false []) := rfl
  rw [Lexes, htext, scan, hopen]
  simp only [scan_inside hread, List.nil_append, String.ofList_toList, scan]

/-! ## Statements one after another -/

/-- Tokens that end neither a statement nor the graph. -/
def Goes (ts : List Token) : Prop := ∀ t ∈ ts, t ≠ .mark ';' ∧ t ≠ .mark '\x7d'

theorem statements?_append {ts : List Token} (h : Goes ts) (soFar rest : List Token) :
    statements? soFar (ts ++ .mark ';' :: rest) =
      (statement? (soFar ++ ts)).bind fun s => (statements? [] rest).map (s :: ·) := by
  induction ts generalizing soFar with
  | nil =>
      rw [List.nil_append, List.append_nil, statements?, if_pos rfl]
      cases statement? soFar <;> cases statements? [] rest <;> rfl
  | cons t ts ih =>
      obtain ⟨⟨hsemicolon, hbrace⟩, hts⟩ := List.forall_mem_cons.1 h
      rw [List.cons_append, statements?, if_neg hsemicolon, if_neg hbrace, ih hts,
        List.append_assoc, List.singleton_append]

theorem statements?_flatMap {α : Type} {xs : List α} {tokens : α → List Token}
    {statement : α → Statement} (hgoes : ∀ x ∈ xs, Goes (tokens x))
    (h : ∀ x ∈ xs, statement? (tokens x) = some (statement x)) (rest : List Token) :
    statements? [] (xs.flatMap (fun x => tokens x ++ [.mark ';']) ++ rest) =
      (statements? [] rest).map (xs.map statement ++ ·) := by
  induction xs with
  | nil => simp
  | cons x xs ih =>
      rw [List.forall_mem_cons] at hgoes h
      rw [List.flatMap_cons, List.append_assoc, List.append_assoc, List.singleton_append,
        statements?_append hgoes.1, List.nil_append, h.1, ih hgoes.2 h.2, Option.bind_some,
        Option.map_map]
      rfl

/-! ## The statements of a graph -/

/-- The texts of a node are quotable. -/
def QuotableNode (node : String × Style) : Prop := Quotable node.1 ∧ Quotable node.2.label

instance (node : String × Style) : Decidable (QuotableNode node) :=
  inferInstanceAs (Decidable (_ ∧ _))

/-- The tokens of a node up to the semicolon. -/
def nodeTokens (node : String × Style) : List Token :=
  [.quoted (escape node.1), .mark '[', .word "label", .mark '=', .quoted (escape node.2.label),
    .mark ',', .word "shape", .mark '=', .quoted node.2.shape, .mark ']']

/-- The statement of a node. -/
def nodeStatement (node : String × Style) : Statement :=
  .node (escape node.1) [("label", escape node.2.label), ("shape", node.2.shape)]

/-- The tokens of an edge up to the semicolon. -/
def edgeTokens (e : Edge) : List Token :=
  [.quoted (escape e.source), .mark '-', .mark '>', .quoted (escape e.destination), .mark '[',
    .word "label", .mark '=', .quoted e.kind.render, .mark ',', .word "color", .mark '=',
    .quoted (color e.kind), .mark ']']

/-- The statement of an edge. -/
def edgeStatement (e : Edge) : Statement :=
  .edge (escape e.source) (escape e.destination)
    [("label", e.kind.render), ("color", color e.kind)]

theorem shape_of_mem {report : CompilationReport} {node : String × Style}
    (h : node ∈ (graph report).nodes) : node.2.shape ∈ ["box", "diamond", "ellipse"] := by
  rw [graph_eq] at h
  rcases Ordered.written_of_mem h with hput | hnew
  · obtain ⟨_, f, -, -, hstyle⟩ := put_mem_writes.1 hput
    simp [hstyle]
  · obtain ⟨_, call, -, htarget⟩ := putNew_mem_writes.1 hnew
    rcases function_or_other call with ⟨_, _, _, _, _, _, _, rfl⟩ | hother
    · obtain ⟨-, hstyle⟩ := Prod.mk.inj htarget
      simp [← hstyle]
    · rw [target_other hother] at htarget
      obtain ⟨-, hstyle⟩ := Prod.mk.inj htarget
      rw [← hstyle]
      dsimp only
      split <;> simp

theorem lexes_nodeLine {node : String × Style} (h : QuotableNode node)
    (hshape : node.2.shape ∈ ["box", "diamond", "ellipse"]) :
    Lexes ((nodeLine node).toList ++ ['\n']) (nodeTokens node ++ [.mark ';']) := by
  have hend : Lexes (", shape=\"" ++ node.2.shape ++ "\"];").toList
      [.mark ',', .word "shape", .mark '=', .quoted node.2.shape, .mark ']', .mark ';'] := by
    simp only [List.mem_cons, List.not_mem_nil, or_false] at hshape
    rcases hshape with hshape | hshape | hshape <;> rw [hshape] <;> decide +kernel
  have hindent : Lexes "  ".toList [] := rfl
  have hlabel : Lexes " [label=".toList [.mark '[', .word "label", .mark '='] := rfl
  have hfeed : Lexes ['\n'] [] := rfl
  have hline := (((((hindent.append (lexes_quoted h.1)).append hlabel).append
    (lexes_quoted h.2)).append hend).append hfeed)
  simpa [nodeLine, nodeTokens] using hline

theorem lexes_edgeLine {e : Edge} (hsource : Quotable e.source)
    (hdestination : Quotable e.destination) :
    Lexes ((edgeLine e).toList ++ ['\n']) (edgeTokens e ++ [.mark ';']) := by
  have hend : Lexes
      (" [label=\"" ++ e.kind.render ++ "\", color=\"" ++ color e.kind ++ "\"];").toList
      [.mark '[', .word "label", .mark '=', .quoted e.kind.render, .mark ',', .word "color",
        .mark '=', .quoted (color e.kind), .mark ']', .mark ';'] := by
    cases e.kind <;> decide +kernel
  have hindent : Lexes "  ".toList [] := rfl
  have harrow : Lexes " -> ".toList [.mark '-', .mark '>'] := rfl
  have hfeed : Lexes ['\n'] [] := rfl
  have hline := (((((hindent.append (lexes_quoted hsource)).append harrow).append
    (lexes_quoted hdestination)).append hend).append hfeed)
  simpa [edgeLine, edgeTokens] using hline

/-- The characters of the text of a graph, line by line. -/
theorem toList_render (g : Graph) : (render g).toList =
    "digraph \"callgraph\" \x7b\n  rankdir=LR;\n  node [fontsize=10];\n".toList ++
      (g.nodes.flatMap (fun node => (nodeLine node).toList ++ ['\n']) ++
        (g.edges.flatMap (fun e => (edgeLine e).toList ++ ['\n']) ++ "\x7d\n".toList)) := by
  simp [render_eq, List.flatMap_map]

theorem Lexes.tokens? {text : String} {tokens : List Token} (h : Lexes text.toList tokens) :
    tokens? text = some tokens := by
  rw [Dot.tokens?, h]

/-- The first statements with their tokens. -/
def opening : List (List Token × Statement) :=
  [([.word "rankdir", .mark '=', .word "LR"], .assignment "rankdir" "LR"),
    ([.word "node", .mark '[', .word "fontsize", .mark '=', .word "10", .mark ']'],
      .defaults [("fontsize", "10")])]

/-- The tokens of a graph behind its opening brace. -/
def bodyTokens (g : Graph) : List Token :=
  opening.flatMap (fun entry => entry.1 ++ [.mark ';']) ++
    (g.nodes.flatMap (fun node => nodeTokens node ++ [.mark ';']) ++
      (g.edges.flatMap (fun e => edgeTokens e ++ [.mark ';']) ++ [.mark '\x7d']))

theorem statements?_bodyTokens (g : Graph) : statements? [] (bodyTokens g) =
    some (opening.map Prod.snd ++ (g.nodes.map nodeStatement ++ g.edges.map edgeStatement)) := by
  have hopening : ∀ entry ∈ opening, Goes entry.1 := by simp [opening, Goes]
  have hnodes : ∀ node ∈ g.nodes, Goes (nodeTokens node) := by simp [Goes, nodeTokens]
  have hedges : ∀ e ∈ g.edges, Goes (edgeTokens e) := by simp [Goes, edgeTokens]
  have hopeningRead : ∀ entry ∈ opening, statement? entry.1 = some entry.2 := by decide
  have hnodesRead : ∀ node ∈ g.nodes, statement? (nodeTokens node) = some (nodeStatement node) :=
    fun node _ => rfl
  have hedgesRead : ∀ e ∈ g.edges, statement? (edgeTokens e) = some (edgeStatement e) :=
    fun e _ => rfl
  have hclose : statements? [] [.mark '\x7d'] = some [] := rfl
  rw [bodyTokens, statements?_flatMap hopening hopeningRead, statements?_flatMap hnodes hnodesRead,
    statements?_flatMap hedges hedgesRead, hclose, Option.map_some, Option.map_some,
    Option.map_some, List.append_nil]

/-- Where its texts are quotable, the text of a graph is read as its statements. -/
theorem read_render {g : Graph} (hnodes : ∀ node ∈ g.nodes, QuotableNode node)
    (hshapes : ∀ node ∈ g.nodes, node.2.shape ∈ ["box", "diamond", "ellipse"])
    (hedges : ∀ e ∈ g.edges, Quotable e.source ∧ Quotable e.destination) :
    read (render g) =
      some (opening.map Prod.snd ++ (g.nodes.map nodeStatement ++ g.edges.map edgeStatement)) := by
  have hopen : Lexes "digraph \"callgraph\" \x7b\n  rankdir=LR;\n  node [fontsize=10];\n".toList
      ([.word "digraph", .quoted "callgraph", .mark '\x7b'] ++
        opening.flatMap (fun entry => entry.1 ++ [.mark ';'])) := by
    decide +kernel
  have hclose : Lexes "\x7d\n".toList [.mark '\x7d'] := by decide +kernel
  have hlexes := hopen.append ((Lexes.flatMap fun node hnode =>
    lexes_nodeLine (hnodes node hnode) (hshapes node hnode)).append ((Lexes.flatMap fun e he =>
      lexes_edgeLine (hedges e he).1 (hedges e he).2).append hclose))
  rw [← toList_render, List.append_assoc] at hlexes
  rw [read, hlexes.tokens?]
  exact statements?_bodyTokens g

/-- A quoted text is closed by its own quote exactly if it is quotable.  Where the texts of a graph
are, its text is read as one statement for each node and each edge.  Different texts stay different
in quotes. -/
theorem ofReport_reads {report : CompilationReport}
    (h : ∀ node ∈ (graph report).nodes, QuotableNode node) :
    (∀ text rest, readQuoted false ((escape text).toList ++ '"' :: rest) =
        some ((escape text).toList, rest) ↔ Quotable text) ∧
      read (ofReport report) = some (opening.map Prod.snd ++
        ((graph report).nodes.map nodeStatement ++ (graph report).edges.map edgeStatement)) ∧
      Function.Injective quoted := by
  refine ⟨readQuoted_escape, ?_, quoted_injective⟩
  refine read_render h (fun node hnode => shape_of_mem hnode) fun e he => ?_
  obtain ⟨style, hsource⟩ := exists_node_source (mem_edges.1 he)
  obtain ⟨style', hdestination⟩ := exists_node_destination (mem_edges.1 he)
  exact ⟨(h _ hsource).1, (h _ hdestination).1⟩

/-- A report of one function that makes one call. -/
def single (id display label : String) : CompilationReport :=
  ⟨"t", [⟨"C", [(.external, [bareFunction id display [.unknown .external label]])]⟩]⟩

theorem ofReport_reads_quotes :
    (∀ node ∈ (graph (single "say \"hi\"" "f()\\\\" "a\\b")).nodes, QuotableNode node) ∧
      read (ofReport (single "say \"hi\"" "f()\\\\" "a\\b")) ≠ none := by
  have hnodes : ∀ node ∈ (graph (single "say \"hi\"" "f()\\\\" "a\\b")).nodes,
      QuotableNode node := by
    decide +kernel
  refine ⟨hnodes, ?_⟩
  rw [(ofReport_reads hnodes).2.1]
  exact Option.some_ne_none _

/-- A single backslash leaves the text open, and the graph unreadable. -/
theorem backslash_leaves_open :
    (∃ node ∈ (graph (single "C::f" "f()" "\\")).nodes, ∀ rest,
        readQuoted false ((escape node.1).toList ++ '"' :: rest) ≠
          some ((escape node.1).toList, rest)) ∧
      read (ofReport (single "C::f" "f()" "\\")) = none := by
  have hnot : ¬ Quotable "unknown::\\" := by decide +kernel
  have hmem : ("unknown::\\", ⟨"\\", "ellipse"⟩) ∈ (graph (single "C::f" "f()" "\\")).nodes := by
    decide +kernel
  exact ⟨⟨_, hmem, fun rest => mt (readQuoted_escape _ rest).1 hnot⟩, by decide +kernel⟩

end ContractCalls.Dot
