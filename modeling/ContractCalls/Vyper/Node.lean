/-
Nodes of a Vyper syntax tree.

A node is an object with a textual `ast_type`; what else is found among the
fields of a node is data.  Every node reached from a node is smaller than it.
-/
import ContractCalls.Json.Basic
import ContractCalls.Source
import ContractCalls.Ty.Basic

namespace ContractCalls.Vyper

open Text

/-- A node of a syntax tree. -/
structure Node where
  json : Json
deriving Repr

namespace Node

/-- The node of a value that is one. -/
def ofJson? (json : Json) : Option Node :=
  ((json.get? "ast_type").bind Json.asString?).map fun _ => ⟨json⟩

/-! ## Attributes -/

/-- The type of a node, empty if it has none. -/
def astType (n : Node) : String := ((n.json.get? "ast_type").bind Json.asString?).getD ""

/-- The node has the given type. -/
def is (n : Node) (astType : String) : Bool := n.astType == astType

def text? (n : Node) (key : String) : Option String := (n.json.get? key).bind Json.asString?

/-- The attribute is true. -/
def flag (n : Node) (key : String) : Bool := ((n.json.get? key).bind Json.asBool?).getD false

def nat? (n : Node) (key : String) : Option Nat := (n.json.get? key).bind Json.asNat?

/-- The name of a name, definition or declaration. -/
def name? (n : Node) : Option String := (n.text? "id").or (n.text? "name")

def nodeId? (n : Node) : Option Int := (n.json.get? "node_id").bind Json.asInt?

/-! ## Children -/

/-- A field that is a node. -/
def child? (n : Node) (key : String) : Option Node := (n.json.get? key).bind ofJson?

/-- The items of an array field. -/
def items (n : Node) (key : String) : List Json :=
  ((n.json.get? key).bind Json.asArray?).getD []

/-- The nodes of an array field. -/
def nodes (n : Node) (key : String) : List Node := (n.items key).filterMap ofJson?

/-- The nodes a value holds directly: itself, or the nodes of an array. -/
def nodesIn (json : Json) : List Node :=
  match json.asArray? with
  | some items => items.filterMap ofJson?
  | none => (ofJson? json).toList

/-- The nodes in the fields of a node, in order of their keys. -/
def children (n : Node) : List Node :=
  (n.json.asObject?.getD []).flatMap fun field => nodesIn field.2

/-- The index of a subscript; older compilers wrap it in a node of its own. -/
def slice? (n : Node) : Option Node :=
  (n.child? "slice").map fun slice =>
    match slice.child? "value" with
    | some inner => if slice.is "Index" then inner else slice
    | none => slice

/-- The parts of the index of a subscript. -/
def sliceElements (n : Node) : List Node :=
  match n.slice? with
  | some slice => if slice.is "Tuple" then slice.nodes "elements" else [slice]
  | none => []

/-! ## Parts are smaller than their node -/

/-- The node `c` was found inside the node `n`. -/
abbrev IsPart (c n : Node) : Prop := sizeOf c.json < sizeOf n.json

theorem json_of_ofJson? {j : Json} {c : Node} (h : ofJson? j = some c) : c.json = j := by
  simp only [ofJson?, Option.map_eq_some_iff] at h
  obtain ⟨_, _, rfl⟩ := h
  rfl

theorem isPart_of_child? {n c : Node} {key : String} (h : n.child? key = some c) :
    IsPart c n := by
  obtain ⟨j, hj, hc⟩ := Option.bind_eq_some_iff.1 h
  simpa only [IsPart, json_of_ofJson? hc] using Json.sizeOf_get? hj

theorem isPart_of_nodes {n c : Node} {key : String} (h : c ∈ n.nodes key) : IsPart c n := by
  obtain ⟨j, hj, hc⟩ := List.mem_filterMap.1 h
  simp only [items] at hj
  cases hg : n.json.get? key with
  | none => simp [hg] at hj
  | some v =>
      cases ha : v.asArray? with
      | none => simp [hg, ha] at hj
      | some xs =>
          simp only [hg, ha, Option.bind_some, Option.getD_some] at hj
          simpa only [IsPart, json_of_ofJson? hc] using
            Nat.lt_trans (Json.sizeOf_item ha hj) (Json.sizeOf_get? hg)

theorem sizeOf_nodesIn {j : Json} {c : Node} (h : c ∈ nodesIn j) : sizeOf c.json ≤ sizeOf j := by
  simp only [nodesIn] at h
  split at h
  · next xs ha =>
      obtain ⟨k, hk, hc⟩ := List.mem_filterMap.1 h
      rw [json_of_ofJson? hc]
      exact Nat.le_of_lt (Json.sizeOf_item ha hk)
  · exact Nat.le_of_eq (congrArg sizeOf (json_of_ofJson? (Option.mem_toList.1 h)))

theorem isPart_of_children {n c : Node} (h : c ∈ n.children) : IsPart c n := by
  simp only [children] at h
  obtain ⟨field, hf, hc⟩ := List.mem_flatMap.1 h
  cases ho : n.json.asObject? with
  | none => simp [ho] at hf
  | some fields =>
      simp only [ho, Option.getD_some] at hf
      exact Nat.lt_of_le_of_lt (sizeOf_nodesIn hc) (Json.sizeOf_field ho hf)

theorem isPart_of_slice? {n c : Node} (h : n.slice? = some c) : IsPart c n := by
  simp only [slice?, Option.map_eq_some_iff] at h
  obtain ⟨slice, hs, hc⟩ := h
  have hn : IsPart slice n := isPart_of_child? hs
  split at hc
  · next inner hi =>
      split at hc
      · exact hc ▸ Nat.lt_trans (isPart_of_child? hi) hn
      · exact hc ▸ hn
  · exact hc ▸ hn

theorem isPart_of_sliceElements {n c : Node} (h : c ∈ n.sliceElements) : IsPart c n := by
  simp only [sliceElements] at h
  split at h
  · next slice hs =>
      have hn : IsPart slice n := isPart_of_slice? hs
      split at h
      · exact Nat.lt_trans (isPart_of_nodes h) hn
      · exact List.mem_singleton.1 h ▸ hn
  · cases h

/-! ## Mapping over parts -/

/-- Maps over a field that is a node. -/
def mapChild {α : Type} (n : Node) (key : String) (f : (c : Node) → IsPart c n → α) : Option α :=
  match h : n.child? key with
  | some c => some (f c (isPart_of_child? h))
  | none => none

/-- Maps over the nodes of an array field. -/
def mapNodes {α : Type} (n : Node) (key : String) (f : (c : Node) → IsPart c n → α) : List α :=
  (n.nodes key).attach.map fun ⟨c, h⟩ => f c (isPart_of_nodes h)

/-- Maps over the nodes in all fields. -/
def mapChildren {α : Type} (n : Node) (f : (c : Node) → IsPart c n → α) : List α :=
  n.children.attach.map fun ⟨c, h⟩ => f c (isPart_of_children h)

/-- Maps over the index of a subscript. -/
def mapSlice {α : Type} (n : Node) (f : (c : Node) → IsPart c n → α) : Option α :=
  match h : n.slice? with
  | some c => some (f c (isPart_of_slice? h))
  | none => none

/-- Maps over the parts of the index of a subscript. -/
def mapSliceElements {α : Type} (n : Node) (f : (c : Node) → IsPart c n → α) : List α :=
  n.sliceElements.attach.map fun ⟨c, h⟩ => f c (isPart_of_sliceElements h)

/-! ## Positions -/

/-- A line number; line numbers are 32-bit words. -/
def line? (n : Node) (key : String) : Option Nat := (n.nat? key).map (· % Nat.pow 2 32)

/-- The first and last line of a node. -/
def lines? (n : Node) : Option (Nat × Nat) :=
  (n.line? "lineno").map fun first => (first, (n.line? "end_lineno").getD first)

/-- The byte at a column of a line; offsets are 64-bit words. -/
def offsetAt (text : List Char) (line column : Nat) : Nat :=
  (lineOffset text line + column) % Nat.pow 2 64

/-- The byte range that lines and columns delimit; without an end column the last line is part of
it as a whole. -/
def spanOfLines (n : Node) (file : String) (text : List Char) (first last : Nat) : Span :=
  let start := offsetAt text first ((n.nat? "col_offset").getD 0)
  let stop := match n.nat? "end_col_offset" with
    | some column => offsetAt text last column
    | none => lineOffset text (nextLine last)
  .bytes file start (stop - start)

/-- The byte range of a node, from its lines and columns. -/
def lineSpan? (n : Node) (file : String) (source : Option String) : Option Span :=
  match n.lines?, source with
  | some (first, last), some text => some (n.spanOfLines file text.toList first last)
  | _, _ => none

/-- The source position of a node: from its `src` attribute, or else from its lines and columns. -/
def span? (n : Node) (file : String) (source : Option String) : Option Span :=
  let range := match n.text? "src" with
    | some src => Span.ofAttribute? src [file] file
    | none => n.lineSpan? file source
  range.map fun span => { span with lines := n.lines? }

/-! ## Names and types -/

/-- An expression as it reads in source: names and attributes are spelled out, subscripts are
shortened, anything else is its type. -/
def chain (n : Node) : String :=
  match n.astType with
  | "Name" => (n.text? "id").getD ""
  | "Attribute" =>
      let last := (n.text? "attr").getD ""
      match (n.mapChild "value" fun c _ => chain c).getD "" with
      | "" => last
      | base => base ++ "." ++ last
  | "Subscript" => (n.mapChild "value" fun c _ => chain c).getD "" ++ "[...]"
  | "" => "expr"
  | other => other
termination_by sizeOf n.json

/-- The wrappers around a type that say how a variable is stored. -/
def storageWrappers : List String := ["public", "constant", "immutable", "transient", "indexed"]

end Node

/-- The types a module defines. -/
structure UserTypes where
  structs : List String
  interfaces : List String
deriving DecidableEq, Repr

namespace UserTypes

/-- The type of a name. -/
def named (types : UserTypes) (name : String) : Ty :=
  if types.structs.contains name then .struct name
  else if types.interfaces.contains name then .contract name
  else if name.isEmpty then .unknown
  else .elementary name

/-- The type of a subscripted name, by the types of the index parts and of the name itself. -/
def subscripted (name : Option String) (elements : List Ty) (base : Ty) (length : Option Nat) :
    Ty :=
  match name with
  | some "HashMap" =>
      match elements with
      | [key, value] => .mapping key value
      | _ => .unknown
  | some "DynArray" =>
      match elements with
      | element :: _ => .array element none
      | [] => .unknown
  | some "String" => .elementary "string"
  | some "Bytes" => .elementary "bytes"
  | _ => .array base length

/-- The type an annotation names; wrappers that say how a variable is stored mean nothing here. -/
def typeOf (types : UserTypes) (n : Node) : Ty :=
  match n.astType with
  | "Name" => types.named ((n.text? "id").getD "")
  | "Call" =>
      let wrapper := ((n.child? "func").bind (·.text? "id")).getD ""
      if Node.storageWrappers.contains wrapper then
        match n.mapNodes "args" fun c _ => types.typeOf c with
        | inner :: _ => inner
        | [] => .unknown
      else .unknown
  | "Subscript" =>
      match n.child? "value", n.mapChild "value" fun c _ => types.typeOf c with
      | some base, some baseTy =>
          subscripted (base.text? "id") (n.mapSliceElements fun c _ => types.typeOf c) baseTy
            (n.sliceElements.head?.bind (·.nat? "value"))
      | _, _ => .unknown
  | "Attribute" =>
      match n.text? "attr" with
      | some name => .contract name
      | none => .unknown
  | _ => .unknown
termination_by sizeOf n.json

/-- The type of an optional annotation. -/
def typeOf? (types : UserTypes) (n : Option Node) : Ty :=
  match n with
  | some n => types.typeOf n
  | none => .unknown

end UserTypes

end ContractCalls.Vyper
