/-
# Parts of the legacy image

The legacy dialect finds parts by their positions.  Where a node fits the
grammar, the parts that are found in its image are the images of the parts that
its fields hold: behind parts that are always there a position is fixed, the
head of a loop marks what is missing, and a list of declarations has its gaps
in an attribute.
-/
import ContractCalls.Proofs.Solidity.Legacy.Image

namespace ContractCalls.Solidity

open Role

/-- The position of the part under a key, if only parts that are always there come before it. -/
def Role.index? (key : String) : List Role → Option Nat
  | [] => none
  | r :: rest =>
      if r.key = key then
        if r.shape = .leading ∨ r.shape = .single ∧ rest.isEmpty then some 0 else none
      else if r.shape = .leading then (Role.index? key rest).map (· + 1)
      else none

namespace Node

/-- The parts of a node in all its roles. -/
def parts (n : Node) : List Node := (roles n.nodeType).flatMap (·.parts n)

/-- The parts that others follow are there, and every part is of a kind its role admits. -/
def Fits (n : Node) : Prop :=
  ∀ r ∈ roles n.nodeType, (r.shape = .leading → (n.child? r.key).isSome) ∧
    ∀ c ∈ r.parts n, r.admits c.nodeType

instance (n : Node) : Decidable n.Fits :=
  inferInstanceAs (Decidable (∀ r ∈ roles n.nodeType,
    (r.shape = .leading → (n.child? r.key).isSome) ∧ ∀ c ∈ r.parts n, r.admits c.nodeType))

variable {n c : Node}

theorem isPlain_of_slot (hn : n.IsPlain) {j : Json} (h : n.slot j = some c) : c.IsPlain := by
  obtain ⟨fields, rfl⟩ := hn
  unfold slot at h
  split at h
  · cases j with
    | object inner => exact ⟨inner, (Option.some.inj h).symm⟩
    | _ => contradiction
  · cases h

theorem isPlain_of_child? (hn : n.IsPlain) {key : String} (h : n.child? key = some c) :
    c.IsPlain := by
  obtain ⟨j, -, hj⟩ := Option.bind_eq_some_iff.1 h
  exact isPlain_of_slot hn hj

theorem isPlain_of_nodes (hn : n.IsPlain) {key : String} (h : c ∈ n.nodes key) : c.IsPlain := by
  obtain ⟨j, -, hj⟩ := List.mem_filterMap.1 h
  exact isPlain_of_slot hn hj

theorem isPlain_of_parts (hn : n.IsPlain) {r : Role} (h : c ∈ r.parts n) : c.IsPlain := by
  unfold Role.parts at h
  split at h
  · exact isPlain_of_child? hn (Option.mem_toList.1 h)
  · exact isPlain_of_child? hn (Option.mem_toList.1 h)
  · exact isPlain_of_nodes hn h
  · exact isPlain_of_nodes hn h

/-! ## Children -/

/-- The roles of the node type leave no gaps among the children. -/
def Gapless (nodeType : String) : Prop := ∀ r ∈ roles nodeType, r.shape ≠ .sparse

instance (nodeType : String) : Decidable (Gapless nodeType) :=
  inferInstanceAs (Decidable (∀ r ∈ roles nodeType, r.shape ≠ .sparse))

theorem isPlain_of_mem_parts (hn : n.IsPlain) (h : c ∈ n.parts) : c.IsPlain := by
  obtain ⟨r, -, hc⟩ := List.mem_flatMap.1 h
  exact isPlain_of_parts hn hc

theorem items_eq_parts (hn : n.IsPlain) (hgapless : Gapless n.nodeType) :
    n.legacy.items "children" = n.parts.map fun c => legacyOf c.json := by
  rw [items_legacy hn, parts, List.map_flatMap]
  refine List.flatMap_congr fun r hr => ?_
  have hshape := hgapless r hr
  unfold placed
  split
  · contradiction
  · rfl

/-- The parts that are no comments. -/
def read (n : Node) : List Node := n.parts.filter fun c => !c.is comment

/-- The children of the image are the images of the parts, comments passed over. -/
theorem children_legacy (hn : n.IsPlain) (hgapless : Gapless n.nodeType) :
    n.legacy.children = n.read.map legacy := by
  have hpart : n.parts.map (fun c => n.legacy.part (legacyOf c.json)) = n.parts.map legacy := rfl
  rw [children, items_eq_parts hn hgapless, List.map_map, Function.comp_def, hpart, List.filter_map,
    read]
  congr 1
  refine List.filter_congr fun c hc => ?_
  simp only [Function.comp_apply, is_legacy (isPlain_of_mem_parts hn hc), comment]

theorem slots_legacy (hn : n.IsPlain) (hgapless : Gapless n.nodeType) :
    n.legacy.slots = n.read.map fun c => some c.legacy := by
  have hslot : (n.parts.map fun c => legacyOf c.json).map n.legacy.slot =
      n.parts.map fun c => some c.legacy := by
    rw [List.map_map]
    refine List.map_congr_left fun c hc => ?_
    obtain ⟨fields, rfl⟩ := isPlain_of_mem_parts hn hc
    rw [Function.comp_apply, slot, isObject_legacyOf]
    rfl
  rw [slots, optionalNodes, items_eq_parts hn hgapless, hslot, List.filter_map, read]
  congr 1
  refine List.filter_congr fun c hc => ?_
  simp only [Function.comp_apply, is_legacy (isPlain_of_mem_parts hn hc), comment]

/-- Where no role is for comments, all parts are read. -/
theorem read_eq_parts (hfits : n.Fits) (h : ∀ r ∈ roles n.nodeType, r.admits comment = false) :
    n.read = n.parts := by
  refine List.filter_eq_self.2 fun c hc => ?_
  obtain ⟨r, hr, hcr⟩ := List.mem_flatMap.1 hc
  have hadmits := (hfits r hr).2 c hcr
  rw [Bool.not_eq_true', is]
  refine beq_false_of_ne fun hcomment => ?_
  rw [hcomment, h r hr] at hadmits
  cases hadmits

/-! ## Positions -/

theorem parts_leading {r : Role} (hshape : r.shape = .leading) (hpart : (n.child? r.key).isSome) :
    ∃ c, n.child? r.key = some c ∧ r.parts n = [c] := by
  obtain ⟨c, hc⟩ := Option.isSome_iff_exists.1 hpart
  refine ⟨c, hc, ?_⟩
  simp [Role.parts, hshape, hc]

/-- Behind parts that are always there, a part stands at its position. -/
theorem getElem?_flatMap_parts {rs : List Role} {key : String} {i : Nat}
    (hpresent : ∀ r ∈ rs, r.shape = .leading → (n.child? r.key).isSome)
    (h : Role.index? key rs = some i) : (rs.flatMap (·.parts n))[i]? = n.child? key := by
  induction rs generalizing i with
  | nil => cases h
  | cons r rest ih =>
      rw [List.flatMap_cons]
      have hr := hpresent r List.mem_cons_self
      unfold Role.index? at h
      split at h
      · next hkey =>
          split at h
          · next hshape =>
              cases h
              rw [← hkey]
              rcases hshape with hleading | ⟨hsingle, hlast⟩
              · obtain ⟨c, hc, hparts⟩ := parts_leading hleading (hr hleading)
                rw [hparts, hc]
                rfl
              · obtain rfl := List.isEmpty_iff.1 hlast
                rw [Role.parts, hsingle, List.flatMap_nil, List.append_nil]
                cases n.child? r.key <;> rfl
          · cases h
      · split at h
        · next hleading =>
            obtain ⟨j, hj, rfl⟩ := Option.map_eq_some_iff.1 h
            obtain ⟨c, hc, hparts⟩ := parts_leading hleading (hr hleading)
            rw [hparts, List.singleton_append, List.getElem?_cons_succ]
            exact ih (fun r hr => hpresent r (List.mem_cons_of_mem _ hr)) hj
        · cases h

/-- No role of the node type is for comments, and none leaves gaps. -/
def isPlainKind (nodeType : String) : Bool :=
  (roles nodeType).all fun r => !r.admits comment && r.shape != .sparse

theorem children_of_isPlainKind (hn : n.IsPlain) (hfits : n.Fits) (h : isPlainKind n.nodeType) :
    n.legacy.children = n.parts.map legacy ∧ n.legacy.slots = n.parts.map fun c => some c.legacy := by
  have hrole (r : Role) (hr : r ∈ roles n.nodeType) : r.admits comment = false ∧ r.shape ≠ .sparse := by
    have hall := List.all_eq_true.1 h r hr
    simpa using hall
  have hgapless : Gapless n.nodeType := fun r hr => (hrole r hr).2
  rw [children_legacy hn hgapless, slots_legacy hn hgapless,
    read_eq_parts hfits fun r hr => (hrole r hr).1]
  exact ⟨rfl, rfl⟩

/-- The legacy dialect finds the part at the position that its role gives it. -/
def isPositional (nodeType key : String) : Bool :=
  nodeType != "ForStatement" && isPlainKind nodeType && (position? nodeType key).isSome &&
    position? nodeType key == Role.index? key (roles nodeType)

theorem field?_eq_child? (hn : n.IsPlain) (key : String) : n.field? key = n.child? key := by
  obtain ⟨fields, rfl⟩ := hn
  rfl

theorem legacyField?_of_isPositional {key : String} (h : isPositional n.nodeType key) :
    n.legacyField? key = (position? n.nodeType key).bind fun i => n.children[i]? := by
  unfold legacyField?
  split
  case h_6 hkind =>
    rw [hkind] at h
    cases h
  case h_7 => rfl
  all_goals
    rename_i hkind
    rw [hkind] at h
    exact absurd h (by decide)

theorem field?_legacy (hn : n.IsPlain) (hfits : n.Fits) {kind key : String} (hkind : n.nodeType = kind)
    (h : isPositional kind key) : n.legacy.field? key = (n.field? key).map legacy := by
  rw [← hkind] at h
  have hlegacy : isPositional n.legacy.nodeType key := by rwa [nodeType_legacy hn]
  have hparts := h
  unfold isPositional at hparts
  simp only [Bool.and_eq_true, beq_iff_eq] at hparts
  obtain ⟨⟨⟨-, hplain⟩, hsome⟩, hindex⟩ := hparts
  obtain ⟨i, hi⟩ := Option.isSome_iff_exists.1 hsome
  show n.legacy.legacyField? key = _
  rw [legacyField?_of_isPositional hlegacy, nodeType_legacy hn, hi, Option.bind_some,
    (children_of_isPlainKind hn hfits hplain).1, List.getElem?_map, field?_eq_child? hn]
  congr 1
  exact getElem?_flatMap_parts (fun r hr => (hfits r hr).1) (hindex ▸ hi)

/-! ## Lists -/

theorem fields_eq_nodes (hn : n.IsPlain) (key : String) : n.fields key = n.nodes key := by
  obtain ⟨fields, rfl⟩ := hn
  show (List.map _ _).filterMap id = _
  rw [List.filterMap_map]
  rfl

theorem length_flatMap_parts {before : List Role} (hbefore : ∀ b ∈ before, b.shape = .leading)
    (hpresent : ∀ b ∈ before, b.shape = .leading → (n.child? b.key).isSome) :
    (before.flatMap (·.parts n)).length = before.length := by
  induction before with
  | nil => rfl
  | cons b rest ih =>
      have hleading := hbefore b List.mem_cons_self
      obtain ⟨c, -, hparts⟩ := parts_leading hleading (hpresent b List.mem_cons_self hleading)
      rw [List.flatMap_cons, hparts, List.length_append,
        ih (fun r hr => hbefore r (List.mem_cons_of_mem _ hr))
          (fun r hr => hpresent r (List.mem_cons_of_mem _ hr))]
      simp [Nat.add_comm]

/-- The lists of parts, each with the keys of the parts in front of it. -/
def lists : List (String × List String × String) :=
  [("Block", [], "statements"), ("UncheckedBlock", [], "statements"),
    ("ParameterList", [], "parameters"), ("FunctionCall", ["expression"], "arguments"),
    ("FunctionCallOptions", ["expression"], "options"),
    ("TryStatement", ["externalCall"], "clauses")]

theorem roles_of_mem_lists {kind key : String} {before : List String}
    (h : (kind, before, key) ∈ lists) :
    ∃ r, roles kind = before.map (of .leading) ++ [r] ∧ isPlainKind kind ∧ r.isRead ∧
      ∀ n : Node, r.parts n = n.nodes key := by
  simp only [lists, List.mem_cons, Prod.mk.injEq, List.not_mem_nil, or_false] at h
  rcases h with ⟨rfl, rfl, rfl⟩ | ⟨rfl, rfl, rfl⟩ | ⟨rfl, rfl, rfl⟩ | ⟨rfl, rfl, rfl⟩ |
    ⟨rfl, rfl, rfl⟩ | ⟨rfl, rfl, rfl⟩ <;> exact ⟨_, rfl, by decide, rfl, fun _ => rfl⟩

theorem legacyFields_of_mem_lists {kind key : String} {before : List String}
    (h : (kind, before, key) ∈ lists) (hkind : n.nodeType = kind) :
    n.legacyFields key = n.slots.drop before.length := by
  simp only [lists, List.mem_cons, Prod.mk.injEq, List.not_mem_nil, or_false] at h
  unfold legacyFields
  rcases h with ⟨rfl, rfl, rfl⟩ | ⟨rfl, rfl, rfl⟩ | ⟨rfl, rfl, rfl⟩ | ⟨rfl, rfl, rfl⟩ |
    ⟨rfl, rfl, rfl⟩ | ⟨rfl, rfl, rfl⟩ <;> rw [hkind] <;> rfl

/-- The node type has a list of parts under the key. -/
def hasList (nodeType key : String) : Bool :=
  lists.any fun (kind, _, listKey) => kind == nodeType && listKey == key

theorem mem_lists_of_hasList {kind key : String} (h : hasList kind key) :
    ∃ before, (kind, before, key) ∈ lists := by
  obtain ⟨⟨_, before, _⟩, hmem, hkeys⟩ := List.any_eq_true.1 h
  simp only [Bool.and_eq_true, beq_iff_eq] at hkeys
  obtain ⟨rfl, rfl⟩ := hkeys
  exact ⟨before, hmem⟩

/-- A list behind parts that are always there. -/
theorem fields_legacy (hn : n.IsPlain) (hfits : n.Fits) {kind key : String}
    (hkind : n.nodeType = kind) (hlist : hasList kind key) :
    n.legacy.fields key = (n.fields key).map legacy := by
  obtain ⟨before, h⟩ := mem_lists_of_hasList hlist
  obtain ⟨r, hroles, hplain, -, hnodes⟩ := roles_of_mem_lists h
  rw [← hkind] at hroles hplain
  have hlegacy := legacyFields_of_mem_lists h ((nodeType_legacy hn).trans hkind)
  have hleading (b : Role) (hb : b ∈ before.map (of .leading)) : b.shape = .leading := by
    obtain ⟨key, -, rfl⟩ := List.mem_map.1 hb
    rfl
  have hpresent (b : Role) (hb : b ∈ before.map (of .leading)) :
      b.shape = .leading → (n.child? b.key).isSome :=
    (hfits b (by rw [hroles]; exact List.mem_append_left _ hb)).1
  have hparts : n.parts = (before.map (of .leading)).flatMap (·.parts n) ++ n.nodes key := by
    rw [parts, hroles, List.flatMap_append, List.flatMap_singleton, hnodes]
  have hlength : ((before.map (of .leading)).flatMap (·.parts n)).length = before.length := by
    rw [length_flatMap_parts hleading hpresent, List.length_map]
  show (n.legacy.legacyFields key).filterMap id = _
  rw [hlegacy, (children_of_isPlainKind hn hfits hplain).2, hparts, ← List.map_drop, ← hlength,
    List.drop_left, fields_eq_nodes hn, List.filterMap_map]
  exact congrFun (List.filterMap_eq_map (f := legacy)) _

/-- The components of a tuple keep their gaps. -/
theorem optionalFields_legacy_tuple (hn : n.IsPlain) (hfits : n.Fits)
    (hkind : n.nodeType = "TupleExpression") :
    n.legacy.optionalFields "components" =
      (n.optionalFields "components").map (Option.map legacy) := by
  have hroles : roles n.nodeType = [of .sparse "components"] := by rw [hkind]; rfl
  have hitems : n.legacy.items "children" = (n.items "components").map legacyOf := by
    rw [items_legacy hn, hroles, List.flatMap_singleton]
    rfl
  have hslot (j : Json) : n.legacy.slot (legacyOf j) = (n.slot j).map legacy := by
    obtain ⟨fields, rfl⟩ := hn
    unfold slot
    rw [isObject_legacyOf]
    split <;> rfl
  have hoptional : n.legacy.optionalNodes "children" =
      (n.optionalNodes "components").map (Option.map legacy) := by
    rw [optionalNodes, hitems, optionalNodes, List.map_map, List.map_map]
    exact List.map_congr_left fun j _ => hslot j
  have hcompact : n.optionalFields "components" = n.optionalNodes "components" := by
    obtain ⟨fields, rfl⟩ := hn
    rfl
  have hlegacy : n.legacy.optionalFields "components" = n.legacy.slots := by
    show n.legacy.legacyFields "components" = _
    unfold legacyFields
    rw [nodeType_legacy hn, hkind]
    rfl
  rw [hlegacy, slots, hoptional, hcompact]
  refine List.filter_eq_self.2 fun c hc => ?_
  obtain ⟨d, hd, rfl⟩ := List.mem_map.1 hc
  cases d with
  | none => rfl
  | some d =>
      obtain ⟨j, hj, hs⟩ := List.mem_map.1 hd
      have hmem : d ∈ (of .sparse "components").parts n := List.mem_filterMap.2 ⟨j, hj, hs⟩
      have hadmits := (hfits _ (by rw [hroles]; exact List.mem_singleton_self _)).2 d hmem
      show (!d.legacy.is "StructuredDocumentation") = true
      rw [is_legacy (isPlain_of_parts hn hmem)]
      exact hadmits

theorem parenthesized?_legacy (hn : n.IsPlain) (hfits : n.Fits) :
    n.legacy.parenthesized? = n.parenthesized?.map legacy := by
  unfold parenthesized?
  rw [is_legacy hn]
  split
  · next h =>
      rw [optionalFields_legacy_tuple hn hfits (eq_of_beq h)]
      rcases n.optionalFields "components" with _ | ⟨_ | _, _ | ⟨_, _⟩⟩ <;> rfl
  · rfl

/-- A range that has no start has its end in the place of it: the bounds are the same. -/
theorem bounds_legacy (hn : n.IsPlain) (hfits : n.Fits) (hkind : n.nodeType = "IndexRangeAccess") :
    (n.legacy.field? "startExpression").toList ++ (n.legacy.field? "endExpression").toList =
      ((n.field? "startExpression").toList ++ (n.field? "endExpression").toList).map legacy := by
  have hplain : isPlainKind n.nodeType := by rw [hkind]; decide
  have hstart : n.legacy.field? "startExpression" = n.legacy.children[1]? := by
    show n.legacy.legacyField? "startExpression" = _
    unfold legacyField?
    rw [nodeType_legacy hn, hkind]
    rfl
  have hend : n.legacy.field? "endExpression" = n.legacy.children[2]? := by
    show n.legacy.legacyField? "endExpression" = _
    unfold legacyField?
    rw [nodeType_legacy hn, hkind]
    rfl
  have hroles : roles n.nodeType =
      [of .leading "baseExpression", of .single "startExpression", of .single "endExpression"] := by
    rw [hkind]
    rfl
  have hbase := (hfits (of .leading "baseExpression") (by rw [hroles]; exact .head _)).1 rfl
  obtain ⟨base, -, hbase⟩ := parts_leading rfl hbase
  have hparts : n.parts =
      base :: ((n.child? "startExpression").toList ++ (n.child? "endExpression").toList) := by
    rw [parts, hroles, List.flatMap_cons, hbase]
    simp [of, Role.parts]
  rw [hstart, hend, (children_of_isPlainKind hn hfits hplain).1, hparts, field?_eq_child? hn,
    field?_eq_child? hn]
  cases n.child? "startExpression" <;> cases n.child? "endExpression" <;> rfl

/-! ## Last and first parts -/

/-- A part of a kind that no part before it has is the last child, if it is there. -/
theorem getLast?_legacy (hn : n.IsPlain) (hfits : n.Fits) {before : List Role} {r : Role}
    {p : String → Bool} (hroles : roles n.nodeType = before ++ [r]) (hgapless : Gapless n.nodeType)
    (hshape : r.shape = .single) (hbefore : ∀ b ∈ before, ∀ kind, b.admits kind → p kind = false)
    (hr : ∀ kind, r.admits kind → p kind ∧ kind ≠ comment) :
    n.legacy.children.getLast?.filter (fun c => p c.nodeType) = (n.child? r.key).map legacy := by
  have hmem (b : Role) (hb : b ∈ before) : b ∈ roles n.nodeType := by
    rw [hroles]
    exact List.mem_append_left _ hb
  have hlast : r ∈ roles n.nodeType := by simp [hroles]
  have hpart : r.parts n = (n.child? r.key).toList := by simp [Role.parts, hshape]
  have hread : n.read =
      (before.flatMap (·.parts n)).filter (fun c => !c.is comment) ++ (n.child? r.key).toList := by
    rw [read, parts, hroles, List.flatMap_append, List.flatMap_singleton, List.filter_append, hpart]
    congr 1
    refine List.filter_eq_self.2 fun c hc => ?_
    have hadmits := (hfits r hlast).2 c (hpart ▸ hc)
    simpa [is] using (hr c.nodeType hadmits).2
  rw [children_legacy hn hgapless, hread]
  cases hc : n.child? r.key with
  | some c =>
      have hcr : c ∈ r.parts n := by simp [hpart, hc]
      have hp := (hr _ ((hfits r hlast).2 c hcr)).1
      simp [nodeType_legacy (isPlain_of_parts hn hcr), hp]
  | none =>
      rw [Option.toList_none, List.append_nil, List.getLast?_map, Option.map_none]
      cases hx : ((before.flatMap (·.parts n)).filter fun c => !c.is comment).getLast? with
      | none => rfl
      | some c =>
          obtain ⟨b, hb, hcb⟩ := List.mem_flatMap.1 (List.mem_filter.1 (List.mem_of_getLast? hx)).1
          have hp := hbefore b hb _ ((hfits b (hmem b hb)).2 c hcb)
          simp [nodeType_legacy (isPlain_of_parts hn hcb), hp]

theorem field?_legacy_body (hn : n.IsPlain) (hfits : n.Fits)
    (hkind : n.nodeType = "FunctionDefinition" ∨ n.nodeType = "ModifierDefinition") :
    n.legacy.field? "body" = (n.field? "body").map legacy := by
  have hroles : roles n.nodeType =
      [aside (only comment .single "documentation"),
        aside (only "OverrideSpecifier" .single "overrides"),
        only "ParameterList" .leading "parameters", only "ParameterList" .single "returnParameters",
        aside (only "ModifierInvocation" .list "modifiers")] ++ [only "Block" .single "body"] := by
    rcases hkind with h | h <;> rw [h] <;> rfl
  have hlegacy : n.legacy.field? "body" = n.legacy.children.getLast?.filter (·.is "Block") := by
    show n.legacy.legacyField? "body" = _
    unfold legacyField?
    rw [nodeType_legacy hn]
    rcases hkind with h | h <;> rw [h] <;> rfl
  rw [hlegacy, field?_eq_child? hn]
  refine getLast?_legacy hn hfits (p := (· == "Block")) hroles ?_ rfl ?_ ?_
  · unfold Gapless
    rw [hroles]
    decide
  · intro b hb kind hadmits
    simp only [List.mem_cons, List.not_mem_nil, or_false] at hb
    rcases hb with rfl | rfl | rfl | rfl | rfl <;>
      · obtain rfl := eq_of_beq hadmits
        rfl
  · intro kind hadmits
    obtain rfl := eq_of_beq hadmits
    exact ⟨rfl, by decide⟩

theorem field?_legacy_block (hn : n.IsPlain) (hfits : n.Fits) (hkind : n.nodeType = "TryCatchClause") :
    n.legacy.field? "block" = (n.field? "block").map legacy := by
  have hroles : roles n.nodeType =
      [only "ParameterList" .single "parameters"] ++ [only "Block" .single "block"] := by
    rw [hkind]
    rfl
  have hlegacy : n.legacy.field? "block" = n.legacy.children.getLast?.filter (·.is "Block") := by
    show n.legacy.legacyField? "block" = _
    unfold legacyField?
    rw [nodeType_legacy hn, hkind]
    rfl
  rw [hlegacy, field?_eq_child? hn]
  refine getLast?_legacy hn hfits (p := (· == "Block")) hroles ?_ rfl ?_ ?_
  · rw [hkind]
    decide
  · intro b hb kind hadmits
    obtain rfl := List.mem_singleton.1 hb
    obtain rfl := eq_of_beq hadmits
    rfl
  · intro kind hadmits
    obtain rfl := eq_of_beq hadmits
    exact ⟨rfl, by decide⟩

theorem field?_legacy_initialValue (hn : n.IsPlain) (hfits : n.Fits)
    (hkind : n.nodeType = "VariableDeclarationStatement") :
    n.legacy.field? "initialValue" = (n.field? "initialValue").map legacy := by
  have hroles : roles n.nodeType =
      [only "VariableDeclaration" .list "declarations"] ++ [⟨"initialValue", .single,
        fun kind => kind != comment && kind != "VariableDeclaration", true⟩] := by
    rw [hkind]
    rfl
  have hlegacy : n.legacy.field? "initialValue" =
      n.legacy.children.getLast?.filter fun c => !c.is "VariableDeclaration" := by
    show n.legacy.legacyField? "initialValue" = _
    unfold legacyField?
    rw [nodeType_legacy hn, hkind]
    rfl
  rw [hlegacy, field?_eq_child? hn]
  refine getLast?_legacy hn hfits (p := (· != "VariableDeclaration")) hroles ?_ rfl ?_ ?_
  · rw [hkind]
    decide
  · intro b hb kind hadmits
    obtain rfl := List.mem_singleton.1 hb
    obtain rfl := eq_of_beq hadmits
    rfl
  · intro kind hadmits
    simp only [Bool.and_eq_true, bne_iff_ne, ne_eq] at hadmits ⊢
    exact ⟨hadmits.2, hadmits.1⟩

theorem field?_legacy_parameters (hn : n.IsPlain) (hfits : n.Fits)
    (hkind : n.nodeType = "TryCatchClause") :
    n.legacy.field? "parameters" = (n.field? "parameters").map legacy := by
  have hlegacy : n.legacy.field? "parameters" =
      n.legacy.children.head?.filter (·.is "ParameterList") := by
    show n.legacy.legacyField? "parameters" = _
    unfold legacyField?
    rw [nodeType_legacy hn, hkind]
    rfl
  have hplain : isPlainKind n.nodeType := by rw [hkind]; decide
  have hparts : n.parts = (n.child? "parameters").toList ++ (n.child? "block").toList := by
    rw [parts, hkind]
    exact congrArg (_ ++ ·) (List.append_nil _)
  have hadmits (r : Role) (hr : r ∈ roles "TryCatchClause") (c : Node) (hc : c ∈ r.parts n) :
      r.admits c.nodeType := (hfits r (hkind ▸ hr)).2 c hc
  rw [hlegacy, field?_eq_child? hn, (children_of_isPlainKind hn hfits hplain).1, hparts]
  cases hc : n.child? "parameters" with
  | some c =>
      have hlist : c.nodeType = "ParameterList" :=
        eq_of_beq (hadmits _ List.mem_cons_self c (by simp [Role.parts, only, hc]))
      simp [is, nodeType_legacy (isPlain_of_child? hn hc), hlist]
  | none =>
      cases hb : n.child? "block" with
      | none => rfl
      | some b =>
          have hblock : b.nodeType = "Block" :=
            eq_of_beq (hadmits _ (List.mem_cons_of_mem _ List.mem_cons_self) b
              (by simp [Role.parts, only, hb]))
          simp [is, nodeType_legacy (isPlain_of_child? hn hb), hblock]

/-! ## Loops -/

theorem find?_map_null (key : String) (keys : List String) :
    Json.find? key (keys.map (·, .null)) = if key ∈ keys then some .null else none := by
  induction keys with
  | nil => rfl
  | cons k rest ih =>
      rw [List.map_cons, Json.find?, ih]
      by_cases h : k = key
      · simp [h]
      · simp [h, Ne.symm h]

theorem marksAbsent_legacy (hn : n.IsPlain) (hkind : n.nodeType = "ForStatement") {key : String}
    (hkey : key ∈ headKeys) : n.legacy.marksAbsent key = (n.child? key).isNone := by
  have hattribute : (n.legacy.json.get? "attributes").bind (·.get? key) =
      (Json.find? key n.renamed).or (if n.isMoved key then n.json.get? key else none) := by
    rw [(get?_legacy hn).2.1, Option.bind_some, get?_legacyAttributes hn]
  have hmark : Json.find? key n.renamed = if (n.child? key).isNone then some .null else none := by
    have htype : "type" ≠ key := by
      rintro rfl
      exact absurd hkey (by decide)
    have hrenamed : n.renamed = ("type", .ofOption .string n.typeText?) ::
        (headKeys.filter fun key => (n.child? key).isNone).map (·, .null) := by
      simp only [renamed, hkind]
    rw [hrenamed, Json.find?, if_neg htype, find?_map_null]
    simp [hkey]
  rw [marksAbsent, hattribute, hmark]
  cases hc : n.child? key with
  | none => rfl
  | some c =>
      have hmoved : n.isMoved key = false := by
        obtain ⟨j, hj, hslot⟩ := Option.bind_eq_some_iff.1 hc
        have hrole : ((roles n.nodeType).any (·.key == key)) = true := by
          rw [hkind]
          simp only [headKeys, List.mem_cons, List.not_mem_nil, or_false] at hkey
          rcases hkey with rfl | rfl | rfl <;> rfl
        have hparts : n.holdsParts key = true := by
          rw [holdsParts, hrole, hj]
          cases j with
          | object => rfl
          | _ => cases hslot
        rw [isMoved, hparts, Bool.not_true, Bool.and_false]
      simp [hmoved]

/-- The parts of a head that are there are found in order. -/
theorem headPart?_legacy {key : String} {keys : List String}
    (hmarks : ∀ k ∈ keys, n.legacy.marksAbsent k = (n.child? k).isNone) (hkey : key ∈ keys) :
    n.legacy.headPart? key keys ((keys.flatMap fun k => (n.child? k).toList).map legacy) =
      (n.child? key).map legacy := by
  induction keys with
  | nil => cases hkey
  | cons k rest ih =>
      have hk := hmarks k List.mem_cons_self
      have hrest (k : String) (hk : k ∈ rest) := hmarks k (List.mem_cons_of_mem _ hk)
      rw [headPart?, hk, List.flatMap_cons]
      by_cases heq : k = key
      · subst heq
        cases hc : n.child? k with
        | none => simp
        | some c => simp
      · have hmem : key ∈ rest := (List.mem_cons.1 hkey).resolve_left (Ne.symm heq)
        cases hc : n.child? k with
        | none => simpa [heq] using ih hrest hmem
        | some c => simpa [heq] using ih hrest hmem

theorem forPart_legacy (hn : n.IsPlain) (hfits : n.Fits) (hkind : n.nodeType = "ForStatement")
    {key : String} (hkey : key = "body" ∨ key ∈ headKeys) :
    n.legacy.field? key = (n.field? key).map legacy := by
  have hlegacy : n.legacy.field? key = n.legacy.forPart? key := by
    show n.legacy.legacyField? key = _
    unfold legacyField?
    rw [nodeType_legacy hn, hkind]
    rfl
  have hplain : isPlainKind n.nodeType := by rw [hkind]; decide
  have hroles : roles n.nodeType = headKeys.map (of .single) ++ [of .leading "body"] := by
    rw [hkind]
    rfl
  have hbody : (n.child? "body").isSome := (hfits (of .leading "body") (by simp [hroles])).1 rfl
  obtain ⟨body, hbody⟩ := Option.isSome_iff_exists.1 hbody
  have hparts : n.parts = (headKeys.flatMap fun k => (n.child? k).toList) ++ [body] := by
    rw [parts, hroles]
    simp [of, Role.parts, headKeys, hbody]
  rw [hlegacy, forPart?, (children_of_isPlainKind hn hfits hplain).1, hparts, List.map_append,
    List.map_singleton, List.getLast?_append, List.dropLast_concat, field?_eq_child? hn]
  split
  · next h =>
      rw [h, hbody]
      rfl
  · next h =>
      exact headPart?_legacy (fun k hk => marksAbsent_legacy hn hkind hk) (hkey.resolve_left h)

/-! ## Declarations -/

theorem spread_legacy (declarations : List (Option Node)) :
    spread (declarations.map declarationMark) ((declarations.filterMap id).map legacy) =
      declarations.map (Option.map legacy) := by
  induction declarations with
  | nil => rfl
  | cons d rest ih =>
      cases d with
      | none => exact congrArg (none :: ·) ih
      | some d => exact congrArg (some d.legacy :: ·) ih

theorem optionalFields_legacy_declarations (hn : n.IsPlain) (hfits : n.Fits)
    (hkind : n.nodeType = "VariableDeclarationStatement") :
    n.legacy.optionalFields "declarations" =
      (n.optionalFields "declarations").map (Option.map legacy) := by
  have hcompact : n.optionalFields "declarations" = n.optionalNodes "declarations" := by
    obtain ⟨fields, rfl⟩ := hn
    rfl
  have hlegacy : n.legacy.optionalFields "declarations" = n.legacy.legacyDeclarations := by
    show n.legacy.legacyFields "declarations" = _
    unfold legacyFields
    rw [nodeType_legacy hn, hkind]
    rfl
  have hplain : isPlainKind n.nodeType := by rw [hkind]; decide
  have hassignments : n.legacy.attribute? "assignments" =
      some (.array ((n.optionalNodes "declarations").map declarationMark)) := by
    rw [attribute?_legacy hn]
    simp [renamed, hkind, Json.find?, Json.isNull]
  have hdeclarations : (n.legacy.slots.filterMap id).filter (·.is "VariableDeclaration") =
      ((n.optionalNodes "declarations").filterMap id).map legacy := by
    have hparts : n.parts = n.nodes "declarations" ++ (n.child? "initialValue").toList := by
      rw [parts, hkind]
      exact congrArg (_ ++ ·) (List.append_nil _)
    have hroles (r : Role) (hr : r ∈ roles "VariableDeclarationStatement") (c : Node)
        (hc : c ∈ r.parts n) : r.admits c.nodeType := (hfits r (hkind ▸ hr)).2 c hc
    have hdeclared (c : Node) (hc : c ∈ n.nodes "declarations") :
        c.legacy.is "VariableDeclaration" = true := by
      rw [is_legacy (isPlain_of_nodes hn hc)]
      exact hroles _ List.mem_cons_self c hc
    have hinitial (c : Node) (hc : c ∈ (n.child? "initialValue").toList) :
        c.legacy.is "VariableDeclaration" = false := by
      rw [is_legacy (isPlain_of_child? hn (Option.mem_toList.1 hc))]
      have hadmits := hroles _ (List.mem_cons_of_mem _ List.mem_cons_self) c hc
      simpa [is] using ((Bool.and_eq_true _ _).mp hadmits).2
    have hnodes : (n.optionalNodes "declarations").filterMap id = n.nodes "declarations" := by
      rw [optionalNodes, List.filterMap_map]
      rfl
    have hslots : n.legacy.slots.filterMap id = n.parts.map legacy := by
      rw [(children_of_isPlainKind hn hfits hplain).2, List.filterMap_map]
      exact congrFun (List.filterMap_eq_map (f := legacy)) _
    rw [hslots, hparts, List.map_append, List.filter_append, hnodes]
    rw [List.filter_eq_self.2, List.filter_eq_nil_iff.2, List.append_nil]
    · simpa using hinitial
    · simpa using hdeclared
  rw [hlegacy, legacyDeclarations, hassignments, hdeclarations, hcompact]
  exact spread_legacy _

/-! ## Parameters -/

theorem filter_parts_of_not_admits (hfits : n.Fits) {r : Role} (hr : r ∈ roles n.nodeType)
    {kind : String} (h : r.admits kind = false) : (r.parts n).filter (·.is kind) = [] := by
  refine List.filter_eq_nil_iff.2 fun c hc hkind => ?_
  have hadmits := (hfits r hr).2 c hc
  rw [eq_of_beq hkind, h] at hadmits
  cases hadmits

theorem filter_parts_only (hfits : n.Fits) {kind key : String} {shape : Shape}
    (hr : only kind shape key ∈ roles n.nodeType) :
    ((only kind shape key).parts n).filter (·.is kind) = (only kind shape key).parts n :=
  List.filter_eq_self.2 fun c hc => (hfits _ hr).2 c hc

/-- The parameter lists of a definition are those of parameters and return parameters. -/
theorem filter_children_legacy (hn : n.IsPlain) (hfits : n.Fits)
    (hkind : n.nodeType = "FunctionDefinition" ∨ n.nodeType = "ModifierDefinition") :
    n.legacy.children.filter (·.is "ParameterList") =
      ((n.child? "parameters").toList ++ (n.child? "returnParameters").toList).map legacy := by
  have hroles : roles n.nodeType =
      [aside (only comment .single "documentation"),
        aside (only "OverrideSpecifier" .single "overrides"),
        only "ParameterList" .leading "parameters", only "ParameterList" .single "returnParameters",
        aside (only "ModifierInvocation" .list "modifiers"), only "Block" .single "body"] := by
    rcases hkind with h | h <;> rw [h] <;> rfl
  have hgapless : Gapless n.nodeType := by
    unfold Gapless
    rw [hroles]
    decide
  have hother (r : Role) (hr : r ∈ roles n.nodeType) (h : r.admits "ParameterList" = false) :=
    filter_parts_of_not_admits hfits hr h
  have hlists : n.parts.filter (·.is "ParameterList") =
      (n.child? "parameters").toList ++ (n.child? "returnParameters").toList := by
    rw [parts, hroles]
    simp only [List.flatMap_cons, List.flatMap_nil, List.filter_append, List.filter_nil]
    rw [hother _ (by simp [hroles]) rfl, hother _ (by simp [hroles]) rfl,
      hother (aside (only "ModifierInvocation" .list "modifiers")) (by simp [hroles]) rfl,
      hother (only "Block" .single "body") (by simp [hroles]) rfl,
      filter_parts_only hfits (by simp [hroles]), filter_parts_only hfits (by simp [hroles])]
    simp [only, Role.parts]
  have hread : n.read.filter (·.is "ParameterList") = n.parts.filter (·.is "ParameterList") := by
    rw [read, List.filter_filter]
    refine List.filter_congr fun c _ => ?_
    by_cases h : c.nodeType = "ParameterList"
    · simp [is, h, comment]
    · simp [is, h]
  rw [children_legacy hn hgapless, List.filter_map, ← hlists, ← hread]
  congr 1
  refine List.filter_congr fun c hc => ?_
  exact is_legacy (isPlain_of_mem_parts hn (List.mem_filter.1 hc).1) _

/-- The children of the image of a parameter list are the parameters. -/
theorem children_legacy_parameterList (hn : n.IsPlain) (hfits : n.Fits)
    (hkind : n.nodeType = "ParameterList") :
    n.legacy.children = (n.nodes "parameters").map legacy := by
  have hplain : isPlainKind n.nodeType := by rw [hkind]; decide
  rw [(children_of_isPlainKind hn hfits hplain).1]
  rw [parts, hkind]
  exact congrArg (List.map legacy) (List.append_nil _)

/-- The lists of parameters of a definition have a role. -/
theorem exists_role_of_parameters
    (hkind : n.nodeType = "FunctionDefinition" ∨ n.nodeType = "ModifierDefinition") {key : String}
    (hkey : key ∈ ["parameters", "returnParameters"]) (hc : n.child? key = some c) :
    ∃ shape, only "ParameterList" shape key ∈ roles n.nodeType ∧
      c ∈ (only "ParameterList" shape key).parts n := by
  have hroles : roles n.nodeType = roles "FunctionDefinition" := by
    rcases hkind with h | h
    · rw [h]
    · rw [h]
      rfl
  rw [hroles]
  simp only [List.mem_cons, List.not_mem_nil, or_false] at hkey
  rcases hkey with rfl | rfl
  · exact ⟨.leading, .tail _ (.tail _ (.head _)), by simp [Role.parts, only, hc]⟩
  · exact ⟨.single, .tail _ (.tail _ (.tail _ (.head _))), by simp [Role.parts, only, hc]⟩

theorem parameterList_legacy (hn : n.IsPlain) (hfits : n.Fits)
    (hkind : n.nodeType = "FunctionDefinition" ∨ n.nodeType = "ModifierDefinition")
    (hlists : ∀ key ∈ ["parameters", "returnParameters"], ∀ c ∈ n.child? key, c.Fits) :
    n.legacy.parameterList "parameters" 0 = (n.parameterList "parameters" 0).map legacy ∧
      n.legacy.parameterList "returnParameters" 1 =
        (n.parameterList "returnParameters" 1).map legacy := by
  have hcompact (key : String) (position : Nat) : n.parameterList key position =
      ((n.child? key).map (·.nodes "parameters")).getD [] := by
    obtain ⟨fields, rfl⟩ := hn
    rfl
  have hlegacy (key : String) (position : Nat) : n.legacy.parameterList key position =
      (((n.legacy.children.filter (·.is "ParameterList"))[position]?).map children).getD [] := rfl
  have hlist (key : String) (hkey : key ∈ ["parameters", "returnParameters"]) (c : Node)
      (hc : n.child? key = some c) : c.legacy.children = (c.nodes "parameters").map legacy := by
    obtain ⟨shape, hrole, hmem⟩ := exists_role_of_parameters hkind hkey hc
    exact children_legacy_parameterList (isPlain_of_child? hn hc) (hlists key hkey c hc)
      (eq_of_beq ((hfits _ hrole).2 c hmem))
  have hleading : only "ParameterList" .leading "parameters" ∈ roles n.nodeType := by
    rcases hkind with h | h <;> rw [h] <;> exact .tail _ (.tail _ (.head _))
  obtain ⟨c, hc⟩ : ∃ c, n.child? "parameters" = some c :=
    Option.isSome_iff_exists.1 ((hfits _ hleading).1 rfl)
  have hparameters := hlist "parameters" (by simp) c hc
  rw [hcompact, hcompact, hlegacy, hlegacy, filter_children_legacy hn hfits hkind, hc]
  refine ⟨by simpa using hparameters, ?_⟩
  cases hd : n.child? "returnParameters" with
  | none => simp
  | some d => simpa using hlist "returnParameters" (by simp) d hd

end Node

end ContractCalls.Solidity
