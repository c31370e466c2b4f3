/-
# The calls of the functions of a module

Parsing gives every function of a module an id under its name; lowering stores
a body at the id of the name of its definition.  With distinct names a function
therefore gets the body of its own definition or, if that cannot be lowered,
none.

Main statement: after the call sites are collected, the functions with a body
list the calls that their definitions evaluate, each under its kind, and
nothing else.
-/
import ContractCalls.Proofs.Vyper.Evaluation
import ContractCalls.Vyper.Loader
import Mathlib

namespace ContractCalls.Vyper

/-- The name a function is registered under. -/
def Node.functionName (n : Node) : String := (n.text? "name").getD ""

/-- The statements of the definition `n` execute a call of `callee`. -/
def Node.Calls (layout : Layout) (n : Node) (callee : Callee) : Prop :=
  ∃ s ∈ n.nodes "body", ∃ m, Executes layout.types.structs s m ∧ m.callee? layout = some callee

namespace Loader

/-! ## Parsing -/

/-- The layout of a loader names what the members in `done` define. -/
structure HasNames (contractName : String) (types : UserTypes) (done : List Node) (l : Loader) :
    Prop where
  contractName : l.layout.contractName = contractName
  types : l.layout.types = types
  defined : ∀ name, (∃ id, l.layout.functions.get? name = some id) ↔
    ∃ n ∈ done, n.is "FunctionDef" ∧ n.functionName = name
  named : ∀ name id, l.layout.functions.get? name = some id →
    (l.unit.function? id).map (·.name) = some name

theorem HasNames.congr {contractName : String} {types : UserTypes} {done : List Node}
    {l l' : Loader} (h : HasNames contractName types done l) (hlayout : l'.layout = l.layout)
    (hnames : l'.unit.functions.map (·.name) = l.unit.functions.map (·.name)) :
    HasNames contractName types done l' := by
  have hname (id : FunctionId) :
      (l'.unit.function? id).map (·.name) = (l.unit.function? id).map (·.name) := by
    simpa [Compilation.function?] using
      congrArg (fun names : Array String => names[id.index]?) hnames
  constructor
  · rw [hlayout, h.contractName]
  · rw [hlayout, h.types]
  · rw [hlayout]
    exact h.defined
  · intro name id hid
    rw [hname]
    exact h.named name id (hlayout ▸ hid)

/-- A loader once the members in `done` are registered: no function has a body yet. -/
structure Parsed (contractName : String) (types : UserTypes) (tree : Json) (done : List Node)
    (l : Loader) : Prop extends HasNames contractName types done l where
  tree : l.tree.json = tree
  bare : ∀ id f, l.unit.function? id = some f → f.body = none

section Members

variable {contractName : String} {types : UserTypes} {tree : Json} {done : List Node} {l : Loader}

/-- A member that defines no function. -/
theorem Parsed.skip (h : Parsed contractName types tree done l) {n : Node}
    (hn : n.is "FunctionDef" = false) : Parsed contractName types tree (done ++ [n]) l :=
  { h with defined := by intro name; rw [h.defined name]; simp [hn] }

theorem functions_addDeclaration (u : Compilation) (scope : ScopeId) (owner : Option String)
    (name : String) (kind : DeclKind) (raw : List Json) :
    (u.addDeclaration scope owner name kind raw).2.functions = u.functions := by
  simp only [Compilation.addDeclaration]
  split <;> rfl

theorem functions_addModuleFunction (u : Compilation) (contract : ContractId) (f : Function) :
    (addModuleFunction u contract f).2.functions = u.functions.push { f with id := u.nextFunctionId } := by
  simp only [addModuleFunction]
  split <;> rfl

/-- A function is found under the id it is added with, and all others stay. -/
theorem function?_addModuleFunction (u : Compilation) (contract : ContractId) (f : Function)
    (id : FunctionId) :
    (addModuleFunction u contract f).2.function? id =
      if id = u.nextFunctionId then some { f with id := u.nextFunctionId } else u.function? id := by
  have hpush : (addModuleFunction u contract f).2.function? id =
      (u.functions.push { f with id := u.nextFunctionId })[id.index]? := by
    rw [Compilation.function?, functions_addModuleFunction]
  have hid : id = u.nextFunctionId ↔ id.index = u.functions.size := by
    cases id
    simp [Compilation.nextFunctionId]
  simp only [hpush, Array.getElem?_push, hid]
  rfl

theorem leads_registerVariable (h : Parsed contractName types tree done l) {n : Node}
    (hn : n.is "FunctionDef" = false) :
    Leads (registerVariable n) l (fun _ => Parsed contractName types tree (done ++ [n]))
      fun _ => True := by
  refine leads_bind (leads_get ?_)
  split
  · exact leads_throw trivial
  · exact leads_set { h.skip hn with }

theorem leads_registerDeclaration (h : Parsed contractName types tree done l) (kind : DeclKind)
    {n : Node} (hn : n.is "FunctionDef" = false) :
    Leads (registerDeclaration kind n) l (fun _ => Parsed contractName types tree (done ++ [n]))
      fun _ => True := by
  refine leads_bind (leads_get ?_)
  split
  · next name contract _ _ =>
      have hsame := functions_addDeclaration l.unit contract.scope (some l.layout.contractName) name
        kind [n.json]
      refine leads_modify
        ⟨(h.skip hn).toHasNames.congr rfl (congrArg (Array.map (·.name)) hsame), h.tree, ?_⟩
      intro id f hf
      exact h.bare id f (by rwa [Compilation.function?, hsame] at hf)
  · exact leads_pure (h.skip hn)
  · exact leads_throw trivial

/-- A function takes its name, whoever had it before. -/
theorem leads_registerFunction (h : Parsed contractName types tree done l) {n : Node}
    (hn : n.is "FunctionDef") :
    Leads (registerFunction n) l (fun _ => Parsed contractName types tree (done ++ [n]))
      fun _ => True := by
  have hget (name : String) : (l.layout.functions.insert n.functionName l.unit.nextFunctionId).get?
      name = if n.functionName = name then some l.unit.nextFunctionId
        else l.layout.functions.get? name := Table.get?_insert ..
  have hfound (id : FunctionId) := function?_addModuleFunction l.unit l.contract
    (functionHeader l.layout l.locate n) id
  refine leads_modify { h with defined := ?_, named := ?_, bare := ?_ }
  · intro name
    show (∃ id, (l.layout.functions.insert n.functionName l.unit.nextFunctionId).get? name =
      some id) ↔ _
    rw [hget]
    by_cases hname : n.functionName = name
    · simp [hname, hn]
    · simp [hname, hn, h.defined name]
  · intro name id hid
    change (l.layout.functions.insert n.functionName l.unit.nextFunctionId).get? name = some id at hid
    refine (congrArg (Option.map (·.name)) (hfound id)).trans ?_
    rw [hget] at hid
    split at hid
    · next hname =>
        rw [if_pos (Option.some.inj hid).symm]
        exact congrArg some hname
    · have hprior := h.named name id hid
      rw [if_neg, hprior]
      rintro rfl
      simp [Compilation.function?, Compilation.nextFunctionId] at hprior
  · intro id f hf
    replace hf := (hfound id).symm.trans hf
    split at hf
    · obtain rfl := Option.some.inj hf
      rfl
    · exact h.bare id f hf

theorem pendingKind?_ne {n : Node} {kind : DeclKind} (h : pendingKind? n = some kind) :
    n.is "FunctionDef" = false := by
  unfold pendingKind? at h
  split at h
  case h_5 => cases h
  all_goals simp [Node.is, *]

theorem leads_registerMember (h : Parsed contractName types tree done l) (n : Node) :
    Leads (registerMember n) l (fun _ => Parsed contractName types tree (done ++ [n]))
      fun _ => True := by
  unfold registerMember
  split
  · next hkind => exact leads_registerDeclaration h _ (pendingKind?_ne hkind)
  · next htype _ => exact leads_registerVariable h (by simp [Node.is, htype])
  · next htype _ => exact leads_registerFunction h (by simp [Node.is, htype])
  · exact leads_pure (h.skip (by simpa [Node.is]))

end Members

/-- The members of a module. -/
def membersOf (tree : Json) : List Node := (⟨tree⟩ : Node).nodes "body"

/-- The functions that a module defines. -/
def definitions (members : List Node) : List Node := members.filter (·.is "FunctionDef")

/-- The names of the functions that a module defines. -/
def functionNames (members : List Node) : List String :=
  (definitions members).filterMap (·.text? "name")

/-- The types that the members of a module define. -/
def definedTypes (members : List Node) : UserTypes :=
  ⟨namesOf "StructDef" members, namesOf "InterfaceDef" members⟩

/-- A parse that succeeds has registered the functions of the module. -/
theorem leads_parse (target contractName file source : String) (tree : Json)
    (policy : FailurePolicy) :
    Leads parse (new target contractName file source tree policy)
      (fun _ => Parsed contractName (definedTypes (membersOf tree)) tree
        (membersOf tree)) fun _ => True := by
  unfold parse
  refine leads_bind (leads_get ?_)
  have hfresh : (new target contractName file source tree policy).unit.isParsed = false := rfl
  rw [hfresh, if_neg Bool.false_ne_true]
  split
  · exact leads_bind (leads_throw trivial)
  · refine leads_bind (leads_set ?_)
    refine (leads_forM (fun rest l => ∃ done, done ++ rest = membersOf tree ∧
      Parsed contractName (definedTypes (membersOf tree)) tree done l) ?_ ?_).bind ?_
    · refine ⟨[], rfl, ⟨rfl, rfl, ?_, fun _ _ hid => nomatch hid⟩, rfl, ?_⟩
      · intro name
        constructor
        · rintro ⟨id, hid⟩
          cases hid
        · rintro ⟨n, hn, -⟩
          cases hn
      · intro id f hf
        have hnone : (new target contractName file source tree policy).unit.function? id = none :=
          Array.getElem?_empty
        exact absurd (hnone.symm.trans hf) nofun
    · rintro n rest l - ⟨done, hdone, h⟩
      refine (leads_registerMember h n).mono fun _ _ h' => ⟨done ++ [n], ?_, h'⟩
      rw [← hdone, List.append_assoc]
      rfl
    · rintro _ l ⟨done, hdone, h⟩
      rw [List.append_nil] at hdone
      subst hdone
      exact leads_modify { h with }

/-! ## Lowering -/

/-- Nothing has changed but counters, declarations and failures. -/
structure Framed (l l' : Loader) : Prop where
  tree : l'.tree = l.tree
  file : l'.file = l.file
  layout : l'.layout = l.layout
  sources : l'.unit.sources = l.unit.sources
  functions : l'.unit.functions = l.unit.functions

namespace Framed

variable {l l' l'' : Loader}

theorem refl (l : Loader) : Framed l l := ⟨rfl, rfl, rfl, rfl, rfl⟩

theorem trans (h : Framed l l') (h' : Framed l' l'') : Framed l l'' :=
  ⟨h'.tree.trans h.tree, h'.file.trans h.file, h'.layout.trans h.layout,
    h'.sources.trans h.sources, h'.functions.trans h.functions⟩

end Framed

theorem leads_onUnit {α : Type} {x : OnCompilation α} {l : Loader} {ok : α → Loader → Prop}
    {err : FrontEndError → Prop} (h : Leads x l.unit (fun a unit => ok a { l with unit }) err) :
    Leads (onUnit x) l ok err :=
  leads_zoom Loader.unit (fun l unit => { l with unit }) h

theorem leads_readDeclaration (l : Loader) (position : Nat) :
    Leads (readDeclaration position) l (fun _ => Framed l) fun _ => True := by
  refine leads_bind (leads_get ?_)
  split
  · exact leads_pure (.refl l)
  · refine leads_bind (leads_modify ?_)
    split
    · exact leads_pure ⟨rfl, rfl, rfl, rfl, rfl⟩
    · refine leads_onUnit ?_
      unfold Compilation.recover
      split
      · exact leads_modify ⟨rfl, rfl, rfl, rfl, rfl⟩
      · exact leads_throw trivial

/-- What lowering a definition gives. -/
def lowering (l : Loader) (n : Node) (counters : Counters) : Option Body :=
  (Build.runBody ((Definition.ofNode l.layout.types l.locate n).lower l.layout)
    counters).1.toOption

/-- Lowering reads names and source positions. -/
theorem lowering_congr {l l' : Loader} (hfile : l'.file = l.file) (hlayout : l'.layout = l.layout)
    (hsources : l'.unit.sources = l.unit.sources) : l'.lowering = l.lowering := by
  funext n counters
  have hlocate : l'.locate = l.locate := by
    funext m
    rw [Loader.locate, Loader.locate, hfile, hsources]
  rw [Loader.lowering, Loader.lowering, hlocate, hlayout]

theorem Framed.lowering {l l' : Loader} (h : Framed l l') : l'.lowering = l.lowering :=
  lowering_congr h.file h.layout h.sources

/-- The id under which the body of a definition is stored. -/
def seat? (l : Loader) (n : Node) : Option FunctionId :=
  (n.text? "name").bind l.layout.functions.get?

theorem Framed.seat? {l l' : Loader} (h : Framed l l') : l'.seat? = l.seat? := by
  funext n
  rw [Loader.seat?, Loader.seat?, h.layout]

theorem leads_lowerFunction (l : Loader) (done : Lowered) (n : Node) :
    Leads (lowerFunction done n) l
      (fun done' l' => Framed l l' ∧ ∃ counters, done'.bodies = done.bodies ++
        ((l.seat? n).bind fun id => (l.lowering n counters).map (id, ·)).toList)
      fun _ => True := by
  unfold lowerFunction
  refine leads_bind (leads_get ?_)
  split
  · next hseat => exact leads_pure ⟨.refl l, l.unit.counters, by simp [seat?, hseat]⟩
  · next id hseat =>
      have hid : l.seat? n = some id := hseat
      dsimp only
      cases hrun : Build.runBody ((Definition.ofNode l.layout.types l.locate n).lower l.layout)
        l.unit.counters with
      | mk result after =>
          have hlowering : l.lowering n l.unit.counters = result.toOption := by
            rw [lowering, hrun]
          refine leads_bind (leads_modify ?_)
          cases result with
          | ok body =>
              refine leads_pure ⟨⟨rfl, rfl, rfl, rfl, rfl⟩, l.unit.counters, ?_⟩
              simp [hid, hlowering, Except.toOption]
          | error e =>
              dsimp only
              split
              · refine leads_pure ⟨⟨rfl, rfl, rfl, rfl, rfl⟩, l.unit.counters, ?_⟩
                simp [hid, hlowering, Except.toOption]
              · exact leads_throw trivial

/-- The bodies stored under an id, in order. -/
def bodiesOf (bodies : List (FunctionId × Body)) (id : FunctionId) : List Body :=
  bodies.filterMap fun entry => if entry.1 = id then some entry.2 else none

theorem bodiesOf_append (bodies more : List (FunctionId × Body)) (id : FunctionId) :
    bodiesOf (bodies ++ more) id = bodiesOf bodies id ++ bodiesOf more id :=
  List.filterMap_append

/-- Definitions of other functions. -/
theorem leads_others {id : FunctionId} {definitions : List Node} {l : Loader} {done : Lowered}
    (hothers : ∀ n ∈ definitions, l.seat? n ≠ some id) :
    Leads (definitions.foldlM lowerFunction done) l
      (fun done' l' => Framed l l' ∧ bodiesOf done'.bodies id = bodiesOf done.bodies id)
      fun _ => True := by
  induction definitions generalizing l done with
  | nil => exact leads_pure ⟨.refl l, rfl⟩
  | cons n rest ih =>
      rw [List.foldlM_cons]
      refine (leads_lowerFunction l done n).bind ?_
      rintro done' l' ⟨hframe, counters, hbodies⟩
      have hrest : ∀ m ∈ rest, l'.seat? m ≠ some id := by
        intro m hm
        rw [hframe.seat?]
        exact hothers m (List.mem_cons_of_mem n hm)
      refine (ih hrest).mono ?_
      rintro done'' l'' ⟨hframe', hsame⟩
      refine ⟨hframe.trans hframe', ?_⟩
      rw [hsame, hbodies, bodiesOf_append]
      have hn : bodiesOf ((l.seat? n).bind fun id =>
          (l.lowering n counters).map (id, ·)).toList id = [] := by
        cases hseat : l.seat? n with
        | none => rfl
        | some other =>
            have hne : other ≠ id := fun heq => hothers n List.mem_cons_self (heq ▸ hseat)
            cases l.lowering n counters with
            | none => rfl
            | some body => simp [bodiesOf, hne]
      rw [hn, List.append_nil]

/-- A function whose definition is the only one of its name gets the body of the definition. -/
theorem leads_lowerAll {id : FunctionId} {before after : List Node} {n : Node} {l : Loader}
    {done : Lowered} (hn : l.seat? n = some id) (hdone : bodiesOf done.bodies id = [])
    (hbefore : ∀ m ∈ before, l.seat? m ≠ some id) (hafter : ∀ m ∈ after, l.seat? m ≠ some id) :
    Leads ((before ++ n :: after).foldlM lowerFunction done) l
      (fun done' l' => Framed l l' ∧
        ∃ counters, bodiesOf done'.bodies id = (l.lowering n counters).toList) fun _ => True := by
  rw [List.foldlM_append]
  refine (leads_others hbefore).bind ?_
  rintro done₁ l₁ ⟨hframe₁, hbodies₁⟩
  rw [List.foldlM_cons]
  refine (leads_lowerFunction l₁ done₁ n).bind ?_
  rintro done₂ l₂ ⟨hframe₂, counters, hbodies₂⟩
  have hrest : ∀ m ∈ after, l₂.seat? m ≠ some id := by
    rw [(hframe₁.trans hframe₂).seat?]
    exact hafter
  refine (leads_others hrest).mono ?_
  rintro done₃ l₃ ⟨hframe₃, hbodies₃⟩
  refine ⟨(hframe₁.trans hframe₂).trans hframe₃, counters, ?_⟩
  rw [hbodies₃, hbodies₂, bodiesOf_append, hbodies₁, hdone, hframe₁.seat?, hn, hframe₁.lowering]
  cases l.lowering n counters with
  | none => rfl
  | some body => simp [bodiesOf]

/-! ## Storing -/

/-- A function has the last body that is stored under its id. -/
theorem function?_foldl_storeBody (id : FunctionId) (bodies : List (FunctionId × Body))
    (u : Compilation) :
    (bodies.foldl storeBody u).function? id =
      (u.function? id).map fun f =>
        (bodiesOf bodies id).foldl (fun f body => { f with body := some body }) f := by
  induction bodies generalizing u with
  | nil => simp [bodiesOf]
  | cons entry rest ih =>
      obtain ⟨other, body⟩ := entry
      rw [List.foldl_cons, ih]
      have hmodified : (storeBody u (other, body)).function? id =
          if other.index = id.index then (u.function? id).map fun f => { f with body := some body }
          else u.function? id := Array.getElem?_modify ..
      have hid : other = id ↔ other.index = id.index := by
        cases other
        cases id
        simp
      rw [hmodified]
      by_cases heq : other = id
      · simp [bodiesOf, heq, Option.map_map, Function.comp_def]
      · rw [if_neg (hid.not.1 heq)]
        simp [bodiesOf, heq]

theorem function?_store (done : Lowered) (u : Compilation) (id : FunctionId) :
    (done.store u).function? id = (done.bodies.foldl storeBody u).function? id := by
  have hfunctions : (done.store u).functions = (done.bodies.foldl storeBody u).functions :=
    foldl_keeps (P := fun v : Compilation => v.functions = _) rfl fun _ _ _ h => h
  rw [Compilation.function?, hfunctions]
  rfl

theorem sources_store (done : Lowered) (u : Compilation) : (done.store u).sources = u.sources := by
  refine foldl_keeps (P := fun v : Compilation => v.sources = u.sources) ?_ fun _ _ _ h => h
  exact foldl_keeps (P := fun v : Compilation => v.sources = u.sources) rfl fun _ _ _ h => h

theorem names_store (done : Lowered) (u : Compilation) :
    (done.store u).functions.map (·.name) = u.functions.map (·.name) := by
  refine foldl_keeps (P := fun v : Compilation => v.functions.map (·.name) = u.functions.map (·.name))
    ?_ fun _ _ _ h => h
  refine foldl_keeps (P := fun v : Compilation => v.functions.map (·.name) = u.functions.map (·.name))
    rfl fun v entry _ h => ?_
  rw [← h]
  exact Compilation.map_modifyFunction (by intro f; rfl) v entry.1

/-- Lowering stores the body of the one definition that a name has. -/
theorem leads_lowerBodies {id : FunctionId} {f : Function} {n : Node} {before after : List Node}
    {l : Loader} (hmembers : l.members.filter (·.is "FunctionDef") = before ++ n :: after)
    (hn : l.seat? n = some id) (hf : l.unit.function? id = some f) (hbare : f.body = none)
    (hbefore : ∀ m ∈ before, l.seat? m ≠ some id) (hafter : ∀ m ∈ after, l.seat? m ≠ some id) :
    Leads lowerBodies l
      (fun _ l' => l'.layout = l.layout ∧ l'.lowering = l.lowering ∧
        l'.unit.functions.map (·.name) = l.unit.functions.map (·.name) ∧
        ∃ counters, l'.unit.function? id = some { f with body := l.lowering n counters })
      fun _ => True := by
  unfold lowerBodies
  refine leads_bind (leads_get ?_)
  rw [hmembers]
  refine (leads_lowerAll hn rfl hbefore hafter).bind ?_
  rintro done l' ⟨hframe, counters, hbodies⟩
  have hf' : l'.unit.function? id = some f := by
    rw [Compilation.function?, hframe.functions]
    exact hf
  refine leads_modify ⟨hframe.layout, ?_, ?_, counters, ?_⟩
  · exact lowering_congr hframe.file hframe.layout
      ((sources_store done l'.unit).trans hframe.sources)
  · exact (names_store done l'.unit).trans (congrArg (Array.map (·.name)) hframe.functions)
  · show (done.store l'.unit).function? id = _
    rw [function?_store, function?_foldl_storeBody, hf', hbodies]
    cases l.lowering n counters with
    | none =>
        have hsame : { f with body := none } = f := by rw [← hbare]
        rw [hsame]
        rfl
    | some body => rfl

/-- With distinct names, no other definition has the id of a function. -/
theorem seat?_ne {contractName : String} {types : UserTypes} {tree : Json} {members : List Node}
    {l : Loader} (h : Parsed contractName types tree members l) {id : FunctionId} {name : String}
    (hid : l.layout.functions.get? name = some id) {others : List Node}
    (hothers : name ∉ others.filterMap (·.text? "name")) : ∀ m ∈ others, l.seat? m ≠ some id := by
  intro m hm hseat
  obtain ⟨other, hother, hget⟩ := Option.bind_eq_some_iff.1 hseat
  have hsame : some other = some name := (h.named other id hget).symm.trans (h.named name id hid)
  exact hothers (List.mem_filterMap.2 ⟨m, hm, hother.trans hsame⟩)

/-- A function whose definition has a name of its own gets the body of its definition. -/
theorem leads_lower {contractName : String} {types : UserTypes} {tree : Json} {l : Loader}
    (h : Parsed contractName types tree (membersOf tree) l)
    (hdistinct : (functionNames (membersOf tree)).Nodup) {n : Node} {name : String}
    (hn : n ∈ definitions (membersOf tree)) (hname : n.text? "name" = some name) :
    Leads lower l
      (fun _ l' => HasNames contractName types (membersOf tree) l' ∧
        ∃ (id : FunctionId) (f : Function) (counters : Counters),
          l'.layout.functions.get? name = some id ∧ f.name = name ∧
          l'.unit.function? id = some { f with body := l'.lowering n counters })
      fun _ => True := by
  obtain ⟨before, after, hsplit⟩ := List.append_of_mem hn
  have hfresh : name ∉ before.filterMap (·.text? "name") ∧
      name ∉ after.filterMap (·.text? "name") := by
    rw [functionNames, hsplit, List.filterMap_append,
      List.filterMap_cons_some (by exact hname)] at hdistinct
    obtain ⟨-, hafter, hapart⟩ := List.nodup_append.1 hdistinct
    exact ⟨fun hmem => hapart name hmem name List.mem_cons_self rfl,
      (List.nodup_cons.1 hafter).1⟩
  have hmem := List.mem_filter.1 hn
  obtain ⟨id, hid⟩ := (h.defined name).2 ⟨n, hmem.1, hmem.2, by rw [Node.functionName, hname]; rfl⟩
  obtain ⟨f, hf, hfname⟩ := Option.map_eq_some_iff.1 (h.named name id hid)
  have hseat : l.seat? n = some id := by
    rw [seat?, hname]
    exact hid
  refine leads_bind (leads_get ((leads_forM (fun _ => Framed l) (.refl l) ?_).bind ?_))
  · intro position rest t _ hframe
    exact (leads_readDeclaration t position).mono fun _ _ h' => hframe.trans h'
  · intro _ t hframe
    have hmembers : t.members = membersOf tree := by
      rw [members, membersOf, hframe.tree, ← h.tree]
    have hbefore := seat?_ne h hid hfresh.1
    have hafter := seat?_ne h hid hfresh.2
    rw [← hframe.seat?] at hseat hbefore hafter
    have hft : t.unit.function? id = some f := by
      rw [Compilation.function?, hframe.functions]
      exact hf
    refine (leads_lowerBodies (by rw [hmembers]; exact hsplit) hseat hft (h.bare id f hf) hbefore
      hafter).mono ?_
    rintro _ l' ⟨hlayout, hlowering, hnames, counters, hstored⟩
    have hsame := hlayout.trans hframe.layout
    refine ⟨h.toHasNames.congr hsame
      (hnames.trans (congrArg (Array.map (·.name)) hframe.functions)), id, f, counters, ?_, hfname, ?_⟩
    · rw [hsame, hid]
    · rw [hlowering, hstored]

/-- Parses a module, lowers its bodies and runs the pass over the call sites. -/
def loadCalls (policy : FailurePolicy) : Load Unit := do
  parse
  lower
  onUnit (Compilation.runPass policy .callSites)

/-! ## Call sites -/

/-- The body of a definition calls what the definition calls. -/
theorem mem_callees_lowering {l : Loader} {n : Node} {counters : Counters} {body : Body}
    (h : l.lowering n counters = some body) (callee : Callee) :
    callee ∈ body.callees ↔ n.Calls l.layout callee := by
  unfold lowering at h
  cases hrun : Build.runBody ((Definition.ofNode l.layout.types l.locate n).lower l.layout)
    counters with
  | mk result after =>
      rw [hrun] at h
      cases result with
      | error e => cases h
      | ok body' =>
          cases h
          rw [(Build.callees_runBody_perm (Definition.adds_lower _ _) hrun).mem_iff, Definition.ofNode,
            calleesOfBlock_map, calleesIn, List.mem_flatMap]
          simp only [mem_callees_ofStatement]
          rfl

/-- After the pass over the call sites, the functions of a module with distinct names list the
calls of their definitions, if these could be lowered. -/
theorem mem_calls_iff {target contractName file source : String} {tree : Json}
    {policy : FailurePolicy} {l : Loader}
    (hload : (loadCalls policy).run (.new target contractName file source tree policy) = (.ok (), l))
    (hdistinct : (functionNames (membersOf tree)).Nodup) {n : Node} {name : String}
    (hn : n ∈ definitions (membersOf tree)) (hname : n.text? "name" = some name) :
    HasNames contractName (definedTypes (membersOf tree)) (membersOf tree) l ∧
      ∃ (id : FunctionId) (f : Function) (counters : Counters),
        l.layout.functions.get? name = some id ∧ l.unit.function? id = some f ∧
        f.name = name ∧ f.body = l.lowering n counters ∧
        (f.body.isSome → ∀ callee,
          (callee ∈ f.calls.internal ↔ callee.isInternal ∧ n.Calls l.layout callee) ∧
          (callee ∈ f.calls.highLevel ↔ callee.isHighLevel ∧ n.Calls l.layout callee)) := by
  have hleads : Leads (loadCalls policy) (.new target contractName file source tree policy)
      (fun _ l => HasNames contractName (definedTypes (membersOf tree)) (membersOf tree) l ∧
        ∃ (id : FunctionId) (f : Function) (counters : Counters),
          l.layout.functions.get? name = some id ∧ f.name = name ∧
          f.body = l.lowering n counters ∧ l.unit.function? id = some f.collectCalls)
      fun _ => True := by
    refine (leads_parse target contractName file source tree policy).bind fun _ t ht => ?_
    refine (leads_lower ht hdistinct hn hname).bind ?_
    rintro _ t' ⟨hnames, id, f, counters, hid, hfname, hf⟩
    refine leads_onUnit ((Compilation.leads_callSites policy t'.unit).mono ?_)
    rintro _ _ rfl
    refine ⟨hnames.congr rfl (Compilation.names_collectCalls t'.unit), id,
      { f with body := t'.lowering n counters }, counters, hid, hfname, ?_, ?_⟩
    · exact (congrFun₂ (lowering_congr (l := t') rfl rfl rfl) n counters).symm
    · rw [Compilation.function?_collectCalls, hf, Option.map_some]
  obtain ⟨hnames, id, f, counters, hid, hfname, hbody, hf⟩ := hleads.of_run hload
  refine ⟨hnames, id, f.collectCalls, counters, hid, hf, ?_, ?_, ?_⟩
  · rw [f.collectCalls_name, hfname]
  · rw [f.collectCalls_body, hbody]
  · intro hsome callee
    obtain ⟨body, hsome⟩ := Option.isSome_iff_exists.1 hsome
    rw [f.collectCalls_body] at hsome
    rw [Function.mem_internal_collectCalls hsome, Function.mem_highLevel_collectCalls hsome,
      mem_callees_lowering (hbody.symm.trans hsome)]
    exact ⟨and_comm, and_comm⟩

/-- The tree of a name. -/
def nameTree (id : String) : Json := .object [("ast_type", .string "Name"), ("id", .string id)]

/-- The tree of a member. -/
def memberTree (base : Json) (name : String) : Json :=
  .object [("ast_type", .string "Attribute"), ("attr", .string name), ("value", base)]

/-- The tree of a call. -/
def callTree (callee : Json) (arguments : List Json) : Json :=
  .object [("args", .array arguments), ("ast_type", .string "Call"), ("func", callee),
    ("keywords", .array [])]

/-- The tree of a statement that evaluates an expression. -/
def evaluationTree (value : Json) : Json :=
  .object [("ast_type", .string "Expr"), ("value", value)]

/-- The tree of a function. -/
def functionTree (name : String) (statements : List Json) : Json :=
  .object [("ast_type", .string "FunctionDef"), ("body", .array statements),
    ("name", .string name)]

/-- The tree of a function that calls `self.inner()` in a node of an unknown kind, `self.gone` with
the length of a constructed point, and `self.tokens[i].transfer()`. -/
def outerDefinition : Json :=
  functionTree "outer" [
    evaluationTree (.object [("ast_type", .string "NamedExpr"),
      ("value", callTree (memberTree (nameTree "self") "inner") [])]),
    evaluationTree (callTree (memberTree (nameTree "self") "gone")
      [callTree (nameTree "len") [callTree (nameTree "Point") []]]),
    evaluationTree (callTree (memberTree (.object [("ast_type", .string "Subscript"),
      ("slice", nameTree "i"), ("value", memberTree (nameTree "self") "tokens")]) "transfer") [])]

/-- A module of a structure and two functions, one of which calls the other. -/
def relay : Json :=
  .object [("ast_type", .string "Module"), ("body", .array [
    .object [("ast_type", .string "StructDef"), ("body", .array []), ("name", .string "Point")],
    functionTree "inner" [.object [("ast_type", .string "Pass")]],
    outerDefinition])]

/-- Of the calls of `outer`, one is of the function with id 0, one of a function that is missing, one
of a builtin and one of something outside; the construction of a point is none. -/
theorem mem_calls_iff_relay : ∃ (l : Loader) (f : Function),
    (loadCalls .stopOnFirst).run (.new "relay" "Relay" "relay.vy" "" relay .stopOnFirst) =
      (.ok (), l) ∧
    l.layout.functions.get? "inner" = some ⟨0⟩ ∧ l.layout.functions.get? "outer" = some ⟨1⟩ ∧
    l.unit.function? ⟨1⟩ = some f ∧
    f.calls.internal =
      [.internal ⟨0⟩, .builtin "len", .unresolved .internal "Relay.gone"] ∧
    f.calls.highLevel = [.highLevel none (.unresolved "self.tokens[...].transfer")] ∧
    ∀ callee,
      (callee ∈ f.calls.internal ↔
        callee.isInternal ∧ (⟨outerDefinition⟩ : Node).Calls l.layout callee) ∧
      (callee ∈ f.calls.highLevel ↔
        callee.isHighLevel ∧ (⟨outerDefinition⟩ : Node).Calls l.layout callee) := by
  have hrun : (match (loadCalls .stopOnFirst).run
      (.new "relay" "Relay" "relay.vy" "" relay .stopOnFirst) with
    | (.ok _, l) => some (l.layout.functions.get? "inner", l.layout.functions.get? "outer",
        (l.unit.function? ⟨1⟩).map fun f =>
          (f.body.isSome, f.calls.internal, f.calls.highLevel))
    | (.error _, _) => none) = some (some ⟨0⟩, some ⟨1⟩, some (true,
      [.internal ⟨0⟩, .builtin "len", .unresolved .internal "Relay.gone"],
      [.highLevel none (.unresolved "self.tokens[...].transfer")])) := by cbv
  split at hrun
  · next l hload =>
      simp only [Option.some.injEq, Prod.mk.injEq, Option.map_eq_some_iff] at hrun
      obtain ⟨hinner, houter, f, hf, hbody, hinternal, hhighLevel⟩ := hrun
      have hmember : (⟨outerDefinition⟩ : Node) ∈ definitions (membersOf relay) := by
        show _ ∈ [_, (⟨outerDefinition⟩ : Node)]
        exact List.mem_cons_of_mem _ List.mem_cons_self
      obtain ⟨-, id, f', -, hid, hf', -, -, hcalls⟩ := mem_calls_iff hload (by decide) hmember rfl
      obtain rfl : id = ⟨1⟩ := Option.some.inj (hid.symm.trans houter)
      obtain rfl : f' = f := Option.some.inj (hf'.symm.trans hf)
      exact ⟨l, f', hload, hinner, houter, hf, hinternal, hhighLevel, hcalls hbody⟩
  · cases hrun

end Loader

end ContractCalls.Vyper
