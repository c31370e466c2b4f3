/-
# Which instances are shadowed

The functions of a contract are the instances of what its linearization leads
to, most derived contract first and each contract in order of declaration.  The
build marks a function as shadowed if one of the same key went before it in the
same context, so that of all functions of a key the first alone is not.

`Headers.instances` says which functions a contract gets without any build.
`Headers.Shows` says of headers that their contracts have the listed functions,
marked, and that their seats lead to them; every step of a build adds the
instances that it stands for to the list.
-/
import ContractCalls.Proofs.Pipeline
import ContractCalls.Proofs.Solidity.Copies

namespace ContractCalls

/-- What is known of a function from its definition and its context, and its mark. -/
def Function.face (f : Function) : Function := { f.outline with id := ⟨0⟩ }

/-- What is known of a function from its definition and its context. -/
def Function.header (f : Function) : Function := { f.face with isShadowed := false }

namespace Solidity

/-! ## Marks -/

/-- A function whose key is among `seen` is shadowed, constructors apart. -/
def mark (seen : List String) (f : Function) : Function :=
  { f with isShadowed := seen.contains (shadowKey f) && !f.isConstructor }

@[simp] theorem shadowKey_mark (seen : List String) (f : Function) :
    shadowKey (mark seen f) = shadowKey f := rfl

/-- Functions one after another, each shadowed by those before it and by the keys `seen`. -/
def marked (seen : List String) : List Function → List Function
  | [] => []
  | f :: rest => mark seen f :: marked (shadowKey f :: seen) rest

theorem mark_congr {seen seen' : List String} (h : ∀ key, key ∈ seen ↔ key ∈ seen')
    (f : Function) : mark seen f = mark seen' f := by
  have hcontains : seen.contains (shadowKey f) = seen'.contains (shadowKey f) := by
    rw [Bool.eq_iff_iff, List.contains_iff_mem, List.contains_iff_mem, h]
  rw [mark, mark, hcontains]

theorem marked_concat (seen : List String) (fs : List Function) (f : Function) :
    marked seen (fs ++ [f]) = marked seen fs ++ [mark (fs.map shadowKey ++ seen) f] := by
  induction fs generalizing seen with
  | nil => rfl
  | cons g rest ih =>
      rw [List.cons_append, marked, ih, marked, List.cons_append]
      congr 3
      -- The keys are the same ones in another order.
      apply mark_congr
      simp only [List.mem_append, List.mem_cons, List.map_cons]
      tauto

theorem map_header_marked (seen : List String) (fs : List Function) :
    (marked seen fs).map Function.header = fs.map Function.header := by
  induction fs generalizing seen with
  | nil => rfl
  | cons f rest ih =>
      rw [marked, List.map_cons, ih, List.map_cons]
      rfl

/-- Constructors are not marked. -/
theorem isShadowed_of_mem_marked {seen : List String} {fs : List Function} {f : Function}
    (hf : f ∈ marked seen fs) (hconstructor : f.isConstructor) : f.isShadowed = false := by
  induction fs generalizing seen with
  | nil => cases hf
  | cons g rest ih =>
      rcases List.mem_cons.1 hf with rfl | hrest
      · have hg : g.isConstructor = true := hconstructor
        simp [mark, hg]
      · exact ih hrest

/-- Of the functions of a key the first one is not shadowed, and it alone, if none of them is a
constructor. -/
theorem filter_marked (seen : List String) {fs : List Function} {key : String}
    (hkey : ∀ f ∈ fs, shadowKey f = key → f.isConstructor = false) :
    ((marked seen fs).filter fun f => shadowKey f == key && !f.isShadowed) =
      if key ∈ seen then [] else ((fs.find? (shadowKey · == key)).map (mark [])).toList := by
  induction fs generalizing seen with
  | nil => simp [marked]
  | cons f rest ih =>
      rw [marked, List.filter_cons, ih _ fun g hg => hkey g (List.mem_cons_of_mem f hg),
        shadowKey_mark]
      by_cases hf : shadowKey f = key
      · have hordinary := hkey f List.mem_cons_self hf
        rw [List.find?_cons_of_pos (by simpa using hf)]
        by_cases hseen : key ∈ seen <;> simp [mark, hf, hordinary, hseen]
      · rw [List.find?_cons_of_neg (by simpa using hf)]
        simp [hf, Ne.symm hf]

/-! ## What a contract is given -/

namespace Headers

/-- The instance of a definition of the contract `base` in a context; a constructor has none in
another contract. -/
def instance? (h : Headers) (context base : Contract) (file : String) (d : Int) :
    Option Function :=
  (h.index.definitions.get? d).bind fun n =>
    let f := functionOf n (some context.name) (some base.name) h.unit.sourceList file
    if f.isConstructor && base.id != context.id then none else some f

/-- The instances of the definitions of one contract, in order of declaration. -/
def instancesFrom (h : Headers) (context : Contract) (base : ContractId) : List (Int × Function) :=
  match h.index.contract? base, h.unit.contract? base with
  | some definition, some contract =>
      definition.definitions.filterMap fun d =>
        (h.instance? context contract definition.file d).map (d, ·)
  | _, _ => []

/-- The definitions that a contract sees with their instances, in order of the linearization and,
within a contract, of declaration. -/
def instances (h : Headers) (context : Contract) : List (Int × Function) :=
  context.linearization.flatMap (h.instancesFrom context)

/-- The instances in the contract of a number. -/
def instancesOf (h : Headers) (id : ContractId) : List (Int × Function) :=
  ((h.unit.contract? id).map h.instances).getD []

/-- Of the contracts an instance reads number and name. -/
theorem instance?_congr {h h' : Headers} (hdefinitions : h'.index.definitions = h.index.definitions)
    (hsources : h'.unit.sourceList = h.unit.sourceList) {context context' base base' : Contract}
    (hcontext : context'.outline = context.outline) (hbase : base'.outline = base.outline) :
    h'.instance? context' base' = h.instance? context base := by
  have hid : context'.id = context.id := congrArg (·.1) hcontext
  have hname : context'.name = context.name := congrArg (·.2.1) hcontext
  have hid' : base'.id = base.id := congrArg (·.1) hbase
  have hname' : base'.name = base.name := congrArg (·.2.1) hbase
  funext file d
  unfold instance?
  rw [hdefinitions, hsources, hid, hname, hid', hname']

/-- The contract of a number is there before and after, with the same outline, or it is not. -/
theorem Grows.contract?_cases {h h' : Headers} (grows : h.Grows h') (id : ContractId) :
    (h.unit.contract? id = none ∧ h'.unit.contract? id = none) ∨
    ∃ c c', h.unit.contract? id = some c ∧ h'.unit.contract? id = some c' ∧
      c'.outline = c.outline := by
  have hid := grows.outline_eq id
  cases hc : h.unit.contract? id with
  | none =>
      rw [hc, Option.map_none, Option.map_eq_none_iff] at hid
      exact .inl ⟨rfl, hid⟩
  | some c =>
      rw [hc, Option.map_some, Option.map_eq_some_iff] at hid
      obtain ⟨c', hc', heq⟩ := hid
      exact .inr ⟨c, c', rfl, hc', heq⟩

theorem Grows.instancesFrom_eq {h h' : Headers} (grows : h.Grows h')
    (hsources : h'.unit.sourceList = h.unit.sourceList) {context context' : Contract}
    (hcontext : context'.outline = context.outline) :
    h'.instancesFrom context' = h.instancesFrom context := by
  funext base
  unfold instancesFrom Index.contract?
  rw [grows.contracts]
  cases h.index.contracts.find? (·.id == base) with
  | none => rfl
  | some definition =>
      obtain ⟨hc, hc'⟩ | ⟨c, c', hc, hc', heq⟩ := grows.contract?_cases base
      · rw [hc, hc']
      · simp only [hc, hc', instance?_congr grows.definitions hsources hcontext heq]

theorem Grows.instances_eq {h h' : Headers} (grows : h.Grows h')
    (hsources : h'.unit.sourceList = h.unit.sourceList) {context context' : Contract}
    (hcontext : context'.outline = context.outline) :
    h'.instances context' = h.instances context := by
  unfold instances
  rw [grows.instancesFrom_eq hsources hcontext,
    show context'.linearization = context.linearization from congrArg (·.2.2) hcontext]

theorem Grows.instancesOf_eq {h h' : Headers} (grows : h.Grows h')
    (hsources : h'.unit.sourceList = h.unit.sourceList) : h'.instancesOf = h.instancesOf := by
  funext id
  unfold instancesOf
  obtain ⟨hc, hc'⟩ | ⟨c, c', hc, hc', heq⟩ := grows.contract?_cases id
  · rw [hc, hc']
    rfl
  · rw [hc, hc', Option.map_some, grows.instances_eq hsources heq]
    rfl

/-! ## The account -/

/-- The functions of every contract are those `listed` for it, marked in their order, and its seats
lead to them. -/
structure Shows (listed : ContractId → List (Int × Function)) (h : Headers) : Prop where
  numbered : ∀ id f, h.unit.function? id = some f → f.id = id
  functions : ∀ id c, h.unit.contract? id = some c →
    c.functions.map (fun f => (h.unit.function? f).map Function.face) =
      (marked [] ((listed id).map (·.2))).map some
  seated : ∀ id d f, h.index.instance? (some id) d = some f →
    ∃ g, h.unit.function? f = some g ∧ (d, g.header) ∈ listed id
  seats : ∀ id d g, (d, g) ∈ listed id → (h.index.instance? (some id) d).isSome

variable {h h' : Headers} {listed : ContractId → List (Int × Function)}

theorem map_function?_push {β : Type} {view : Function → β} {u u' : Compilation} {f : Function}
    (added : u'.functions = u.functions.push f) {ids : List FunctionId} {views : List β}
    (h : ids.map (fun id => (u.function? id).map view) = views.map some) :
    ids.map (fun id => (u'.function? id).map view) = views.map some := by
  rw [← h]
  refine List.map_congr_left fun id hid => ?_
  have hmem : (u.function? id).map view ∈ views.map some := h ▸ List.mem_map_of_mem hid
  obtain ⟨v, -, hv⟩ := List.mem_map.1 hmem
  obtain ⟨g, hg, -⟩ := Option.map_eq_some_iff.1 hv.symm
  rw [hg, Compilation.function?_push added hg]

/-- The new function has the next number, the others keep theirs. -/
theorem numbered_push {u u' : Compilation} {f : Function}
    (added : u'.functions = u.functions.push f) (hf : f.id = u.nextFunctionId)
    (numbered : ∀ id g, u.function? id = some g → g.id = id) :
    ∀ id g, u'.function? id = some g → g.id = id := by
  rintro ⟨i⟩ g hg
  have hg' : (u.functions.push f)[i]? = some g := by
    rw [← added]
    exact hg
  rw [Array.getElem?_push] at hg'
  split at hg'
  · next hi =>
      cases hg'
      rw [hf, hi]
      rfl
  · exact numbered ⟨i⟩ g hg'

/-- One more function of a contract, marked by those before it. -/
theorem Shows.push (shows : h.Shows listed) {f : Function} {context : ContractId} {d : Int}
    {seen : List String}
    (hseen : ∀ key, key ∈ seen ↔ key ∈ (listed context).map fun entry => shadowKey entry.2)
    (hf : f.header = f)
    (added : h'.unit.functions =
      h.unit.functions.push { mark seen f with id := h.unit.nextFunctionId })
    (contracts : ∀ id, (h'.unit.contract? id).map (·.functions) =
      (h.unit.contract? id).map fun c =>
        if id = context then c.functions ++ [h.unit.nextFunctionId] else c.functions)
    (instances : h'.index.instances =
      h.index.instances.insert ⟨some context, d⟩ h.unit.nextFunctionId) :
    h'.Shows (Function.update listed context (listed context ++ [(d, f)])) := by
  have hnew : Function.face { mark seen f with id := h.unit.nextFunctionId } = mark seen f := by
    conv_rhs => rw [← hf]
    rfl
  constructor
  case numbered => exact numbered_push added rfl shows.numbered
  case functions =>
    intro id c hc
    have hfunctions := contracts id
    rw [hc, Option.map_some] at hfunctions
    obtain ⟨c', hc', heq⟩ := Option.map_eq_some_iff.1 hfunctions.symm
    have hkept := map_function?_push added (shows.functions id c' hc')
    rw [← heq]
    by_cases hid : id = context
    · subst hid
      rw [if_pos rfl, Function.update_self, List.map_append, hkept, List.map_append,
        List.map_singleton, List.map_singleton, Compilation.function?_next added, Option.map_some,
        hnew, marked_concat, List.map_append, List.map_singleton]
      congr 3
      apply mark_congr
      simpa using hseen
    · rw [if_neg hid, Function.update_of_ne hid]
      exact hkept
  case seated =>
    intro id e g hg
    simp only [Index.instance?, instances, Table.get?_insert] at hg
    split at hg
    · next heq =>
        cases hg
        cases heq
        refine ⟨_, Compilation.function?_next added, ?_⟩
        rw [Function.update_self, List.mem_append, List.mem_singleton]
        right
        exact congrArg (Prod.mk d) hf
    · obtain ⟨f', hf', hmem⟩ := shows.seated id e g hg
      refine ⟨f', Compilation.function?_push added hf', ?_⟩
      by_cases hid : id = context
      · subst hid
        rw [Function.update_self]
        exact List.mem_append_left _ hmem
      · rwa [Function.update_of_ne hid]
  case seats =>
    intro id e g hg
    simp only [Index.instance?, instances, Table.get?_insert]
    split
    · rfl
    · next hne =>
        by_cases hid : id = context
        · subst hid
          rw [Function.update_self, List.mem_append, List.mem_singleton] at hg
          rcases hg with hold | hnew
          · exact shows.seats id e g hold
          · cases hnew
            exact absurd rfl hne
        · rw [Function.update_of_ne hid] at hg
          exact shows.seats id e g hg

/-- A function outside every contract. -/
theorem Shows.pushFree (shows : h.Shows listed) {f : Function} {d : Int}
    (hf : f.id = h.unit.nextFunctionId) (added : h'.unit.functions = h.unit.functions.push f)
    (contracts : h'.unit.contracts = h.unit.contracts)
    (instances : h'.index.instances =
      h.index.instances.insert ⟨none, d⟩ h.unit.nextFunctionId) : h'.Shows listed := by
  have hcontract := Compilation.contract?_congr contracts
  have hinstance (id : ContractId) (e : Int) :
      h'.index.instance? (some id) e = h.index.instance? (some id) e := by
    simp [Index.instance?, instances]
  constructor
  case numbered => exact numbered_push added hf shows.numbered
  case functions =>
    intro id c hc
    exact map_function?_push added (shows.functions id c (hcontract ▸ hc))
  case seated =>
    intro id e g hg
    obtain ⟨f', hf', hmem⟩ := shows.seated id e g (hinstance id e ▸ hg)
    exact ⟨f', Compilation.function?_push added hf', hmem⟩
  case seats =>
    intro id e g hg
    rw [hinstance]
    exact shows.seats id e g hg

/-- The account reads the outlines of the functions. -/
theorem Shows.sameOutline (shows : h.Shows listed) {u : Compilation}
    (same : h.unit.SameOutline u) : Shows listed ⟨u, h.index⟩ := by
  have view {β : Type} {g : Function → β} (hg : ∀ f, g f.outline = g f) (id : FunctionId) :
      (u.function? id).map g = (h.unit.function? id).map g := by
    have hid := congrArg (·[id.index]?) (same.map_eq hg)
    simp only [Array.getElem?_map] at hid
    exact hid
  constructor
  case numbered =>
    intro id f hf
    have hid := view (g := Function.id) (fun _ => rfl) id
    rw [show u.function? id = some f from hf] at hid
    obtain ⟨f', hf', heq⟩ := Option.map_eq_some_iff.1 hid.symm
    exact heq.symm.trans (shows.numbered id f' hf')
  case functions =>
    intro id c hc
    have hc' : h.unit.contract? id = some c := Compilation.contract?_congr same.contracts ▸ hc
    rw [← shows.functions id c hc']
    exact List.map_congr_left fun f _ => view (fun _ => rfl) f
  case seated =>
    intro id d f hf
    obtain ⟨g, hg, hmem⟩ := shows.seated id d f hf
    have hid := view (g := Function.header) (fun _ => rfl) f
    rw [hg, Option.map_some] at hid
    obtain ⟨g', hg', heq⟩ := Option.map_eq_some_iff.1 hid
    exact ⟨g', hg', heq.symm ▸ hmem⟩
  case seats => exact shows.seats

/-! ## Steps of a build -/

/-- A build in progress that started from the first headers. -/
structure Underway (start : Headers) (listed : ContractId → List (Int × Function)) (h : Headers) :
    Prop where
  builds : start.Builds h
  sources : h.unit.sourceList = start.unit.sourceList
  shows : h.Shows listed

end Headers

/-- The headers of a context in progress: its functions so far are `gathered`, and their keys are
those that are known. -/
structure ContextHeaders.Underway (start : Headers) (listed : ContractId → List (Int × Function))
    (context : ContractId) (gathered : List (Int × Function)) (s : ContextHeaders) : Prop where
  headers : start.Underway (Function.update listed context gathered) s.headers
  seen : ∀ key, key ∈ s.seen ↔ key ∈ gathered.map fun entry => shadowKey entry.2

theorem functionOf_header (n : Node) (context declarer : Option String) (files : List String)
    (file : String) :
    (functionOf n context declarer files file).header = functionOf n context declarer files file :=
  rfl

/-- An instance is left out, or one function is added to its context and seated. -/
theorem addInstance_adds (context base : Contract) (file : String) (s : ContextHeaders) (d : Int) :
    (s.headers.instance? context base file d = none ∧ addInstance context base file s d = s) ∨
    ∃ f, s.headers.instance? context base file d = some f ∧ f.header = f ∧
      (addInstance context base file s d).headers.unit.functions =
        s.headers.unit.functions.push
          { mark s.seen f with id := s.headers.unit.nextFunctionId } ∧
      (addInstance context base file s d).headers.unit.sourceList = s.headers.unit.sourceList ∧
      (addInstance context base file s d).headers.index.instances =
        s.headers.index.instances.insert ⟨some context.id, d⟩ s.headers.unit.nextFunctionId ∧
      ∀ key, key ∈ (addInstance context base file s d).seen ↔ key = shadowKey f ∨ key ∈ s.seen := by
  unfold addInstance Headers.instance?
  cases hn : s.headers.index.definitions.get? d with
  | none => exact .inl ⟨rfl, rfl⟩
  | some n =>
      rw [Option.bind_some]
      have hheader := functionOf_header n (some context.name) (some base.name)
        s.headers.unit.sourceList file
      dsimp only
      generalize functionOf n (some context.name) (some base.name) s.headers.unit.sourceList file = f
        at hheader
      split
      · exact .inl ⟨rfl, rfl⟩
      · refine .inr ⟨f, rfl, hheader, rfl, rfl, rfl, fun key => ?_⟩
        dsimp only
        split
        · next hknown =>
            rw [List.contains_iff_mem] at hknown
            constructor
            · exact Or.inr
            · rintro (rfl | hkey)
              · exact hknown
              · exact hkey
        · exact List.mem_cons

variable {start : Headers} {listed : ContractId → List (Int × Function)}

theorem addInstance_underway {context base context' base' : Contract} {file : String}
    {s : ContextHeaders} {gathered : List (Int × Function)} {d : Int}
    (underway : s.Underway start listed context.id gathered)
    (hcontext : context.outline = context'.outline) (hbase : base.outline = base'.outline) :
    (addInstance context base file s d).Underway start listed context.id
      (gathered ++ ((start.instance? context' base' file d).map (d, ·)).toList) := by
  have building := underway.headers
  rw [← Headers.instance?_congr building.builds.grows.definitions building.sources hcontext hbase]
  obtain ⟨hnone, heq⟩ | ⟨f, hf, hheader, added, sources, instances, hseen⟩ :=
    addInstance_adds context base file s d
  · rw [hnone, heq]
    simpa using underway
  · obtain ⟨-, hsame⟩ | ⟨_, _, -, -, -, -, -, contracts, builds⟩ :=
      addInstance_pushes context base file s d
    · -- A function was added, so the headers cannot be the same.
      rw [hsame] at added
      have hsize := congrArg Array.size added
      simp at hsize
    · rw [hf, Option.map_some, Option.toList_some]
      refine ⟨⟨building.builds.trans builds, sources.trans building.sources, ?_⟩, fun key => ?_⟩
      · have hkeys : ∀ key, key ∈ s.seen ↔ key ∈ (Function.update listed context.id gathered
            context.id).map fun entry => shadowKey entry.2 := by
          rw [Function.update_self]
          exact underway.seen
        have pushed := building.shows.push hkeys hheader added contracts instances
        rwa [Function.update_self, Function.update_idem] at pushed
      · rw [hseen, underway.seen, List.map_append, List.mem_append, List.map_singleton,
          List.mem_singleton, or_comm]

theorem addBase_underway {context context' : Contract} {s : ContextHeaders}
    {gathered : List (Int × Function)} {base : ContractId}
    (underway : s.Underway start listed context.id gathered)
    (hcontext : context.outline = context'.outline) :
    (addBase context s base).Underway start listed context.id
      (gathered ++ start.instancesFrom context' base) := by
  have building := underway.headers
  rw [← building.builds.grows.instancesFrom_eq building.sources hcontext]
  unfold addBase Headers.instancesFrom
  cases hdefinition : s.headers.index.contract? base with
  | none => simpa using underway
  | some definition =>
      cases hcontract : s.headers.unit.contract? base with
      | none => simpa using underway
      | some contract =>
          obtain ⟨contract', -, heq⟩ := building.builds.grows.contract_from hcontract
          simp only
          rw [List.filterMap_eq_flatMap_toList,
            Headers.instance?_congr building.builds.grows.definitions building.sources hcontext heq]
          exact foldl_gathers (P := fun ds (t : ContextHeaders) =>
            t.Underway start listed context.id ds) _ underway
            fun _ _ _ _ ht => addInstance_underway ht hcontext heq

/-- A context is given its instances. -/
theorem addContext_underway (numbered : start.Numbered) {h : Headers} {id : ContractId}
    (underway : start.Underway listed h) (hlisted : listed id = []) :
    start.Underway (Function.update listed id (start.instancesOf id)) (addContext h id) := by
  unfold addContext Headers.instancesOf
  obtain ⟨hnone, hnone'⟩ | ⟨context', context, hcontext', hcontext, heq⟩ :=
    underway.builds.grows.contract?_cases id
  · rw [hnone, hnone', Option.map_none, Option.getD_none, ← hlisted, Function.update_eq_self]
    exact underway
  · have hid : context.id = id := underway.builds.grows.numbered numbered id context hcontext
    have hlinear : context'.linearization = context.linearization := (congrArg (·.2.2) heq).symm
    -- Nothing was listed for the context before, so that the keys start empty with the functions.
    have empty : ContextHeaders.Underway start listed context.id [] ⟨h, []⟩ := by
      refine ⟨?_, by simp⟩
      rw [hid, ← hlisted, Function.update_eq_self]
      exact underway
    rw [hcontext, hcontext', Option.map_some, Option.getD_some, ← hid, Headers.instances, hlinear]
    refine (foldl_gathers (f := addBase context) (P := fun ds (t : ContextHeaders) =>
      t.Underway start listed context.id ds) context.linearization empty ?_).headers
    intro _ _ _ _ ht
    exact addBase_underway ht heq

/-- The contracts are given their instances one after another. -/
theorem addContexts_underway (numbered : start.Numbered) {contracts : List ContractDefinition}
    {h : Headers} (underway : start.Underway listed h) (hnodup : (contracts.map (·.id)).Nodup)
    (hlisted : ∀ c ∈ contracts, listed c.id = []) :
    start.Underway
      (fun id => if id ∈ contracts.map (·.id) then start.instancesOf id else listed id)
      (contracts.foldl (fun h c => addContext h c.id) h) := by
  induction contracts generalizing listed h with
  | nil => simpa using underway
  | cons c rest ih =>
      rw [List.foldl_cons]
      rw [List.map_cons, List.nodup_cons] at hnodup
      have hrest := ih (addContext_underway numbered underway (hlisted c List.mem_cons_self))
        hnodup.2 fun d hd => by
          have hne : d.id ≠ c.id := fun heq => hnodup.1 (heq ▸ List.mem_map_of_mem hd)
          rw [Function.update_of_ne hne]
          exact hlisted d (List.mem_cons_of_mem c hd)
      convert hrest using 2 with id
      by_cases hid : id = c.id
      · subst hid
        simp [hnodup.1]
      · simp [hid]

theorem addFree_underway {h : Headers} (underway : start.Underway listed h) (free : FreeFunction) :
    start.Underway listed (addFree h free) := by
  have grows := addFree_grows h free
  unfold addFree at grows ⊢
  cases hn : h.index.definitions.get? free.definition with
  | none => exact underway
  | some n =>
      rw [hn] at grows
      refine ⟨underway.builds.trans ⟨grows, ⟨_, rfl⟩, rfl, rfl, rfl⟩, underway.sources,
        underway.shows.pushFree (f := ?f) ?id ?added rfl rfl⟩
      case added => rfl
      case id => rfl

/-- Headers before their functions are built. -/
structure Headers.Bare (h : Headers) : Prop where
  numbered : h.Numbered
  listed : (h.index.contracts.map (·.id)).Nodup
  functions : h.unit.functions = #[]
  contracts : ∀ id c, h.unit.contract? id = some c →
    c.functions = [] ∧ ∃ d ∈ h.index.contracts, d.id = id
  instances : ∀ seat, h.index.instances.get? seat = none

/-- A build gives every contract the instances of what its linearization leads to. -/
theorem buildHeaders_underway {h : Headers} (bare : h.Bare) :
    h.Underway h.instancesOf (buildHeaders h) := by
  have hfunction (id : FunctionId) : h.unit.function? id = none := by
    simp [Compilation.function?, bare.functions]
  have start : h.Underway (fun _ => []) h := by
    refine ⟨.refl h, rfl, ?numbered, ?functions, ?seated, ?seats⟩
    case numbered =>
      intro id f hf
      rw [hfunction] at hf
      cases hf
    case functions =>
      intro id c hc
      rw [(bare.contracts id c hc).1]
      rfl
    case seated =>
      intro id d f hf
      rw [Index.instance?, bare.instances] at hf
      cases hf
    case seats =>
      intro id d f hf
      cases hf
  have contexts := addContexts_underway bare.numbered start bare.listed fun _ _ => rfl
  have hall : (fun id => if id ∈ h.index.contracts.map (·.id) then h.instancesOf id else []) =
      h.instancesOf := by
    funext id
    split
    · rfl
    · next hunlisted =>
        rw [Headers.instancesOf]
        cases hc : h.unit.contract? id with
        | none => rfl
        | some c => exact absurd (List.mem_map.2 (bare.contracts id c hc).2) hunlisted
  rw [hall] at contexts
  exact foldl_keeps contexts fun _ free _ ht => addFree_underway ht free

end Solidity

end ContractCalls
