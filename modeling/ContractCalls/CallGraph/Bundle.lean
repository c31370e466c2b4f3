/-
Everything reachable from one function.
-/
import ContractCalls.CallGraph.Target
import ContractCalls.Ordered

namespace ContractCalls

/-- Why a target has no code to follow, in the order of the words for it. -/
inductive LeafKind where
  /-- A function without a body. -/
  | abstract
  | solidity
  | unknown
  | stateVar
deriving DecidableEq, Repr, Ord

/-- The word for a kind of leaf. -/
def LeafKind.render : LeafKind → String
  | .abstract => "abstract"
  | .solidity => "solidity"
  | .unknown => "unknown"
  | .stateVar => "variable"

/-- A call target without code. -/
structure Leaf where
  edge : EdgeKind
  kind : LeafKind
  label : String
deriving DecidableEq, Repr

/-- The order of leaves: by edge, kind and text. -/
def Leaf.order : Ordered.Comparison Leaf :=
  Ordered.lexically (Ordered.comparing edge)
    (Ordered.lexically (Ordered.comparing kind) (Ordered.comparing label))

/-- Everything reachable from an entry function. -/
structure Bundle where
  entry : FunctionId
  /-- The functions reached, in order of discovery, with the edge of the discovery. -/
  reachable : List (EdgeKind × FunctionId)
  /-- The leaves reached, ascending. -/
  leaves : List Leaf
deriving DecidableEq, Repr

namespace Bundle

/-- A call to an implemented function. -/
structure Step where
  edge : EdgeKind
  uid : String
  id : FunctionId

/-- A call target is a function to follow or a leaf. -/
def classify (u : Compilation) (target : CallTarget) : Step ⊕ Leaf :=
  let leaf := fun (kind : LeafKind) (label : String) => Sum.inr ⟨target.edge, kind, label⟩
  match target.kind, target.target with
  | .function, .function id =>
      match u.function? id with
      | some callee =>
          if callee.isImplemented then .inl ⟨target.edge, callee.uid, id⟩
          else leaf .abstract callee.displayName
      | none => leaf .unknown target.label
  | .stateVar, _ => leaf .stateVar target.label
  | .solidity, _ => leaf .solidity target.label
  | _, _ => leaf .unknown target.label

/-- The functions a function leads to, by edge and uid. -/
def stepsFrom (u : Compilation) (filters : CallFilters) (f : Function) : List Step :=
  Ordered.sort
    (Ordered.lexically (Ordered.comparing Step.edge) (Ordered.comparing Step.uid))
    ((u.keptTargets filters f).filterMap fun target => (classify u target).getLeft?)

/-- The leaves of a function. -/
def leavesOf (u : Compilation) (filters : CallFilters) (f : Function) : List Leaf :=
  (u.keptTargets filters f).filterMap fun target => (classify u target).getRight?

/-- A walk over the call graph. -/
structure Walk where
  /-- Uids that were reached. -/
  seen : List String
  /-- Functions reached, last first. -/
  reached : List (EdgeKind × FunctionId)
  leaves : List Leaf
  /-- Functions still to be looked at, next first. -/
  pending : List FunctionId

/-- Takes a step unless its function was reached before. -/
def Walk.take (w : Walk) (step : Step) : Walk :=
  if w.seen.contains step.uid then w
  else
    { w with
      seen := step.uid :: w.seen
      reached := (step.edge, step.id) :: w.reached
      pending := step.id :: w.pending }

/-- Looks at a function: takes its leaves, then its steps in order. -/
def Walk.visit (u : Compilation) (filters : CallFilters) (w : Walk) (f : Function) : Walk :=
  let leaves := (leavesOf u filters f).foldl (fun set l => Ordered.insert Leaf.order l set) w.leaves
  (stepsFrom u filters f).foldl take { w with leaves }

/-- Looks at pending functions, the latest first, until none is left. -/
def Walk.run (u : Compilation) (filters : CallFilters) : (fuel : Nat) → Walk → Walk
  | 0, w => w
  | fuel + 1, w =>
      match w.pending with
      | [] => w
      | id :: pending =>
          let w := { w with pending }
          match u.function? id with
          | some f => run u filters fuel (w.visit u filters f)
          | none => run u filters fuel w

end Bundle

/-- Follows the kept calls from a function until no new implemented function is found.  A function
is pending once per uid, so there are no more rounds than functions and the entry. -/
def Compilation.bundle (u : Compilation) (entry : FunctionId) (filters : CallFilters) :
    Except ModelError Bundle :=
  match u.function? entry with
  | none => .error (.resolution ("no function with id " ++ entry.render))
  | some root =>
      let walk := Bundle.Walk.run u filters (u.functions.size + 1) ⟨[root.uid], [], [], [entry]⟩
      .ok ⟨entry, walk.reached.reverse, walk.leaves⟩

end ContractCalls
