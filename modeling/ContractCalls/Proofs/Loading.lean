/-
# Numbers in whatever is loaded

A caller of either front end calls its steps in any order and goes on after
failures; a source file is built at one go.  Whatever comes of it is
`WellNumbered`, also where bodies were given up half-way.
-/
import ContractCalls.Proofs.Solidity.Numbering
import ContractCalls.Proofs.Vyper.Numbering

namespace ContractCalls

/-- The compilations that callers come by: those of a loader after any calls, whether these succeed
or fail, and those that are built of a source file. -/
inductive Loaded : Compilation → Prop where
  | solidity (target : String) (sources : List Solidity.SourceUnit) (policy : FailurePolicy)
      (calls : List Solidity.Call) :
      Loaded (Solidity.Call.afterAll calls (.new target sources policy)).unit
  | vyper (target contractName file source : String) (tree : Json) (policy : FailurePolicy)
      (calls : List Vyper.Call) :
      Loaded (Vyper.Call.afterAll calls
        (.new target contractName file source tree policy)).unit
  | source {s : Vyper.Source} {options : Vyper.Options} {policy : FailurePolicy}
      {answer : Except FrontEndError Json} {u : Compilation} :
      s.build options policy answer = .ok u → Loaded u

variable {u : Compilation}

theorem Loaded.wellNumbered (h : Loaded u) : u.WellNumbered := by
  cases h with
  | solidity target sources policy calls =>
      exact Solidity.Loader.wellNumbered_calls target sources policy calls
  | vyper target contractName file source tree policy calls =>
      exact Vyper.Call.numbers_afterAll target contractName file source tree policy calls
  | source hbuild => exact Vyper.Source.numbers_build hbuild

/-- Functions carry the ids they are found under. -/
theorem Loaded.idsHold (h : Loaded u) : u.IdsHold := h.wellNumbered.ids

/-- Wherever the loading stopped, no two operands of one family that rename nothing have one number
in all bodies of the compilation, and the counters are above every number in use. -/
theorem loaded_uniquelyNumbered (h : Loaded u) : u.UniquelyNumbered :=
  h.wellNumbered.toUniquelyNumbered

namespace Vyper

/-- The tree of `not True`. -/
def negation : Json :=
  .object [("ast_type", .string "UnaryOp"), ("op", .object [("ast_type", .string "Not")]),
    ("operand", .object [("ast_type", .string "NameConstant"), ("value", .bool true)])]

/-- The tree of a function whose body is an expression. -/
def evaluation (name : String) (value : Json) : Json :=
  .object [("ast_type", .string "FunctionDef"),
    ("body", .array [.object [("ast_type", .string "Expr"), ("value", value)]]),
    ("name", .string name)]

/-- What a compiler says of a module whose second function lacks an operand. -/
def interruptedAnswer : Json :=
  .object [("sources", .object [("m.vy", .object [("ast", .object [("ast_type", .string "Module"),
    ("body", .array [evaluation "first" negation,
      evaluation "second" (.object [("ast_type", .string "BinOp"), ("left", negation)]),
      evaluation "third" negation])])])])]

end Vyper

/-- The second body takes a number and is given up. -/
theorem interrupted_uniquelyNumbered : ∃ u : Compilation,
    (⟨"m.vy", ""⟩ : Vyper.Source).build .default .collectAndContinue (.ok Vyper.interruptedAnswer) =
      .ok u ∧ Loaded u ∧
    u.functions.toList.map (·.body.isSome) = [true, false, true] ∧ u.counters = ⟨3, 0, 0⟩ ∧
    u.UniquelyNumbered := by
  have hrun : ((⟨"m.vy", ""⟩ : Vyper.Source).build .default .collectAndContinue
      (.ok Vyper.interruptedAnswer)).toOption.any (fun u =>
        u.functions.toList.map (·.body.isSome) == [true, false, true] &&
          u.counters == ⟨3, 0, 0⟩) = true := by decide +kernel
  cases hbuild : (⟨"m.vy", ""⟩ : Vyper.Source).build .default .collectAndContinue
      (.ok Vyper.interruptedAnswer) with
  | error e =>
      rw [hbuild] at hrun
      cases hrun
  | ok u =>
      rw [hbuild] at hrun
      obtain ⟨hbodies, hcounters⟩ := Bool.and_eq_true_iff.mp hrun
      exact ⟨u, rfl, .source hbuild, beq_iff_eq.mp hbodies, beq_iff_eq.mp hcounters,
        loaded_uniquelyNumbered (.source hbuild)⟩

end ContractCalls
