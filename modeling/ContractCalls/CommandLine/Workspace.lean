/-
Runs in memory: the host that works on a file tree and keeps what is printed.
-/
import ContractCalls.CommandLine.FileTree

namespace ContractCalls.CommandLine

/-- A file tree, and what was printed so far. -/
structure Workspace where
  tree : FileTree
  stdout : String
  stderr : String

namespace Workspace

/-- A workspace before a run. -/
def start (tree : FileTree) : Workspace := ⟨tree, "", ""⟩

/-- Changes the tree; the outcome says whether that worked. -/
def change (f : FileTree → Except SystemError Unit × FileTree) :
    StateM Workspace (Except SystemError Unit) := fun w =>
  let (outcome, tree) := f w.tree
  (outcome, { w with tree })

/-- The host that runs on a workspace; `compile` stands for the compilers in it. -/
def host (compile : FileTree → (binary request : String) → Except SystemError ProgramOutput) :
    Host (StateM Workspace) where
  isFile path := return (← get).tree.isFile path
  read path := return (← get).tree.read path
  write path text := change fun t => t.settle (t.write path text)
  makeDirectories path := change (·.makeDirectories path)
  compile binary request := return compile (← get).tree binary request
  print text := modify fun w => { w with stdout := w.stdout ++ text }
  note text := modify fun w => { w with stderr := w.stderr ++ text }

end Workspace

end ContractCalls.CommandLine
