import ContractCalls.Body.Basic
import ContractCalls.Body.Dependency
import ContractCalls.Body.Draft
import ContractCalls.Body.SingleAssignment
import ContractCalls.CallGraph.Bundle
import ContractCalls.CallGraph.Edge
import ContractCalls.CallGraph.Grouping
import ContractCalls.CallGraph.Target
import ContractCalls.CommandLine.Arguments
import ContractCalls.CommandLine.Failure
import ContractCalls.CommandLine.FileTree
import ContractCalls.CommandLine.Host
import ContractCalls.CommandLine.Place
import ContractCalls.CommandLine.Run
import ContractCalls.CommandLine.Workspace
import ContractCalls.Compilation
import ContractCalls.Constant
import ContractCalls.Contract
import ContractCalls.Decimal.Binary64
import ContractCalls.Error
import ContractCalls.Exchange.Body
import ContractCalls.Exchange.Compilation
import ContractCalls.Exchange.Error
import ContractCalls.Exchange.Field
import ContractCalls.Exchange.Ty
import ContractCalls.Function
import ContractCalls.Json.Basic
import ContractCalls.Json.Parser
import ContractCalls.Json.Printer
import ContractCalls.Main
import ContractCalls.Operand.Arena
import ContractCalls.Operand.Basic
import ContractCalls.Operation
import ContractCalls.Ordered
import ContractCalls.Output.BundleText
import ContractCalls.Output.Dot
import ContractCalls.Output.FileName
import ContractCalls.Output.Indented
import ContractCalls.Output.Listing
import ContractCalls.Output.Report
import ContractCalls.Pipeline
import ContractCalls.Solidity.Declaration
import ContractCalls.Solidity.Decode
import ContractCalls.Solidity.Header
import ContractCalls.Solidity.Index
import ContractCalls.Solidity.Loader
import ContractCalls.Solidity.Lowering
import ContractCalls.Solidity.Node
import ContractCalls.Solidity.Registration
import ContractCalls.Solidity.Resolution
import ContractCalls.Solidity.SourceUnit
import ContractCalls.Solidity.Syntax
import ContractCalls.Source
import ContractCalls.Table
import ContractCalls.Text.Blank
import ContractCalls.Text.Digits
import ContractCalls.Text.Lines
import ContractCalls.Text.Word
import ContractCalls.Ty.Basic
import ContractCalls.Ty.Parser
import ContractCalls.Vyper.CallText
import ContractCalls.Vyper.Compiler
import ContractCalls.Vyper.Declaration
import ContractCalls.Vyper.Decode
import ContractCalls.Vyper.Layout
import ContractCalls.Vyper.Loader
import ContractCalls.Vyper.Lowering
import ContractCalls.Vyper.Module
import ContractCalls.Vyper.Node
import ContractCalls.Vyper.Operator
import ContractCalls.Vyper.Outline
import ContractCalls.Vyper.Source
import ContractCalls.Vyper.SourceOnly
import ContractCalls.Vyper.Syntax
import ContractCalls.Vyper.Version
import ContractCalls.Proofs.Body.Graph
import ContractCalls.Proofs.Body.Postorder
import ContractCalls.Proofs.Operand.Arena
import ContractCalls.Proofs.Operand.Chain
import ContractCalls.Proofs.Outcome
import ContractCalls.Proofs.Body.Execution
import ContractCalls.Proofs.SingleAssignment.Growth
import ContractCalls.Proofs.SingleAssignment.Invariant
import ContractCalls.Proofs.SingleAssignment.Reading
import ContractCalls.Proofs.SingleAssignment.Renaming
import ContractCalls.Proofs.SingleAssignment.Form
import ContractCalls.Proofs.SingleAssignment.Meaning
import ContractCalls.Proofs.CallGraph.Bundle
import ContractCalls.Proofs.Body.Draft
import ContractCalls.Proofs.Solidity.Lowering
import ContractCalls.Proofs.Vyper.Lowering
import ContractCalls.Proofs.Lowering
import ContractCalls.Proofs.Body.Linear
import ContractCalls.Proofs.Solidity.Legacy.Image
import ContractCalls.Proofs.Solidity.Linear
import ContractCalls.Proofs.Body.Walk
import ContractCalls.Proofs.Body.Program
import ContractCalls.Proofs.Body.Stage
import ContractCalls.Proofs.Body.Layout
import ContractCalls.Proofs.Solidity.Program
import ContractCalls.Proofs.Compilation
import ContractCalls.Proofs.Body.Calls
import ContractCalls.Proofs.Vyper.Calls
import ContractCalls.Proofs.Vyper.Evaluation
import ContractCalls.Proofs.Vyper.Module
import ContractCalls.Proofs.Solidity.Registration
import ContractCalls.Proofs.Solidity.Instances
import ContractCalls.Proofs.Solidity.Super
import ContractCalls.Proofs.Solidity.Legacy.Parts
import ContractCalls.Proofs.CallGraph.Edge
import ContractCalls.Proofs.CallGraph.Target
import ContractCalls.Proofs.Body.Dependency
import ContractCalls.Proofs.Operand.Faithful
import ContractCalls.Proofs.SingleAssignment.Dependency
import ContractCalls.Proofs.SingleAssignment.Erasure
import ContractCalls.Proofs.SingleAssignment.Alias
import ContractCalls.Proofs.SingleAssignment.Projection
import ContractCalls.Proofs.Solidity.Calls
import ContractCalls.Proofs.Solidity.Evaluation
import ContractCalls.Proofs.Solidity.Legacy.Reading
import ContractCalls.Proofs.Solidity.Legacy.Lowering
import ContractCalls.Proofs.Attempt
import ContractCalls.Proofs.Pipeline
import ContractCalls.Proofs.Text.Lines
import ContractCalls.Proofs.Vyper.Retarget
import ContractCalls.Proofs.CommandLine.FileTree
import ContractCalls.Proofs.Output.FileName
import ContractCalls.Proofs.CommandLine.BundleFiles
import ContractCalls.Proofs.Solidity.Copies
import ContractCalls.Proofs.Solidity.Gathering
import ContractCalls.Proofs.Solidity.Retry
import ContractCalls.Proofs.Body.Refusal
import ContractCalls.Proofs.Solidity.Target
import ContractCalls.Proofs.Solidity.Refusal
import ContractCalls.Proofs.Vyper.Target
import ContractCalls.Proofs.Vyper.Refusal
import ContractCalls.Proofs.Refusal
import ContractCalls.Proofs.CallGraph.Reorder
import ContractCalls.Proofs.CallGraph.Record
import ContractCalls.Proofs.Solidity.Ending
import ContractCalls.Proofs.Solidity.Dispatch
import ContractCalls.Proofs.Text.Digits
import ContractCalls.Proofs.Text.Blank
import ContractCalls.Proofs.Constant
import ContractCalls.Proofs.Ty.Location
import ContractCalls.Proofs.Ty.Parser
import ContractCalls.Proofs.Ty.Signature
import ContractCalls.Proofs.Vyper.Outline
import ContractCalls.Proofs.Vyper.SourceOnly
import ContractCalls.Proofs.Vyper.Scan
import ContractCalls.Proofs.Vyper.Comment
import ContractCalls.Proofs.Operand.InPlace
import ContractCalls.Proofs.Operand.History
import ContractCalls.Proofs.Ordered.Write
import ContractCalls.Proofs.Output.Quoting
import ContractCalls.Proofs.Output.Graph
import ContractCalls.Proofs.Output.Statement
import ContractCalls.Proofs.Operand.Cycle
import ContractCalls.Proofs.Vyper.Version
import ContractCalls.Proofs.Source
import ContractCalls.Proofs.CallGraph.Alike
import ContractCalls.Proofs.CommandLine.Prune
import ContractCalls.Proofs.Body.Edit
import ContractCalls.Proofs.Body.Scripted
import ContractCalls.Proofs.Solidity.Scripted
import ContractCalls.Proofs.Vyper.Scripted
import ContractCalls.Proofs.Operand.Numbering
import ContractCalls.Proofs.Body.Numbering
import ContractCalls.Proofs.Numbering
import ContractCalls.Proofs.Solidity.Numbering
import ContractCalls.Proofs.Vyper.Numbering
import ContractCalls.Proofs.Loading
import ContractCalls.Proofs.Output.Report
