import FluentChain.Main
import FluentChain.Proofs.Ensures
import FluentChain.Proofs.Walk.Invariant
import FluentChain.Proofs.Walk.Session
import FluentChain.Proofs.Syntax.Forest
import FluentChain.Proofs.Walk.Growth
import FluentChain.Proofs.Walk.Role
import FluentChain.Proofs.Record.Fields
import FluentChain.Proofs.Record.Flattened
import FluentChain.Proofs.Record.Indexed
import FluentChain.Proofs.Walk.Records
import FluentChain.Proofs.Walk.Chain
import FluentChain.Proofs.Walk.Descent
import FluentChain.Proofs.Walk.Assignment
import FluentChain.Proofs.Syntax.Lowered
import FluentChain.Proofs.Walk.Exact
import FluentChain.Proofs.Merge.Order
import FluentChain.Proofs.Alike.Swap
import FluentChain.Proofs.Walk.Evaluation
import FluentChain.Proofs.Walk.Suppression
import FluentChain.Proofs.Walk.Closed
import FluentChain.Proofs.Build.Operation
import FluentChain.Proofs.Type.Identity
import FluentChain.Proofs.Record.Selection
import FluentChain.Proofs.Walk.Outcome
import FluentChain.Proofs.Walk.NamedField
import FluentChain.Proofs.Role.Methods
import FluentChain.Proofs.Role.Classification
import FluentChain.Proofs.Diagnostic.Report
import FluentChain.Proofs.Type.Table
import FluentChain.Proofs.Build.Symbols
import FluentChain.Proofs.Syntax.Transcribed
import FluentChain.Proofs.Walk.Scope
import FluentChain.Proofs.Type.Grammar
import FluentChain.Proofs.Record.Tag
import FluentChain.Proofs.Record.Scan
import FluentChain.Proofs.Record.Alias
import FluentChain.Proofs.Build.Files
import FluentChain.Proofs.Role.Types
import FluentChain.Proofs.Chain.Stack
import FluentChain.Proofs.Chain.Environments
import FluentChain.Proofs.Chain.Arguments
import FluentChain.Proofs.Syntax.Typed
