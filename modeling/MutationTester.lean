import MutationTester.Main
import MutationTester.Sandbox.Scripted
import MutationTester.Storage.Hierarchy
import MutationTester.Proofs.Program.Editing
import MutationTester.Proofs.Build.Linking
import MutationTester.Proofs.Build.Incremental
import MutationTester.Proofs.Build.Variants
import MutationTester.Proofs.Build.Soundness
import MutationTester.Proofs.Build.Symbols
import MutationTester.Proofs.Build.Acceptance
import MutationTester.Proofs.Machine.Steps
import MutationTester.Proofs.Machine.Recording
import MutationTester.Proofs.Machine.Patience
import MutationTester.Proofs.Machine.Lockstep
import MutationTester.Proofs.Machine.Invisibility
import MutationTester.Proofs.Machine.Depths
import MutationTester.Proofs.Machine.Guarded
import MutationTester.Proofs.Testing.Phases
import MutationTester.Proofs.Testing.Discovery
import MutationTester.Proofs.Testing.Assembly
import MutationTester.Proofs.Testing.Campaigns
import MutationTester.Proofs.Testing.TestBodies
import MutationTester.Proofs.Testing.Faithful
import MutationTester.Proofs.Testing.Selection
import MutationTester.Proofs.Testing.MutantVerdicts
import MutationTester.Proofs.Testing.Agreement
import MutationTester.Proofs.Testing.BuiltMutants
import MutationTester.Proofs.Testing.Answers
import MutationTester.Proofs.Testing.Workers
import MutationTester.Proofs.Testing.Pristine
import MutationTester.Proofs.Coverage.Encoding
import MutationTester.Proofs.Coverage.Merging
import MutationTester.Proofs.Json.Reading
import MutationTester.Proofs.Json.Truncation
import MutationTester.Proofs.Json.Decoding
import MutationTester.Proofs.Sandbox.Kinds
import MutationTester.Proofs.Sandbox.Truncation
import MutationTester.Proofs.Decimal.Doubles
import MutationTester.Proofs.Config.Budget
import MutationTester.Proofs.Testing.Failures
import MutationTester.Proofs.Testing.Detection
import MutationTester.Proofs.Testing.Widening
import MutationTester.Proofs.Testing.Interleavings
import MutationTester.Proofs.Testing.Assignment
import MutationTester.Proofs.Testing.Turns
import MutationTester.Proofs.Testing.Baselines
import MutationTester.Proofs.Testing.Results
import MutationTester.Proofs.Decimal.Exponents
import MutationTester.Proofs.Json.Keeping
import MutationTester.Proofs.Program.Encoding
import MutationTester.Proofs.Report.Encoding
import MutationTester.Proofs.CommandLine.Sessions
import MutationTester.Proofs.Machine.Traces
import MutationTester.Proofs.Testing.FirstKill
import MutationTester.Proofs.Machine.RaisedLimits
import MutationTester.Proofs.Machine.Termination
import MutationTester.Proofs.Machine.Nesting
import MutationTester.Proofs.Machine.Printing
import MutationTester.Proofs.Mutation.Tokens
import MutationTester.Proofs.Mutation.Identifiers
import MutationTester.Proofs.Testing.ReportedIds
import MutationTester.Proofs.Testing.Histories
import MutationTester.Proofs.Decimal.Words
import MutationTester.Proofs.Report.References
import MutationTester.Proofs.Testing.Ranges
import MutationTester.Proofs.Program.InstructionTexts
import MutationTester.Proofs.Text.Alignments
import MutationTester.Proofs.Text.Lines
import MutationTester.Proofs.Program.Listings
import MutationTester.Proofs.Testing.MutantDiffs
import MutationTester.Proofs.Storage.ModuleLists
