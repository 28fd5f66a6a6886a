import LineScript.Main
import LineScript.Text.Utf8
import LineScript.Proofs.Abandonment
import LineScript.Proofs.Action
import LineScript.Proofs.Atomicity
import LineScript.Proofs.Batch
import LineScript.Proofs.Classification
import LineScript.Proofs.Conservation
import LineScript.Proofs.ControlFlow
import LineScript.Proofs.Correspondence
import LineScript.Proofs.Decimals
import LineScript.Proofs.Following
import LineScript.Proofs.FunctionIndex
import LineScript.Proofs.Handover
import LineScript.Proofs.ImmediateCall
import LineScript.Proofs.Insertion
import LineScript.Proofs.Journal
import LineScript.Proofs.LineEndings
import LineScript.Proofs.Loading
import LineScript.Proofs.Lockstep
import LineScript.Proofs.Meaning
import LineScript.Proofs.Mode
import LineScript.Proofs.Nesting
import LineScript.Proofs.Positions
import LineScript.Proofs.Reachable
import LineScript.Proofs.Recursion
import LineScript.Proofs.Remainder
import LineScript.Proofs.Repetition
import LineScript.Proofs.Rest
import LineScript.Proofs.Resumption
import LineScript.Proofs.SettingsDocument
import LineScript.Proofs.ShellUse
import LineScript.Proofs.Simulation
import LineScript.Proofs.SingleSteps
import LineScript.Proofs.StepLimit
import LineScript.Proofs.Stepping
import LineScript.Proofs.Structured
import LineScript.Proofs.Table
import LineScript.Proofs.Termination
import LineScript.Proofs.Transparency
import LineScript.Proofs.Words
import LineScript.Proofs.Yaml.Entries
import LineScript.Proofs.Yaml.Mappings
import LineScript.Proofs.Yaml.Scanning
import LineScript.Proofs.Yaml.Spelling
