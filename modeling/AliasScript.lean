import AliasScript.Main
import AliasScript.Run.Embed
import AliasScript.Proofs.Follow
import AliasScript.Proofs.Changes
import AliasScript.Proofs.Calls
import AliasScript.Proofs.Finishing
import AliasScript.Proofs.Scripted
import AliasScript.Proofs.Numeral
import AliasScript.Proofs.Decimals
import AliasScript.Proofs.Shape
import AliasScript.Proofs.RawTree
import AliasScript.Proofs.Safe
import AliasScript.Proofs.Running
import AliasScript.Proofs.Reachable
import AliasScript.Proofs.Meaning
import AliasScript.Proofs.Unchanged
import AliasScript.Proofs.Plain
import AliasScript.Proofs.Writing
import AliasScript.Proofs.FailedCalls
import AliasScript.Proofs.Aliases
import AliasScript.Proofs.Materialized
import AliasScript.Proofs.Tidy
import AliasScript.Proofs.Slots
import AliasScript.Proofs.Assigning
import AliasScript.Proofs.Edits
import AliasScript.Proofs.Locality
import AliasScript.Proofs.ByLine
import AliasScript.Proofs.Ahead
import AliasScript.Proofs.Lines
import AliasScript.Proofs.LineRuns
import AliasScript.Proofs.ReadBack
import AliasScript.Proofs.Laid
import AliasScript.Proofs.ListTargets
import AliasScript.Proofs.WritingTwice
import AliasScript.Proofs.Caret
import AliasScript.Proofs.Prompt
import AliasScript.Proofs.TwinRuns
import AliasScript.Proofs.Walks
import AliasScript.Proofs.Printing
import AliasScript.Proofs.Sequences
import AliasScript.Proofs.Leaves
import AliasScript.Proofs.FirstFault
import AliasScript.Proofs.Answers
import AliasScript.Proofs.Removing
