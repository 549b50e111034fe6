import Rewrap.Action.World
import Rewrap.Main
import Rewrap.Proofs.Edit.Cuts
import Rewrap.Proofs.Edit.Splicing
import Rewrap.Proofs.Edit.Reordering
import Rewrap.Proofs.Edit.Shifting
import Rewrap.Proofs.Import.Spelling
import Rewrap.Proofs.Text.Lines
import Rewrap.Proofs.Text.Trimming
import Rewrap.Proofs.Swap.ImportEdits
import Rewrap.Proofs.Swap.UsageTags
import Rewrap.Proofs.Except
import Rewrap.Proofs.Text.Places
import Rewrap.Proofs.Tag.Elements
import Rewrap.Proofs.Tag.Counting
import Rewrap.Proofs.Swap.Placement
import Rewrap.Proofs.Swap.Layout
import Rewrap.Proofs.Swap.Stability
import Rewrap.Proofs.Swap.Outcomes
import Rewrap.Proofs.Swap.Balance
import Rewrap.Proofs.Swap.Faults
import Rewrap.Proofs.Swap.Agreement
import Rewrap.Proofs.Swap.Separation
import Rewrap.Proofs.Swap.Respelling
import Rewrap.Proofs.Swap.OwnLines
import Rewrap.Proofs.Swap.LineEnds
import Rewrap.Proofs.Swap.ReportedLine
import Rewrap.Proofs.Path.NormalForm
import Rewrap.Proofs.ReturnBlock.Nesting
import Rewrap.Proofs.FileTree.Frame
import Rewrap.Proofs.FileTree.Changes
import Rewrap.Proofs.FileTree.Leading
import Rewrap.Proofs.FileTree.Ways
import Rewrap.Proofs.FileTree.Walk
import Rewrap.Proofs.Action.Attempts
import Rewrap.Proofs.Action.Trace
import Rewrap.Proofs.Run.Own
import Rewrap.Proofs.Run.Storing
import Rewrap.Proofs.Json.Printing
import Rewrap.Proofs.Timestamp.Calendar
import Rewrap.Proofs.Timestamp.Text
import Rewrap.Proofs.Run.Encoding
import Rewrap.Proofs.Run.Recording
import Rewrap.Proofs.Run.Room
import Rewrap.Proofs.Run.Reverting
import Rewrap.Proofs.FileTree.Plain
import Rewrap.Proofs.Run.Undoing
import Rewrap.Proofs.Migration.Invariants
import Rewrap.Proofs.Migration.Journaling
import Rewrap.Proofs.Migration.Recording
import Rewrap.Proofs.Migration.Skipping
import Rewrap.Proofs.Migration.Single
import Rewrap.Proofs.Migration.Undoing
import Rewrap.Proofs.Command.Recording
import Rewrap.Proofs.Migration.Securing
import Rewrap.Proofs.Migration.Prediction
import Rewrap.Proofs.Migration.Accounting
import Rewrap.Proofs.FileTree.Removing
import Rewrap.Proofs.Run.Folder
import Rewrap.Proofs.Run.Keeping
import Rewrap.Proofs.Run.Upkeep
import Rewrap.Proofs.Run.Rereading
import Rewrap.Proofs.Run.Sessions
import Rewrap.Proofs.Run.Unforced
import Rewrap.Proofs.Migration.Isolation
import Rewrap.Proofs.Migration.Listing
import Rewrap.Proofs.Exclusion.Deciding
import Rewrap.Proofs.Command.Listing
import Rewrap.Proofs.Migration.Statistics
import Rewrap.Proofs.LineDiff.Summary
import Rewrap.Proofs.Timestamp.Cutoff
import Rewrap.Proofs.Run.Confined
import Rewrap.Proofs.Run.Cleaning
