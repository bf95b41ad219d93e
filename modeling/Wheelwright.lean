import Wheelwright.Log
import Wheelwright.Rehearsal.Session
import Wheelwright.Rehearsal.Workbench
import Wheelwright.Report
import Wheelwright.Shell.Launch
import Wheelwright.Proofs.Plan.Countdown
import Wheelwright.Proofs.Plan.Dependency
import Wheelwright.Proofs.Plan.Order
import Wheelwright.Proofs.Plan.Ancestors
import Wheelwright.Proofs.Plan.Verdict
import Wheelwright.Proofs.Plan.Tables
import Wheelwright.Proofs.Plan.Names
import Wheelwright.Proofs.Plan.Cycle
import Wheelwright.Proofs.Plan.Conflict
import Wheelwright.Proofs.Text.Pattern
import Wheelwright.Proofs.Execution.Settling
import Wheelwright.Proofs.Dispatch.Completion
import Wheelwright.Proofs.Dispatch.Exclusion
import Wheelwright.Proofs.Dispatch.Pass
import Wheelwright.Proofs.Dispatch.Rehearsed
import Wheelwright.Proofs.Dispatch.Armed
import Wheelwright.Proofs.Dispatch.Causes
import Wheelwright.Proofs.Dispatch.Statuses
import Wheelwright.Proofs.Dispatch.Turns
import Wheelwright.Proofs.Staleness.Framing
import Wheelwright.Proofs.Store.Records
import Wheelwright.Proofs.History.Idempotence
import Wheelwright.Proofs.History.Rehearsed
import Wheelwright.Proofs.History.Launches
import Wheelwright.Proofs.History.Forced
import Wheelwright.Proofs.Cancellation.Lineage
import Wheelwright.Proofs.Target.Closing
import Wheelwright.Proofs.Target.Cancels
import Wheelwright.Proofs.Process.Supervision
import Wheelwright.Proofs.Process.Received
import Wheelwright.Proofs.Shell.Processes
import Wheelwright.Proofs.Json.RoundTrip
import Wheelwright.Proofs.Store.StateFile
import Wheelwright.Proofs.Text.Utf8
import Wheelwright.Proofs.FileTree.Changes
import Wheelwright.Proofs.Path.Pieces
import Wheelwright.Proofs.Store.Place
import Wheelwright.Proofs.Store.Persistence
import Wheelwright.Proofs.Store.Sharing
import Wheelwright.Proofs.Staleness.Outside
import Wheelwright.Proofs.Target.Replanning
import Wheelwright.Proofs.Target.Cleaning
import Wheelwright.Proofs.Target.Neighbours
import Wheelwright.Proofs.Target.Admission
import Wheelwright.Proofs.Classifier.Patterns
import Wheelwright.Proofs.Classifier.Place
import Wheelwright.Proofs.Classifier.Agreement
import Wheelwright.Proofs.Process.Delivered
import Wheelwright.Proofs.Command.Rendering
import Wheelwright.Proofs.Target.Installing
import Wheelwright.Proofs.Project.Root
import Wheelwright.Proofs.Stage.Results
import Wheelwright.Proofs.Stage.Sweeping
import Wheelwright.Proofs.Window.Peaks
import Wheelwright.Proofs.Config.Timeout
import Wheelwright.Proofs.Store.Opening
import Wheelwright.Proofs.Json.Values
