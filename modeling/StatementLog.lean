import StatementLog.Cluster.Schedule
import StatementLog.CommandLine.Session
import StatementLog.Config.Reader
import StatementLog.Engine
import StatementLog.Log.Disk
import StatementLog.Log.Tape
import StatementLog.Main
import StatementLog.Script
import StatementLog.Proofs.Log.Contract
import StatementLog.Proofs.Runner.Lifetime
import StatementLog.Proofs.Runner.Reading
import StatementLog.Proofs.Runner.Handing
import StatementLog.Proofs.Runner.Order
import StatementLog.Proofs.Engine.Alone
import StatementLog.Proofs.Fleet.Agreement
import StatementLog.Proofs.Engine.Integrity
import StatementLog.Proofs.Runner.Termination
import StatementLog.Proofs.Fleet.Convergence
import StatementLog.Proofs.Replay.Again
import StatementLog.Proofs.Replay.Departure
import StatementLog.Proofs.Log.Writing
import StatementLog.Proofs.Node.Calls
import StatementLog.Proofs.Node.Station
import StatementLog.Proofs.Node.Admission
import StatementLog.Proofs.Command.RoundTrip
import StatementLog.Proofs.Node.Finality
import StatementLog.Proofs.Node.Waiting
import StatementLog.Proofs.Command.Line
import StatementLog.Proofs.Log.Octets
import StatementLog.Proofs.Log.Path
import StatementLog.Proofs.Log.Disk
import StatementLog.Proofs.Log.Refinement
import StatementLog.Proofs.Engine.Backing
import StatementLog.Proofs.Tracker.Desk
import StatementLog.Proofs.Node.Release
import StatementLog.Proofs.Node.Bureau
import StatementLog.Proofs.Engine.Accounting
import StatementLog.Proofs.Engine.Ownership
import StatementLog.Proofs.Engine.Dataflow
import StatementLog.Proofs.Engine.Removal
import StatementLog.Proofs.Runner.Course
import StatementLog.Proofs.Node.Readiness
import StatementLog.Proofs.Log.OneOrder
import StatementLog.Proofs.Log.Wakeup
import StatementLog.Proofs.Node.Stopping
import StatementLog.Proofs.Fleet.Founding
import StatementLog.Proofs.Engine.Atomicity
import StatementLog.Proofs.Engine.Successes
import StatementLog.Proofs.Log.Slip
import StatementLog.Proofs.Replay.Fetching
import StatementLog.Proofs.Log.Growth
import StatementLog.Proofs.Command.Rewriting
import StatementLog.Proofs.Runner.Budget
import StatementLog.Proofs.Tracker.Latest
import StatementLog.Proofs.Tracker.Recency
import StatementLog.Proofs.Engine.Dissolution
import StatementLog.Proofs.Statement.Listing
import StatementLog.Proofs.Config.Wording
import StatementLog.Proofs.Runner.Backoff
import StatementLog.Proofs.Command.TextForm
import StatementLog.Proofs.Statement.Casing
import StatementLog.Proofs.Statement.Selection
import StatementLog.Proofs.Log.Survey
import StatementLog.Proofs.Cluster.Residence
