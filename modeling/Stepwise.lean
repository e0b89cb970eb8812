import Stepwise.Effect
import Stepwise.Failure
import Stepwise.Poll
import Stepwise.Trampoline
import Stepwise.Text.Ranges
import Stepwise.Text.Blank
import Stepwise.Text.Boundary
import Stepwise.Text.Unprintable
import Stepwise.Text.DefaultIgnorable
import Stepwise.Text.GraphemeExtend
import Stepwise.Text.Quoted
import Stepwise.Text.Render
import Stepwise.Log
import Stepwise.Statement
import Stepwise.Settled
import Stepwise.While
import Stepwise.Source
import Stepwise.Walk
import Stepwise.Loop
import Stepwise.Summation
import Stepwise.Chain
import Stepwise.Application
import Stepwise.Job
import Stepwise.Watched
import Stepwise.Muted
import Stepwise.Meter
import Stepwise.Script.Value
import Stepwise.Script.Expr
import Stepwise.Script.Deferred
import Stepwise.Script.Program
import Stepwise.Script.World
import Stepwise.Script.Supply
import Stepwise.Script.Task
import Stepwise.Script.Session
import Stepwise.Suite.Trial
import Stepwise.Suite.Catalog
import Stepwise.Suite.Run
import Stepwise.Proofs.Ensures
import Stepwise.Proofs.Fuel
import Stepwise.Proofs.Await
import Stepwise.Proofs.Course
import Stepwise.Proofs.Paired
import Stepwise.Proofs.While.Direct
import Stepwise.Proofs.While.Protocol
import Stepwise.Proofs.Job.Course
import Stepwise.Proofs.Job.Paired
import Stepwise.Proofs.Job.Find
import Stepwise.Proofs.Job.ForEach
import Stepwise.Proofs.Script.Owners
import Stepwise.Proofs.Script.Lockstep
import Stepwise.Proofs.Script.Tracked
import Stepwise.Proofs.Script.Follows
import Stepwise.Proofs.Script.Finish
import Stepwise.Proofs.Script.Unsuspended
import Stepwise.Proofs.Script.Alone
import Stepwise.Proofs.Script.Suspension
import Stepwise.Proofs.Trampoline.Evaluation
import Stepwise.Proofs.Trampoline.Closures
import Stepwise.Proofs.Trampoline.Stepping
import Stepwise.Proofs.Trampoline.Counting
import Stepwise.Proofs.Trampoline.Sequencing
import Stepwise.Proofs.Trampoline.Nesting
import Stepwise.Proofs.Trampoline.Recursion
import Stepwise.Proofs.Job.Terms
import Stepwise.Proofs.Nest.Basic
import Stepwise.Proofs.Nest.Trace
import Stepwise.Proofs.Mail.Ledger
import Stepwise.Proofs.Job.Returns
import Stepwise.Proofs.Mail.Session
import Stepwise.Proofs.Job.Offers
import Stepwise.Proofs.Mail.Passage
import Stepwise.Proofs.Mail.Places
import Stepwise.Proofs.Mail.Progress
import Stepwise.Proofs.Alike
import Stepwise.Proofs.Crew
import Stepwise.Proofs.Simulation
import Stepwise.Proofs.Indexed
import Stepwise.Proofs.Unless
import Stepwise.Proofs.Job.Tied
import Stepwise.Proofs.Script.Renumbered
import Stepwise.Proofs.Script.Shared
import Stepwise.Proofs.Script.Independent
import Stepwise.Proofs.Job.Alike
import Stepwise.Proofs.Job.Apply
import Stepwise.Proofs.Loop
import Stepwise.Proofs.RangeWalk
import Stepwise.Proofs.Job.Passed
import Stepwise.Proofs.Job.Range
import Stepwise.Proofs.Job.Chain
import Stepwise.Proofs.Job.Within
import Stepwise.Proofs.Job.Sum
import Stepwise.Proofs.Nest.Tallied
import Stepwise.Proofs.Watched
import Stepwise.Proofs.Transparent
import Stepwise.Proofs.Job.Closed
import Stepwise.Proofs.Job.Upheld
import Stepwise.Proofs.Job.Journal
import Stepwise.Proofs.Job.Turns
import Stepwise.Proofs.Job.Places
import Stepwise.Proofs.Job.Source
import Stepwise.Proofs.Job.Sweep
import Stepwise.Proofs.Job.Flatten
import Stepwise.Proofs.Job.Metered
import Stepwise.Proofs.Job.Flavors
import Stepwise.Proofs.Text.Bytes
import Stepwise.Proofs.Statement
import Stepwise.Proofs.Meter
import Stepwise.Proofs.Muted.Due
import Stepwise.Proofs.Muted.History
import Stepwise.Proofs.Muted.InUse
import Stepwise.Proofs.Suite.Level
import Stepwise.Proofs.Suite.Muting
