import LoadSweep.Command.Fault
import LoadSweep.Command.Help
import LoadSweep.Command.Line
import LoadSweep.Command.Number
import LoadSweep.Command.Settings
import LoadSweep.Draw.Index
import LoadSweep.Draw.Words
import LoadSweep.Duration
import LoadSweep.File.Desk
import LoadSweep.File.Sink
import LoadSweep.File.Tree
import LoadSweep.Harness.Crew
import LoadSweep.Harness.Dealings
import LoadSweep.Harness.Fault
import LoadSweep.Harness.Measure
import LoadSweep.Harness.Preload
import LoadSweep.Harness.Probe
import LoadSweep.Harness.Run
import LoadSweep.Harness.Session
import LoadSweep.Harness.Sweep
import LoadSweep.Harness.Traffic
import LoadSweep.Harness.Warmup
import LoadSweep.Harness.World
import LoadSweep.Key.Mode
import LoadSweep.Key.Space
import LoadSweep.Live
import LoadSweep.Log
import LoadSweep.Main
import LoadSweep.Number.Double
import LoadSweep.Number.Fixed
import LoadSweep.Number.Rounding
import LoadSweep.Number.Total
import LoadSweep.Operation
import LoadSweep.Plan.Basic
import LoadSweep.Plan.Matrix
import LoadSweep.Program
import LoadSweep.Proofs.Account
import LoadSweep.Proofs.Alone
import LoadSweep.Proofs.Budget
import LoadSweep.Proofs.CommandLine
import LoadSweep.Proofs.Crew.Act
import LoadSweep.Proofs.Crew.Course
import LoadSweep.Proofs.Crew.Dial
import LoadSweep.Proofs.Crew.Flight
import LoadSweep.Proofs.Crew.Gate
import LoadSweep.Proofs.Crew.Ground
import LoadSweep.Proofs.Crew.Order
import LoadSweep.Proofs.Crew.Step
import LoadSweep.Proofs.Crew.Timetable
import LoadSweep.Proofs.Csv
import LoadSweep.Proofs.Desk
import LoadSweep.Proofs.Dialling
import LoadSweep.Proofs.Doubles
import LoadSweep.Proofs.Ending
import LoadSweep.Proofs.Fallible
import LoadSweep.Proofs.Fresh
import LoadSweep.Proofs.Independence
import LoadSweep.Proofs.Interrupt
import LoadSweep.Proofs.Join
import LoadSweep.Proofs.KeyStream
import LoadSweep.Proofs.Keys
import LoadSweep.Proofs.LineBreak
import LoadSweep.Proofs.Loading
import LoadSweep.Proofs.Names
import LoadSweep.Proofs.Nearest
import LoadSweep.Proofs.Options
import LoadSweep.Proofs.Percentile
import LoadSweep.Proofs.Phase
import LoadSweep.Proofs.Phases
import LoadSweep.Proofs.Pooling
import LoadSweep.Proofs.Process
import LoadSweep.Proofs.Progress
import LoadSweep.Proofs.Rank
import LoadSweep.Proofs.Rations
import LoadSweep.Proofs.Results
import LoadSweep.Proofs.Safety
import LoadSweep.Proofs.Sample
import LoadSweep.Proofs.Seeds
import LoadSweep.Proofs.Session
import LoadSweep.Proofs.Settling
import LoadSweep.Proofs.Shift
import LoadSweep.Proofs.Silence
import LoadSweep.Proofs.Sink
import LoadSweep.Proofs.Sparing
import LoadSweep.Proofs.Stint
import LoadSweep.Proofs.Stored
import LoadSweep.Proofs.Sweep
import LoadSweep.Proofs.Table
import LoadSweep.Proofs.Trace
import LoadSweep.Proofs.Traffic
import LoadSweep.Proofs.Values
import LoadSweep.Proofs.Warming
import LoadSweep.Proofs.Welcome
import LoadSweep.Proofs.Window
import LoadSweep.Proofs.Writing
import LoadSweep.Report.Csv
import LoadSweep.Report.Row
import LoadSweep.Report.Summary
import LoadSweep.Server.Fault
import LoadSweep.Server.Request
import LoadSweep.Server.Route
import LoadSweep.Server.Script
import LoadSweep.Server.Wire
import LoadSweep.Target
import LoadSweep.Text.Align
import LoadSweep.Text.Blank
import LoadSweep.Text.Quoted
