import ClauseReach.Elements
import ClauseReach.Pending
import ClauseReach.State.Facts
import ClauseReach.State.Trace
import ClauseReach.Constant.Literal
import ClauseReach.Switch
import ClauseReach.Script.Run
import ClauseReach.Source.Syntax
import ClauseReach.Text.Printable
import ClauseReach.Checker.Assigned
import ClauseReach.Checker.Dispatch
import ClauseReach.Checker.Walk
import ClauseReach.Checker.Check
import ClauseReach.Glob.Match
import ClauseReach.Report
import ClauseReach.Text.Quoted
import ClauseReach.SettingsFile
import ClauseReach.Main
import ClauseReach.Proofs.PathBack
import ClauseReach.Proofs.Summary
import ClauseReach.Proofs.Cover
import ClauseReach.Proofs.ListWalk
import ClauseReach.Proofs.SimpleWalk
import ClauseReach.Proofs.LoopWalk
import ClauseReach.Proofs.SectionWalk
import ClauseReach.Proofs.DispatchPlan
import ClauseReach.Proofs.SwitchWalk
import ClauseReach.Proofs.TypeSwitchWalk
import ClauseReach.Proofs.FunctionWalk
import ClauseReach.Proofs.AllPaths
import ClauseReach.Proofs.Terminating
import ClauseReach.Proofs.PendingLog
import ClauseReach.Proofs.SwitchAgreement
import ClauseReach.Proofs.ImplicitBreak
import ClauseReach.Proofs.ScriptSimulation
import ClauseReach.Proofs.Noninterference
import ClauseReach.Proofs.Footprint
import ClauseReach.Proofs.SectionOrder
import ClauseReach.Proofs.Monotone
import ClauseReach.Proofs.DeadCode
import ClauseReach.Proofs.Marks
import ClauseReach.Proofs.Course
import ClauseReach.Proofs.Visits
import ClauseReach.Proofs.SwitchVisits
import ClauseReach.Proofs.Totality
import ClauseReach.Proofs.BackwardGotos
import ClauseReach.Proofs.FileReports
import ClauseReach.Proofs.SwitchChoice
import ClauseReach.Proofs.Bindings
import ClauseReach.Proofs.TypeChoice
import ClauseReach.Proofs.Invariant
import ClauseReach.Proofs.Surroundings
import ClauseReach.Proofs.LoopFixpoint
import ClauseReach.Proofs.ElementSets
import ClauseReach.Proofs.StateOrder
import ClauseReach.Proofs.MapKeys
import ClauseReach.Proofs.DrainOrder
import ClauseReach.Proofs.ConstantMeaning
import ClauseReach.Proofs.PatternSyntax
import ClauseReach.Proofs.PatternCheck
import ClauseReach.Proofs.Balance
import ClauseReach.Proofs.Enclosures
import ClauseReach.Proofs.RegistryRefinement
