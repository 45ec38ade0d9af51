import GracePeriod.Script
import GracePeriod.Trial.Clock
import GracePeriod.Trial.Records
import GracePeriod.Trial.Slots
import GracePeriod.Proofs.HalfTurn
import GracePeriod.Proofs.Record
import GracePeriod.Proofs.Nest
import GracePeriod.Proofs.Scheduler
import GracePeriod.Proofs.Move
import GracePeriod.Proofs.Section
import GracePeriod.Proofs.SectionMoves
import GracePeriod.Proofs.SchedulerEffects
import GracePeriod.Proofs.Accounts
import GracePeriod.Proofs.Actions
import GracePeriod.Proofs.Turn
import GracePeriod.Proofs.Reachable
import GracePeriod.Proofs.Order
import GracePeriod.Proofs.Stack
import GracePeriod.Proofs.Clock
import GracePeriod.Proofs.Grace
import GracePeriod.Proofs.GraceSafety
import GracePeriod.Proofs.GraceRelease
import GracePeriod.Proofs.Tasks
import GracePeriod.Proofs.ReaderCount
import GracePeriod.Proofs.Protection
import GracePeriod.Proofs.ThreadFrames
import GracePeriod.Proofs.Act
import GracePeriod.Proofs.Marks
import GracePeriod.Proofs.Request
import GracePeriod.Proofs.Ledger
import GracePeriod.Proofs.Ripeness
import GracePeriod.Proofs.Unwinding
import GracePeriod.Proofs.Stage
import GracePeriod.Proofs.CallbackOrder
import GracePeriod.Proofs.Barrier
import GracePeriod.Proofs.Placement
import GracePeriod.Proofs.Seats
import GracePeriod.Proofs.Undisturbed
import GracePeriod.Proofs.EpochDistance
import GracePeriod.Proofs.StepEffects
import GracePeriod.Proofs.BatchMoves
import GracePeriod.Proofs.Handles
import GracePeriod.Proofs.HandleUse
import GracePeriod.Proofs.StoppedDrains
import GracePeriod.Proofs.HandleInvariant
import GracePeriod.Proofs.TicketMoves
import GracePeriod.Proofs.Wakeup
import GracePeriod.Proofs.Joining
import GracePeriod.Proofs.Shutdown
import GracePeriod.Proofs.Depth
import GracePeriod.Proofs.GuardFrames
import GracePeriod.Proofs.Guards
import GracePeriod.Proofs.Lifespan
import GracePeriod.Proofs.Trail
import GracePeriod.Proofs.PassCounts
import GracePeriod.Proofs.Loops
import GracePeriod.Proofs.Stamps
import GracePeriod.Proofs.Tickets
import GracePeriod.Proofs.Ownership
import GracePeriod.Proofs.Standing
import GracePeriod.Proofs.WaiterLooks
import GracePeriod.Proofs.GraceWaits
import GracePeriod.Proofs.LostTurns
import GracePeriod.Proofs.Rounds
import GracePeriod.Proofs.KeptDomains
import GracePeriod.Proofs.Isolation
import GracePeriod.Proofs.Attendance
import GracePeriod.Proofs.FlatTable
import GracePeriod.Proofs.KeptPins
import GracePeriod.Proofs.SectionSteps
import GracePeriod.Proofs.Seen
import GracePeriod.Proofs.Nesting
import GracePeriod.Proofs.Pins
import GracePeriod.Proofs.NestTable
import GracePeriod.Proofs.SchedulerCalls
import GracePeriod.Proofs.Tenure
import GracePeriod.Proofs.Past
import GracePeriod.Proofs.Misuse
import GracePeriod.Proofs.Keys
import GracePeriod.Proofs.Bracket
