import GracePeriod.Callback

namespace GracePeriod

inductive BuildError
  | noWorkers
  | workerCountMismatch (requested available : Nat)

namespace BuildError

def name : BuildError → String
  | noWorkers => "NoWorkers"
  | workerCountMismatch .. => "WorkerCountMismatch"

def message : BuildError → String
  | noWorkers => "an RCU engine needs at least one worker"
  | workerCountMismatch r n => s!"requested {r} workers but the scheduler provides {n}"

end BuildError

inductive Refusal
  | noEngine
  | noScheduler
  | noTask
  | slotInUse

namespace Refusal

def name : Refusal → String
  | noEngine => "no_engine"
  | noScheduler => "no_scheduler"
  | noTask => "no_task"
  | slotInUse => "slot_in_use"

end Refusal

inductive Result
  | unit
  | number (n : Nat)
  | flag (b : Bool)
  | text (s : String)
  | noted (s : String)
  | taskState (id : Nat) (x : Task)
  | flags (b c : Bool)
  | guarded (k : Kind) (results : List Result)
  | unknown (name : String)
  | panicked (p : Payload)
  | refused (r : Refusal)
  | unbuilt (e : BuildError)

/-- A result, or a panic on its way up. -/
abbrev Outcome := Except Payload Result

inductive Level
  | trace
  | debug
  | error

def Level.name : Level → String
  | trace => "trace"
  | debug => "debug"
  | error => "error"

inductive Field
  | number (n : Nat)
  | flag (b : Bool)
  | text (s : String)

inductive Log
  | engineStarted (workers : Nat) (autoRegister skipWhenHalted : Bool)
  | engineStopping (pending : PerKind Nat)
  | workerRegistered (k : Kind) (w : Nat)
  | graceStarted (k : Kind) (target : UInt32)
  | graceMoving (k : Kind) (w : Nat)
  | graceSleeping (w : Nat)
  | graceCompleted (k : Kind)
  | callbacksRunning (k : Kind) (count : Nat)
  | callbackPanicked (k : Kind) (p : Payload)
  | workerPanicked (thread : String) (p : Payload)

namespace Log

def level : Log → Level
  | engineStarted .. | engineStopping _ | workerRegistered .. | callbacksRunning .. => .debug
  | graceStarted .. | graceMoving .. | graceSleeping _ | graceCompleted _ => .trace
  | callbackPanicked .. | workerPanicked .. => .error

def message : Log → String
  | engineStarted .. => "rcu engine started"
  | engineStopping _ => "rcu engine shutting down"
  | workerRegistered .. => "worker registered"
  | graceStarted .. => "grace period started"
  | graceMoving .. => "moving to blocking worker"
  | graceSleeping _ => "blocking reader is sleeping"
  | graceCompleted _ => "grace period completed"
  | callbacksRunning .. => "running deferred callbacks"
  | callbackPanicked .. => "deferred callback panicked"
  | workerPanicked .. => "drain worker panicked"

def fields : Log → List (String × Field)
  | engineStarted n auto skip =>
    [("workers", .number n), ("auto_register", .flag auto), ("skip_when_halted", .flag skip)]
  | engineStopping p =>
    [("pending_regular", .number p.regular), ("pending_sleepable", .number p.sleepable)]
  | workerRegistered k w => [("domain", .text k.name), ("worker", .number w)]
  | graceStarted k target => [("domain", .text k.name), ("target", .number target.toNat)]
  | graceMoving k w => [("domain", .text k.name), ("worker", .number w)]
  | graceSleeping w => [("worker", .number w)]
  | graceCompleted k => [("domain", .text k.name)]
  | callbacksRunning k n => [("domain", .text k.name), ("callbacks", .number n)]
  | callbackPanicked k p => [("domain", .text k.name), ("panic", .text p.message)]
  | workerPanicked thread p => [("thread", .text thread), ("panic", .text p.message)]

end Log

/-- A moment in the history of one domain of an engine. -/
inductive Mark
  /-- An outermost section opened on the record of a worker and took a slot there. -/
  | opened (worker slot : Nat)
  | closed (worker slot : Nat)
  | lockPanicked
  /-- A call did nothing because the scheduler is halted. -/
  | skipped
  | synchronizeCalled
  | advanced (target : UInt32)
  | synchronizeReturned
  | synchronizePanicked
  | barrierCalled
  | barrierReturned
  | queued (c : Callback)
  | callbackStarted (c : Callback)
  | callbackEnded

inductive Event
  | pin
  | unpin
  | setPinDepth (n : UInt32)
  | bind (w : Nat)
  | unbind
  | setPriority (p : Priority)
  | yield
  | pause (micros : Nat)
  | callback (id : Nat)
  | opEnded (name : String) (r : Result)
  | destroyed (size : Nat) (id : Option Nat)
  | pass (i : Nat)
  | isWorker (b : Bool)
  | log (l : Log)
  | mark (engine : Nat) (k : Kind) (m : Mark)
  | finished (r : Result)

end GracePeriod
