import GracePeriod.Scheduler

namespace GracePeriod

inductive Payload
  | fault (f : Fault)
  | text (s : String)
  /-- Not a text. -/
  | silent

namespace Payload

def message : Payload → String
  | fault f => f.message
  | text s => s
  | silent => "non-string panic payload"

/-- The panic of an operation that asks for no special one. -/
def plain : Payload := text "static failure"

end Payload

structure Config where
  /-- A scheduler to put a recorder around; without one the engine gets a scheduler of its own. -/
  scheduler : Option Nat := none
  /-- The worker count that the recorder claims. -/
  claimedWorkers : Option Nat := none
  workers : Option Nat := none
  /-- In microseconds. -/
  pauseInterval : Nat := 1000
  skipWhenHalted : Bool := true
  autoRegister : Bool := true
  threadName : String := "rcu-drain"
  /-- Starting values of the counters, see `Domain.startBoth`. -/
  seeds : List UInt32 := []

/-- Calls that a scheduler takes directly and through an engine. -/
inductive SchedulerCall
  | numWorkers
  | currentTask
  | currentWorker
  | pin
  | unpin
  | pinDepth
  | setPinDepth (n : UInt32)
  | isBound
  | bind (w : Nat)
  | unbind
  | priority
  | setPriority (p : Priority)
  | taskPriority (task : Option Nat)
  | taskIsInhibited (task : Option Nat)
  | yield
  | pause (micros : Nat)
  | isHalted
  | dump

/-- Calls that only a scheduler itself takes. -/
inductive LogicalCall
  | setHalted (b : Bool)
  | migrate (w : Nat)
  | sleep
  | workerOf (task : Option Nat)
  | setInhibited (task : Option Nat) (b : Bool)

inductive TaskCall
  | spawn (name : String) (passes : List String)
  | enqueue
  | drain
  | isWorker
  | drop

/-- Calls on a handle that contain no further operations. -/
inductive HandleCall
  | register (k : Kind) (w : Nat)
  | isRegistered (k : Kind) (w : Nat)
  | activeReaders (k : Kind) (w : Nat)
  | readLock (k : Kind)
  | readUnlock (k : Kind)
  | readDepth (k : Kind)
  | synchronize (k : Kind)
  | barrier (k : Kind)
  | currentEpoch (k : Kind)
  | pending (k : Kind)
  | numWorkers
  | deferDrop (k : Kind) (id size : Nat)
  | deferContainer (k : Kind) (id size offset : Nat)
  | srcuLock (key : String)
  | srcuUnlock (key : String)
  | srcuDepth
  | srcuSynchronize
  | srcuBarrier

/-- Engines are known by their slots in the table of handles. -/
inductive Op
  | build (slot : Nat) (config : Config)
  /-- Builds an engine with default settings and drops it. -/
  | buildDefault (k : Kind)
  | clone (slot : Nat)
  | dropHandle (slot : Nat)
  | handle (slot : Nat) (c : HandleCall)
  /-- Defers a callback; with `hold` it owns a handle. -/
  | call (slot : Nat) (srcu : Bool) (k : Kind) (id : Nat) (hold : Bool) (body : List Op)
  | guard (slot : Nat) (srcu : Bool) (k : Kind) (caught : Bool) (body : List Op)
  | engineScheduler (slot : Nat) (c : SchedulerCall)
  | scheduler (s : Nat) (c : SchedulerCall)
  | logical (s : Nat) (c : LogicalCall)
  | task (c : TaskCall)
  | panic (p : Payload)
  /-- Answers the given text, which the machine does not look into. -/
  | note (text : String)
  | gate
  | threadName
  | unknown (name : String)

instance : Inhabited Op := ⟨.gate⟩

namespace SchedulerCall

def name : SchedulerCall → String
  | numWorkers => "s_num_workers"
  | currentTask => "s_current_task"
  | currentWorker => "s_current_worker"
  | pin => "s_pin"
  | unpin => "s_unpin"
  | pinDepth => "s_pin_depth"
  | setPinDepth _ => "s_set_pin_depth"
  | isBound => "s_is_bound"
  | bind _ => "s_bind"
  | unbind => "s_unbind"
  | priority => "s_priority"
  | setPriority _ => "s_set_priority"
  | taskPriority _ => "s_task_priority"
  | taskIsInhibited _ => "s_task_is_inhibited"
  | yield => "s_yield"
  | pause _ => "s_pause"
  | isHalted => "s_is_halted"
  | dump => "s_dump"

end SchedulerCall

namespace LogicalCall

def name : LogicalCall → String
  | setHalted _ => "s_set_halted"
  | migrate _ => "s_migrate"
  | sleep => "s_sleep"
  | workerOf _ => "s_worker_of"
  | setInhibited .. => "s_set_inhibited"

end LogicalCall

namespace TaskCall

def name : TaskCall → String
  | spawn .. => "dt_spawn"
  | enqueue => "dt_enqueue"
  | drain => "dt_drain"
  | isWorker => "dt_is_worker"
  | drop => "dt_drop"

end TaskCall

namespace HandleCall

def name : HandleCall → String
  | register .. => "register"
  | isRegistered .. => "is_registered"
  | activeReaders .. => "active"
  | readLock _ => "read_lock"
  | readUnlock _ => "read_unlock"
  | readDepth _ => "read_depth"
  | synchronize _ => "synchronize"
  | barrier _ => "barrier"
  | currentEpoch _ => "epoch"
  | pending _ => "pending"
  | numWorkers => "num_workers"
  | deferDrop .. => "defer_drop"
  | deferContainer .. => "defer_container"
  | srcuLock _ => "srcu_lock"
  | srcuUnlock _ => "srcu_unlock"
  | srcuDepth => "srcu_depth"
  | srcuSynchronize => "srcu_synchronize"
  | srcuBarrier => "srcu_barrier"

end HandleCall

namespace Op

/-- The name under which the end of an operation is reported. -/
def name : Op → String
  | build .. => "build"
  | buildDefault _ => "default_engine"
  | clone _ => "clone"
  | dropHandle _ => "drop_handle"
  | handle _ c => c.name
  | call _ srcu .. => if srcu then "srcu_call" else "call"
  | guard _ srcu .. => if srcu then "srcu_guard" else "guard"
  | engineScheduler _ c => c.name
  | scheduler _ c => c.name
  | logical _ c => c.name
  | task c => c.name
  | panic _ => "panic"
  | note _ => "note"
  | gate => "gate"
  | threadName => "thread_name"
  | unknown name => name

end Op

end GracePeriod
