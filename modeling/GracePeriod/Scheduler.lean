import GracePeriod.SlotArray

namespace GracePeriod

/-- A larger level is less urgent. -/
structure Priority where
  level : UInt8
  deriving DecidableEq

namespace Priority

def highest : Priority := ⟨0⟩

def normal : Priority := ⟨120⟩

def lowest : Priority := ⟨255⟩

instance : Inhabited Priority := ⟨normal⟩

def moreUrgent (p q : Priority) : Bool := decide (p.level < q.level)

def leastUrgent (p q : Priority) : Priority := if p.moreUrgent q then q else p

end Priority

structure Task where
  worker : Nat := 0
  pinDepth : UInt32 := 0
  bound : Bool := false
  priority : Priority := .normal
  inhibited : Bool := false
  /-- Parked in a pause of a recorded scheduler. -/
  paused : Bool := false
  deriving Inhabited

namespace Task

def pin (x : Task) : Task := { x with pinDepth := x.pinDepth + 1 }

/-- The depth goes down, around zero, even where nothing was pinned. -/
def unpin (x : Task) : Task × Except Fault Unit :=
  ({ x with pinDepth := x.pinDepth - 1 }, if x.pinDepth = 0 then .error .unpinned else .ok ())

def bind (x : Task) (w : Nat) : Task := { x with worker := w, bound := true }

def unbind (x : Task) : Task := { x with bound := false }

def movable (x : Task) : Bool := x.pinDepth = 0 && !x.bound

end Task

/-- Logical workers. Tasks are placed on them in turn, and stay there until they are bound elsewhere or
migrate. -/
structure Scheduler where
  workers : Nat := 0
  /-- How many tasks have been placed so far. -/
  placed : Nat := 0
  tasks : SlotArray Task := {}
  halted : Bool := false
  /-- Tasks that recorded schedulers report as inhibited on request. -/
  marked : List Nat := []
  deriving Inhabited

namespace Scheduler

def new (workers : Nat) : Except Fault Scheduler :=
  if workers = 0 then .error .noWorkers else .ok { workers }

/-- A new task on the next worker. Nothing of an earlier task in its slot is left. -/
def place (s : Scheduler) : Nat × Scheduler :=
  let p := s.tasks.acquire
  let x : Task := { worker := s.placed % s.workers }
  (p.1, { s with placed := s.placed + 1, tasks := p.2.setD p.1 x })

def task (s : Scheduler) (id : Nat) : Task := s.tasks.getD id

def setTask (s : Scheduler) (id : Nat) (x : Task) : Scheduler :=
  { s with tasks := s.tasks.setD id x }

def checkWorker (s : Scheduler) (w : Nat) : Except Fault Unit :=
  if w < s.workers then .ok () else .error (.noSuchWorker w s.workers)

def workerOf (s : Scheduler) (id : Nat) : Except Fault Nat := (s.tasks.get id).map (·.worker)

def priorityOf (s : Scheduler) (id : Nat) : Except Fault Priority :=
  (s.tasks.get id).map (·.priority)

def isInhibited (s : Scheduler) (id : Nat) : Except Fault Bool := (s.tasks.get id).map (·.inhibited)

/-- What a recorded scheduler says: marked tasks and those parked in a pause are inhibited, too. -/
def reportsInhibited (s : Scheduler) (id : Nat) : Except Fault Bool :=
  (s.isInhibited id).map fun b => b || s.marked.contains id || (s.task id).paused

def mark (s : Scheduler) (id : Nat) (inhibited : Bool) : Scheduler :=
  let rest := s.marked.filter (· != id)
  { s with marked := if inhibited then id :: rest else rest }

/-- Gives the slot of a thread that has ended back. -/
def release (s : Scheduler) (id : Nat) : Scheduler :=
  match s.tasks.release id with
  | .ok tasks => { s with tasks }
  | .error _ => s

end Scheduler

end GracePeriod
