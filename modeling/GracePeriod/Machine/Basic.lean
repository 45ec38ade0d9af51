import GracePeriod.Drain
import GracePeriod.Engine
import GracePeriod.Nest

namespace GracePeriod

inductive ThreadName
  | actor (i : Nat)
  /-- Serves an engine, which has no slot when it is never in the table. -/
  | drain (slot : Option Nat) (k : Kind)
  | bare
  deriving DecidableEq, Inhabited

def ThreadName.text : ThreadName → String
  | actor i => s!"t{i}"
  | drain slot k => "e" ++ slot.elim "" toString ++ "." ++ k.name
  | bare => "dt"

/-- Where a thread is parked until it is resumed from outside. -/
inductive Park
  | yield
  | pause
  | gate
  deriving DecidableEq

inductive Status
  | idle
  /-- It has the turn, or waits for it in the queue. -/
  | active
  | parked (p : Park)
  /-- On the condition of a drain task. -/
  | waiting (drain : Nat)
  /-- Until another thread has ended. -/
  | joining (thread : Nat)
  | ended (panic : Option Payload)

/-- How the scheduler saw a thread when its grace period began. -/
structure Snapshot where
  worker : Nat
  pinDepth : UInt32
  priority : Priority
  bound : Bool

/-- What is left to do once the frame above is done. -/
inductive Frame
  /-- Turns a panic into a result. -/
  | attempt
  /-- Gives up the handle of an operation or of a callback. -/
  | release (engine : Nat)
  /-- Gives up a handle on a bare drain task. -/
  | releaseTask (drain : Nat)
  /-- Closes the section of a guard, however its body ended. -/
  | leave (engine : Nat) (k : Kind)
  /-- The body of a guard: the results so far and the operations to come. -/
  | guardBody (held : Option Nat) (k : Kind) (done : List Result) (rest : List Op)
  /-- The body of a callback: the operation under way and those to come. -/
  | callbackBody (held : Option Nat) (current : String) (rest : List Op)
  /-- A callback of a batch is running, with these to follow. -/
  | batch (engine : Nat) (k : Kind) (rest : List Callback)
  /-- A detached batch whose grace period is not over. -/
  | detached (engine : Nat) (k : Kind) (batch : List Callback)
  /-- A grace period for epoch `target`. -/
  | grace (engine : Nat) (k : Kind) (snapshot : Snapshot) (target : UInt32)
  /-- A barrier whose own grace period is not over. -/
  | barrier (engine : Nat) (k : Kind)
  /-- A barrier that waits for the drain task of its domain. -/
  | barrierEnd (engine : Nat) (k : Kind)
  /-- Waits until a ticket is served. -/
  | await (drain : Nat) (ticket : Nat)
  /-- The end of a pause of a task. -/
  | wake (scheduler : Nat) (task : Nat)
  /-- The loop of a drain thread, with the ticket that the pass under way serves. -/
  | worker (drain : Nat) (ticket : Option Nat)
  /-- Ends drain tasks one after the other and then goes on with `saved`. -/
  | shutdown (drains : List Nat) (saved : Outcome)
  /-- As `shutdown`, when the thread of `drain` is to end first. -/
  | joined (drain : Nat) (drains : List Nat) (saved : Outcome)

inductive Control
  /-- Start an operation; `held` is the engine on which the enclosing callback owns a handle. -/
  | eval (held : Option Nat) (op : Op)
  /-- Hand an outcome to the top frame. -/
  | back (o : Outcome)

/-- A stack of frames, which say what is left to do, and a control, which says what is done next. -/
structure Thread where
  name : ThreadName := .bare
  systemName : String := ""
  status : Status := .ended none
  /-- The schedulers that know the thread, with its task there. -/
  tasks : List (Nat × Nat) := []
  nests : Nests := []
  control : Control := .back (.ok .unit)
  stack : List Frame := []

instance : Inhabited Thread := ⟨{}⟩

/-- The handles on one engine in the table. -/
structure Slot where
  engine : Nat := 0
  handles : Nat := 0
  deriving Inhabited

/-- Threads that run one at a time over shared schedulers, engines and drain tasks. A thread keeps its
turn until it parks, waits, joins another thread or has nothing left to do. -/
structure Machine where
  /-- The schedulers that operations can name come first, then those that engines own. -/
  schedulers : Table Scheduler := {}
  /-- How many schedulers can be named. -/
  named : Nat := 0
  engines : Table Engine := {}
  drains : Table Drain := {}
  threads : Table Thread := {}
  slots : Table Slot := {}
  /-- Depths that sleepable locks have reached, by the names they were kept under. -/
  keys : List (String × UInt32) := []
  bareTask : Option Nat := none
  turn : Option Nat := none
  /-- Threads that can run, the next one first. -/
  ready : List Nat := []
  /-- What happened, newest first, with the thread it happened on. -/
  trace : List (Nat × Event) := []
  /-- How many workers an engine gets when nobody says. -/
  hostWorkers : Nat := 1
  deriving Inhabited

namespace Machine

def thread (m : Machine) (t : Nat) : Thread := m.threads.get t

def engine (m : Machine) (e : Nat) : Engine := m.engines.get e

def drain (m : Machine) (d : Nat) : Drain := m.drains.get d

def scheduler (m : Machine) (s : Nat) : Scheduler := m.schedulers.get s

def isLive (m : Machine) (t : Nat) : Bool :=
  match (m.thread t).status with
  | .ended _ => false
  | _ => true

def modifyThread (m : Machine) (t : Nat) (f : Thread → Thread) : Machine :=
  { m with threads := m.threads.modify t f }

def modifyEngine (m : Machine) (e : Nat) (f : Engine → Engine) : Machine :=
  { m with engines := m.engines.modify e f }

def modifyDrain (m : Machine) (d : Nat) (f : Drain → Drain) : Machine :=
  { m with drains := m.drains.modify d f }

def modifyScheduler (m : Machine) (s : Nat) (f : Scheduler → Scheduler) : Machine :=
  { m with schedulers := m.schedulers.modify s f }

def emit (m : Machine) (t : Nat) (v : Event) : Machine := { m with trace := (t, v) :: m.trace }

def log (m : Machine) (t : Nat) (l : Log) : Machine := m.emit t (.log l)

def mark (m : Machine) (t e : Nat) (k : Kind) (v : Mark) : Machine := m.emit t (.mark e k v)

def push (m : Machine) (t : Nat) (f : Frame) : Machine :=
  m.modifyThread t fun x => { x with stack := f :: x.stack }

def eval (m : Machine) (t : Nat) (held : Option Nat) (op : Op) : Machine :=
  m.modifyThread t fun x => { x with control := .eval held op }

def back (m : Machine) (t : Nat) (o : Outcome) : Machine :=
  m.modifyThread t fun x => { x with control := .back o }

def done (m : Machine) (t : Nat) : Machine := m.back t (.ok .unit)

def fail (m : Machine) (t : Nat) (f : Fault) : Machine := m.back t (.error (.fault f))

/-- As `back`, with a result that is computed where nothing is wrong. -/
def answer {α : Type} (m : Machine) (t : Nat) (f : α → Result) (r : Except Fault α) : Machine :=
  match r with
  | .ok a => m.back t (.ok (f a))
  | .error e => m.fail t e

def stop (m : Machine) (t : Nat) (s : Status) : Machine :=
  { m.modifyThread t (fun x => { x with status := s }) with turn := none }

def park (m : Machine) (t : Nat) (p : Park) : Machine := (m.done t).stop t (.parked p)

def wake (m : Machine) (t : Nat) : Machine :=
  { m.modifyThread t (fun x => { x with status := .active }) with ready := m.ready ++ [t] }

def wakeAll (m : Machine) (ts : List Nat) : Machine := ts.foldl wake m

def waitFor (m : Machine) (t d : Nat) : Machine :=
  ((m.done t).modifyDrain d fun x => { x with waiters := x.waiters ++ [t] }).stop t (.waiting d)

/-- Wakes everyone who waits for news of a drain task. The caller keeps its turn. -/
def notify (m : Machine) (d : Nat) : Machine :=
  (m.modifyDrain d fun x => { x with waiters := [] }).wakeAll (m.drain d).waiters

def spawn (m : Machine) (x : Thread) : Nat × Machine :=
  (m.threads.size, { m with threads := m.threads.push x })

end Machine

end GracePeriod
