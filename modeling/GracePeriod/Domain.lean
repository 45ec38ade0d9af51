import GracePeriod.Epoch
import GracePeriod.SlotArray
import GracePeriod.Table

namespace GracePeriod

/-- The task that a reader slot names. The largest word says that no task is named. -/
def taskOfWord (n : Nat) : Option Nat := if n = UInt64.size - 1 then none else some n

structure WorkerRecord where
  registered : Bool := false
  word : ReaderWord := {}
  readers : SlotArray (Option Nat) := {}
  deriving Inhabited

namespace WorkerRecord

def addReader (r : WorkerRecord) (task : Nat) : Nat × WorkerRecord :=
  let p := r.readers.acquire
  (p.1, { r with readers := p.2.setD p.1 (taskOfWord task) })

/-- Withdraws the name before the slot is given back, so it is gone even where the slot turns out
to be free. -/
def removeReader (r : WorkerRecord) (slot : Nat) : WorkerRecord × Except Fault Unit :=
  match r.readers.set slot none with
  | .error f => (r, .error f)
  | .ok readers =>
    match readers.release slot with
    | .error f => ({ r with readers }, .error f)
    | .ok readers => ({ r with readers }, .ok ())

def tasks (r : WorkerRecord) : List Nat := r.readers.toList.filterMap (·.2)

def readerCount (r : WorkerRecord) : Nat := r.tasks.length

def begin (r : WorkerRecord) (now : UInt32) : WorkerRecord × Except Fault Unit :=
  match r.word.enter now with
  | .error f => (r, .error f)
  | .ok word => ({ r with word }, .ok ())

def finish (r : WorkerRecord) : WorkerRecord × Except Fault Unit :=
  let p := r.word.leave
  ({ r with word := p.1 }, p.2)

/-- An outermost section of `task` opens in epoch `now`. When the word is full, the slot stays
taken. -/
def enter (r : WorkerRecord) (now : UInt32) (task : Nat) : WorkerRecord × Except Fault Nat :=
  let p := r.addReader task
  let q := p.2.begin now
  (q.1, q.2.map fun _ => p.1)

def leave (r : WorkerRecord) (slot : Nat) : WorkerRecord × Except Fault Unit :=
  let p := r.finish
  match p.2 with
  | .error f => (p.1, .error f)
  | .ok () => p.1.removeReader slot

end WorkerRecord

/-- The epoch counter of one kind, and a record of readers for every worker. -/
structure Domain where
  epoch : UInt32 := 0
  workers : Nat := 0
  records : Table WorkerRecord := {}
  deriving Inhabited

namespace Domain

/-- Starting values go to the counters in this order: the epoch, then the word of each worker. What
gets none starts at zero. -/
def start (workers : Nat) (seeds : List UInt32) : Domain where
  epoch := seeds.headD 0
  workers := workers
  records := ⟨(List.range workers).map fun w => { word := ⟨(seeds.getD (w + 1) 0).toUInt64⟩ }⟩

/-- Both domains of an engine; the sleepable one gets the starting values that the regular one
leaves over. -/
def startBoth (workers : Nat) (seeds : List UInt32) : PerKind Domain :=
  ⟨start workers seeds, start workers (seeds.drop (workers + 1))⟩

def setRecord (d : Domain) (w : Nat) (r : WorkerRecord) : Domain :=
  { d with records := d.records.set w r }

def record (d : Domain) (w : Nat) : Except Fault WorkerRecord :=
  if w < d.workers then .ok (d.records.get w) else .error (.noRecord w d.workers)

def registeredRecord (d : Domain) (k : Kind) (w : Nat) : Except Fault WorkerRecord :=
  match d.record w with
  | .error f => .error f
  | .ok r => if r.registered then .ok r else .error (.unregistered w k)

def onRecord {α : Type} (d : Domain) (w : Nat)
    (f : WorkerRecord → WorkerRecord × Except Fault α) : Domain × Except Fault α :=
  match d.record w with
  | .error e => (d, .error e)
  | .ok r =>
    let p := f r
    (d.setRecord w p.1, p.2)

/-- Answers whether the worker was not registered before. -/
def register (d : Domain) (w : Nat) : Domain × Except Fault Bool :=
  d.onRecord w fun r => ({ r with registered := true }, .ok !r.registered)

def registerAll (d : Domain) : Domain :=
  (List.range d.workers).foldl (fun d w => (d.register w).1) d

def advance (d : Domain) : Domain := { d with epoch := d.epoch + 1 }

def isBlocker (d : Domain) (target : UInt32) (w : Nat) : Bool :=
  (d.records.get w).registered && (d.records.get w).word.blocks target

/-- The lowest registered worker that still has readers from before `target`. -/
def firstBlocker? (d : Domain) (target : UInt32) : Option Nat :=
  (List.range d.workers).find? (d.isBlocker target)

def readerCounts (d : Domain) : List Nat :=
  (List.range d.workers).map fun w => (d.records.get w).readerCount

end Domain

end GracePeriod
