import GracePeriod.Machine.Step

namespace GracePeriod

namespace Script

inductive Step
  /-- Wakes a parked thread, with a panic if there is a text for one. -/
  | resume (who : String) (panic : Option String)
  | resumeAll
  /-- Ends the thread of an actor. Its open sections stay open. -/
  | exit (actor : Nat)
  | act (actor : Nat) (op : Op)

/-- A step that cannot be made changes nothing. -/
inductive Denial
  | notParked
  | busy

def Denial.name : Denial → String
  | notParked => "not_parked"
  | busy => "busy"

structure EngineView where
  epochs : PerKind UInt32
  pending : PerKind Nat
  active : PerKind (List Nat)

structure Report where
  /-- The actors that finished an operation. -/
  done : List (String × Result)
  events : List (String × List Event)
  blocked : List (String × String)
  denied : Option Denial
  slots : List (Option EngineView)

end Script

def Park.name : Park → String
  | yield => "yield"
  | pause => "pause"
  | gate => "gate"

namespace Machine

open Script

def new (workers : List Nat) (hostWorkers : Nat) : Except Fault Machine := do
  let schedulers ← workers.mapM Scheduler.new
  return { schedulers := ⟨schedulers⟩, named := workers.length, hostWorkers }

def isParked (m : Machine) (t : Nat) : Bool :=
  match (m.thread t).status with
  | .parked _ => true
  | _ => false

def isIdle (m : Machine) (t : Nat) : Bool :=
  match (m.thread t).status with
  | .idle => true
  | _ => false

/-- The parked threads in the order of their names. -/
def parkedThreads (m : Machine) : List Nat :=
  (m.threads.indices.filter m.isParked).mergeSort fun t u =>
    (m.thread t).name.text ≤ (m.thread u).name.text

/-- The thread of an actor, started when it is not there. -/
def actor (m : Machine) (i : Nat) : Nat × Machine :=
  let name : ThreadName := .actor i
  match m.liveThread? name with
  | some t => (t, m)
  | none => m.spawn { name, systemName := name.text, status := .idle }

def begin (m : Machine) : Step → Machine × Option Denial
  | .resume who panic =>
    match m.parkedThreads.find? fun t => (m.thread t).name.text = who with
    | none => (m, some .notParked)
    | some t =>
      match panic with
      | none => (m.wake t, none)
      | some text => ((m.back t (.error (.text text))).wake t, none)
  | .resumeAll => (m.wakeAll m.parkedThreads, none)
  | .exit i =>
    let p := m.actor i
    if p.2.isIdle p.1 then (p.2.endThread p.1 none, none) else (m, some .busy)
  | .act i op =>
    let p := m.actor i
    if p.2.isIdle p.1 then ((p.2.eval p.1 none op).wake p.1, none) else (m, some .busy)

/-- After a step of a script the machine runs until it is at rest. -/
def perform (m : Machine) (s : Step) : Machine × Option Denial :=
  let p := m.begin s
  (p.1.settle, p.2)

/-- Why a thread does not go on, where that is reported. -/
def blockedBy (m : Machine) (t : Nat) : Option String :=
  let x := m.thread t
  match x.status, x.name with
  | .parked p, _ => some p.name
  | .waiting _, .actor _ => some "wait"
  | .joining _, _ => some "join"
  | _, _ => none

def viewSlot (m : Machine) (slot : Nat) : Option EngineView :=
  (m.tableEngine slot).map fun e =>
    let x := m.engine e
    { epochs := ⟨(x.domain .regular).epoch, (x.domain .sleepable).epoch⟩
      pending := x.pending
      active := ⟨(x.domain .regular).readerCounts, (x.domain .sleepable).readerCounts⟩ }

end Machine

namespace Event

/-- The event is one of those that a report lists. The log is listed on demand. -/
def isListed (log : Bool) : Event → Bool
  | .mark .. | .finished _ => false
  | .log _ => log
  | _ => true

def result? : Event → Option Result
  | .finished r => some r
  | _ => none

end Event

namespace Script

/-- Sorts what happened by the name of the thread, in the order in which it happened. -/
def byName {α β : Type} (name : Nat → String) (f : α → Option β) (entries : List (Nat × α)) :
    List (String × List β) :=
  let names := (entries.map (name ·.1)).eraseDups
  (names.map fun n =>
    (n, entries.filterMap fun p => if name p.1 = n then f p.2 else none)).filter (!·.2.isEmpty)

/-- What the steps since `m` have brought. -/
def report (log : Bool) (m m' : Machine) (denied : Option Denial) : Report :=
  let news := (m'.trace.take (m'.trace.length - m.trace.length)).reverse
  let name (t : Nat) : String := (m'.thread t).name.text
  { done := (byName name Event.result? news).flatMap fun p => p.2.map (p.1, ·)
    events := byName name (fun v => if v.isListed log then some v else none) news
    blocked := m'.threads.indices.filterMap fun t => (m'.blockedBy t).map (name t, ·)
    denied
    slots := m'.slots.indices.map m'.viewSlot }

def run (log : Bool) (m : Machine) : List Step → List Report
  | [] => []
  | s :: rest =>
    let p := m.perform s
    report log m p.1 p.2 :: run log p.1 rest

end Script

end GracePeriod
