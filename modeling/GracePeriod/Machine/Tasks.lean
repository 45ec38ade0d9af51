import GracePeriod.Machine.Basic

namespace GracePeriod.Machine

def task? (m : Machine) (t s : Nat) : Option Nat := (m.thread t).tasks.lookup s

/-- Makes thread `t` a task of scheduler `s` unless it is one. -/
def enroll (m : Machine) (t s : Nat) : Machine :=
  match m.task? t s with
  | some _ => m
  | none =>
    let p := (m.scheduler s).place
    { m with schedulers := m.schedulers.set s p.2 }.modifyThread t fun x =>
      { x with tasks := x.tasks ++ [(s, p.1)] }

def taskId (m : Machine) (t s : Nat) : Nat := (m.task? t s).getD 0

def task (m : Machine) (t s : Nat) : Task := (m.scheduler s).task (m.taskId t s)

def setTask (m : Machine) (t s : Nat) (x : Task) : Machine :=
  m.modifyScheduler s fun c => c.setTask (m.taskId t s) x

def changeTask (m : Machine) (t s : Nat) (f : Task → Task) : Machine :=
  let m := m.enroll t s
  m.setTask t s (f (m.task t s))

/-- Through a recorder, a call that changes something is an event before it is made. -/
def record (m : Machine) (t : Nat) (p : Access) (v : Event) : Machine :=
  if p.recorded then m.emit t v else m

def pin (m : Machine) (t : Nat) (p : Access) : Machine :=
  (m.record t p .pin).changeTask t p.scheduler Task.pin

def unpin (m : Machine) (t : Nat) (p : Access) : Machine × Except Fault Unit :=
  let m := (m.record t p .unpin).enroll t p.scheduler
  let q := (m.task t p.scheduler).unpin
  (m.setTask t p.scheduler q.1, q.2)

def setPinDepth (m : Machine) (t : Nat) (p : Access) (n : UInt32) : Machine :=
  (m.record t p (.setPinDepth n)).changeTask t p.scheduler fun x => { x with pinDepth := n }

/-- A worker that is out of range is refused before the thread is enrolled. -/
def bind (m : Machine) (t : Nat) (p : Access) (w : Nat) : Machine × Except Fault Unit :=
  let m := m.record t p (.bind w)
  match (m.scheduler p.scheduler).checkWorker w with
  | .error f => (m, .error f)
  | .ok () => (m.changeTask t p.scheduler (·.bind w), .ok ())

def unbind (m : Machine) (t : Nat) (p : Access) : Machine :=
  (m.record t p .unbind).changeTask t p.scheduler Task.unbind

def setPriority (m : Machine) (t : Nat) (p : Access) (q : Priority) : Machine :=
  (m.record t p (.setPriority q)).changeTask t p.scheduler fun x => { x with priority := q }

def isInhibited (m : Machine) (p : Access) (id : Nat) : Except Fault Bool :=
  if p.recorded then (m.scheduler p.scheduler).reportsInhibited id
  else (m.scheduler p.scheduler).isInhibited id

/-- The task is inhibited while it sleeps. The thread keeps the turn, so nobody else gets to see it. -/
def sleep (m : Machine) (t s : Nat) : Machine :=
  (m.changeTask t s fun x => { x with inhibited := true }).changeTask t s fun x =>
    { x with inhibited := false }

/-- Without a recorder the thread keeps its turn. So nobody else runs while it waits for a grace period
on a bare scheduler, and where a reader blocks it, that wait never ends. -/
def yield (m : Machine) (t : Nat) (p : Access) : Machine :=
  if p.recorded then (m.emit t .yield).park t .yield else m.done t

/-- Through a recorder the task counts as inhibited until the pause is over. Without one the thread
keeps its turn, as in `yield`. -/
def pause (m : Machine) (t : Nat) (p : Access) (micros : Nat) : Machine :=
  if p.recorded then
    let m := (m.emit t (.pause micros)).changeTask t p.scheduler fun x => { x with paused := true }
    (m.push t (.wake p.scheduler (m.taskId t p.scheduler))).park t .pause
  else (m.sleep t p.scheduler).done t

def endPause (m : Machine) (s id : Nat) : Machine :=
  m.modifyScheduler s fun c => c.setTask id { c.task id with paused := false }

def migrate (m : Machine) (t s w : Nat) : Machine × Except Fault Bool :=
  match (m.scheduler s).checkWorker w with
  | .error f => (m, .error f)
  | .ok () =>
    let m := m.enroll t s
    let x := m.task t s
    if x.movable then (m.setTask t s { x with worker := w }, .ok true) else (m, .ok false)

/-- The task that a call names, or else the caller's own. -/
def orSelf (m : Machine) (t s : Nat) : Option Nat → Machine × Nat
  | some id => (m, id)
  | none =>
    let m := m.enroll t s
    (m, m.taskId t s)

def callScheduler (m : Machine) (t : Nat) (p : Access) (c : SchedulerCall) : Machine :=
  let s := p.scheduler
  let enrolled := m.enroll t s
  let own (f : Task → Result) : Machine := enrolled.back t (.ok (f (enrolled.task t s)))
  match c with
  | .numWorkers => m.back t (.ok (.number p.workers))
  | .currentTask => enrolled.back t (.ok (.number (enrolled.taskId t s)))
  | .currentWorker => own fun x => .number x.worker
  | .pin => (m.pin t p).done t
  | .unpin =>
    let q := m.unpin t p
    q.1.answer t (fun _ => .unit) q.2
  | .pinDepth => own fun x => .number x.pinDepth.toNat
  | .setPinDepth n => (m.setPinDepth t p n).done t
  | .isBound => own fun x => .flag x.bound
  | .bind w =>
    let q := m.bind t p w
    q.1.answer t (fun _ => .unit) q.2
  | .unbind => (m.unbind t p).done t
  | .priority => own fun x => .number x.priority.level.toNat
  | .setPriority q => (m.setPriority t p q).done t
  | .taskPriority id =>
    let q := m.orSelf t s id
    q.1.answer t (fun l : Priority => .number l.level.toNat) ((q.1.scheduler s).priorityOf q.2)
  | .taskIsInhibited id =>
    let q := m.orSelf t s id
    q.1.answer t .flag (q.1.isInhibited p q.2)
  | .yield => m.yield t p
  | .pause micros => m.pause t p micros
  | .isHalted => m.back t (.ok (.flag (m.scheduler s).halted))
  | .dump => own fun x => .taskState (enrolled.taskId t s) x

def callLogical (m : Machine) (t s : Nat) (c : LogicalCall) : Machine :=
  match c with
  | .setHalted b => (m.modifyScheduler s fun x => { x with halted := b }).done t
  | .migrate w =>
    let q := m.migrate t s w
    q.1.answer t .flag q.2
  | .sleep => (m.sleep t s).done t
  | .workerOf id =>
    let q := m.orSelf t s id
    q.1.answer t .number ((q.1.scheduler s).workerOf q.2)
  | .setInhibited id b =>
    let q := m.orSelf t s id
    (q.1.modifyScheduler s fun x => x.mark q.2 b).done t

end GracePeriod.Machine
