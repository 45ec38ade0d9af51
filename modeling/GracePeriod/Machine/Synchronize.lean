import GracePeriod.Machine.Reader

namespace GracePeriod.Machine

def snapshot (m : Machine) (t s : Nat) : Snapshot :=
  let x := m.task t s
  { worker := x.worker, pinDepth := x.pinDepth, priority := x.priority, bound := x.bound }

/-- A pinned caller comes back to the worker it was pinned on. -/
def restore (m : Machine) (t : Nat) (p : Access) (c : Snapshot) : Machine :=
  let m :=
    if c.bound then (m.bind t p c.worker).1
    else (if c.pinDepth = 0 then m else (m.bind t p c.worker).1).unbind t p
  (m.setPinDepth t p c.pinDepth).setPriority t p c.priority

/-- The call up to the first look at the records: the caller is made free to move, and the epoch
advances. -/
def startSynchronize (m : Machine) (t e : Nat) (k : Kind) : Machine :=
  if m.skips e then (m.mark t e k .skipped).done t
  else if m.readDepth t e k != 0 then m.fail t (.synchronizeInside k)
  else
    let p := (m.engine e).access
    let m := (m.mark t e k .synchronizeCalled).enroll t p.scheduler
    let c := m.snapshot t p.scheduler
    let m := (((m.unbind t p).setPinDepth t p 0).bind t p c.worker).1
    let d := ((m.engine e).domain k).advance
    let m := (m.setDomain e k d).mark t e k (.advanced d.epoch)
    ((m.log t (.graceStarted k d.epoch)).push t (.grace e k c d.epoch)).done t

/-- The least urgent priority among the readers of a worker, and whether one is inhibited. -/
def surveyReaders (m : Machine) (p : Access) : List Nat → Except Fault (Priority × Bool)
  | [] => .ok (.highest, false)
  | id :: rest =>
    match (m.scheduler p.scheduler).priorityOf id, m.isInhibited p id with
    | .ok q, .ok b => (surveyReaders m p rest).map fun r => (q.leastUrgent r.1, b || r.2)
    | .error f, _ => .error f
    | _, .error f => .error f

def endSynchronize (m : Machine) (t e : Nat) (k : Kind) (c : Snapshot) : Machine :=
  let m := (m.log t (.graceCompleted k)).restore t (m.engine e).access c
  (m.mark t e k .synchronizeReturned).done t

def abortSynchronize (m : Machine) (t e : Nat) (k : Kind) (c : Snapshot) (p : Payload) : Machine :=
  let m := m.restore t (m.engine e).access c
  (m.mark t e k .synchronizePanicked).back t (.error p)

/-- One look at the records. The waiter goes over to the first worker with readers from before the
advance. There it yields at the priority of the readers, or pauses while one of them is inhibited. -/
def locateBlocker (m : Machine) (t e : Nat) (k : Kind) (c : Snapshot) (target : UInt32) : Machine :=
  let p := (m.engine e).access
  let d := (m.engine e).domain k
  match d.firstBlocker? target with
  | none => m.endSynchronize t e k c
  | some w =>
    if w = (m.task t p.scheduler).worker then
      match m.surveyReaders p (d.records.get w).tasks with
      | .error f => m.abortSynchronize t e k c (.fault f)
      | .ok (q, asleep) =>
        let m := m.push t (.grace e k c target)
        if asleep then (m.log t (.graceSleeping w)).pause t p (m.engine e).pauseInterval
        else (m.setPriority t p q).yield t p
    else
      let q := ((m.log t (.graceMoving k w)).setPriority t p .highest).bind t p w
      match q.2 with
      | .error f => q.1.abortSynchronize t e k c (.fault f)
      | .ok () => (q.1.push t (.grace e k c target)).done t

end GracePeriod.Machine
