import GracePeriod.Machine.Tasks

namespace GracePeriod.Machine

/-- Every operation of the engine is to do nothing. -/
def skips (m : Machine) (e : Nat) : Bool :=
  let x := m.engine e
  x.skipWhenHalted && (m.scheduler x.access.scheduler).halted

def nests (m : Machine) (t : Nat) : Nests := (m.thread t).nests

def setNests (m : Machine) (t : Nat) (ns : Nests) : Machine :=
  m.modifyThread t fun x => { x with nests := ns }

def readDepth (m : Machine) (t e : Nat) (k : Kind) : UInt32 := (m.nests t).depth e k

def setDepth (m : Machine) (t e : Nat) (k : Kind) (n : UInt32) : Machine :=
  m.setNests t ((m.nests t).update e fun x => x.setDepth k n)

def setDomain (m : Machine) (e : Nat) (k : Kind) (d : Domain) : Machine :=
  m.modifyEngine e fun x => x.setDomain k d

def enterRecord (m : Machine) (t e : Nat) (k : Kind) : Machine × Except Fault Unit :=
  let s := (m.engine e).access.scheduler
  let d := (m.engine e).domain k
  let w := (m.task t s).worker
  match d.registeredRecord k w with
  | .error f => (m, .error f)
  | .ok r =>
    let q := r.enter d.epoch (m.taskId t s)
    let m := m.setDomain e k (d.setRecord w q.1)
    match q.2 with
    | .error f => (m, .error f)
    | .ok slot =>
      let m := m.setNests t ((m.nests t).update e fun x => x.setPlace k w slot)
      (m.mark t e k (.opened w slot), .ok ())

/-- One level deeper; the outermost level enters a record. The thread is pinned. -/
def deepen (m : Machine) (t e : Nat) (k : Kind) : Machine × Except Fault Unit :=
  let n := m.readDepth t e k
  if n = 0xFFFFFFFF then (m.setNests t ((m.nests t).ensure e), .error .nestingOverflow)
  else
    let m := m.setDepth t e k (n + 1)
    if n = 0 then m.enterRecord t e k else (m, .ok ())

def openSection (m : Machine) (t e : Nat) (k : Kind) : Machine × Except Fault Unit :=
  let q := m.deepen t e k
  match q.2 with
  | .error f => (q.1.mark t e k .lockPanicked, .error f)
  | .ok () => q

/-- What the call has changed before it panics stays changed. -/
def readLock (m : Machine) (t e : Nat) (k : Kind) : Machine × Except Fault Unit :=
  if m.skips e then (m.mark t e k .skipped, .ok ())
  else (m.pin t (m.engine e).access).openSection t e k

/-- Leaves the record that the outermost section entered, whatever worker the thread is on now. -/
def leaveRecord (m : Machine) (t e : Nat) (k : Kind) (i : Nat) : Machine × Except Fault Unit :=
  let n := (m.nests t).getD i default
  let w := n.worker.get k
  let slot := n.slot.get k
  let q := ((m.engine e).domain k).onRecord w (·.leave slot)
  let m := m.setDomain e k q.1
  match q.2 with
  | .error f => (m, .error f)
  | .ok () =>
    let m := if n.isIdle then m.setNests t (swapRemove (m.nests t) i) else m
    (m.mark t e k (.closed w slot), .ok ())

/-- One level up; the thread stays pinned. -/
def closeSection (m : Machine) (t e : Nat) (k : Kind) : Machine × Except Fault Unit :=
  match (m.nests t).openPosition e k with
  | none => (m, .error (.unlockOutside k))
  | some i =>
    let n := ((m.nests t).getD i default).depth.get k - 1
    let m := m.setNests t ((m.nests t).modify i fun x => x.setDepth k n)
    if n = 0 then m.leaveRecord t e k i else (m, .ok ())

def readUnlock (m : Machine) (t e : Nat) (k : Kind) : Machine × Except Fault Unit :=
  if m.skips e then (m.mark t e k .skipped, .ok ())
  else
    let q := m.closeSection t e k
    match q.2 with
    | .error f => (q.1, .error f)
    | .ok () => q.1.unpin t (q.1.engine e).access

end GracePeriod.Machine
