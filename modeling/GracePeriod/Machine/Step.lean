import GracePeriod.Machine.Eval

namespace GracePeriod

/-- The panic of the operation becomes its result. -/
def Op.isCaught : Op → Bool
  | .panic _ => false
  | .guard _ _ _ caught _ => caught
  | _ => true

namespace Machine

def start (m : Machine) (t : Nat) (held : Option Nat) (op : Op) : Machine :=
  (if op.isCaught then m.push t .attempt else m).startOp t held op

/-- Hands an outcome to a frame, which is off the stack. A guard is dropped also while a panic unwinds
its body: where the drop panics as well, its panic takes the place of the first one, whereas a process
with two panics at once on a thread is aborted. -/
def resume (m : Machine) (t : Nat) (o : Outcome) : Frame → Machine
  | .attempt =>
    match o with
    | .ok r => m.back t (.ok r)
    | .error p => m.back t (.ok (.panicked p))
  | .release e => m.releaseHandle t e o
  | .releaseTask d => m.releaseTask t d o
  | .leave e k =>
    let q := m.readUnlock t e k
    match q.2 with
    | .error f => q.1.fail t f
    | .ok () => q.1.back t o
  | .guardBody held k done rest =>
    match o with
    | .error p => m.back t (.error p)
    | .ok r => m.runGuardBody t held k (done ++ [r]) rest
  | .callbackBody held name rest =>
    match o with
    | .error p => m.back t (.error p)
    | .ok r => (m.emit t (.opEnded name r)).runCallbackBody t held rest
  | .batch e k rest => m.endCallback t e k rest o
  | .detached e k batch => m.resumeDetached t e k batch o
  | .grace e k c target =>
    match o with
    | .error p => m.abortSynchronize t e k c p
    | .ok _ => m.locateBlocker t e k c target
  | .barrier e k =>
    match o with
    | .error p => m.back t (.error p)
    | .ok _ => (m.push t (.barrierEnd e k)).startDrain t ((m.engine e).drains.get k)
  | .barrierEnd e k =>
    match o with
    | .error p => m.back t (.error p)
    | .ok r => (m.mark t e k .barrierReturned).back t (.ok r)
  | .await d ticket =>
    match o with
    | .error p => m.back t (.error p)
    | .ok _ => m.resumeAwait t d ticket
  | .wake s id => (m.endPause s id).back t o
  | .worker d ticket => m.resumeWorker t d ticket o
  | .shutdown drains saved => m.shutdown t drains saved
  | .joined d drains saved => m.resumeJoined t d drains saved

def finish (m : Machine) (t : Nat) (o : Outcome) : Machine :=
  let r :=
    match o with
    | .ok r => r
    | .error p => .panicked p
  (m.emit t (.finished r)).stop t .idle

def advance (m : Machine) (t : Nat) : Machine :=
  let x := m.thread t
  match x.control, x.stack with
  | .eval held op, _ => m.start t held op
  | .back o, [] => m.finish t o
  | .back o, f :: rest => (m.modifyThread t fun x => { x with stack := rest }).resume t o f

/-- The thread that has the turn does one thing; when nobody has it, the first one in the queue gets it. -/
def step (m : Machine) : Option Machine :=
  match m.turn, m.ready with
  | some t, _ => some (m.advance t)
  | none, t :: rest => some { m with turn := some t, ready := rest }
  | none, [] => none

/-- At most `fuel` steps, fewer if the machine comes to rest. -/
def run : Nat → Machine → Machine
  | 0, m => m
  | fuel + 1, m =>
    match m.step with
    | none => m
    | some m => run fuel m

/-- A wait through a scheduler that never parks its callers can go on for ever, so there is a limit
far above what any other work takes. -/
def stepLimit : Nat := 1000000

def settle (m : Machine) : Machine := m.run stepLimit

end Machine

end GracePeriod
