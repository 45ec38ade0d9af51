import GracePeriod.Machine.Synchronize

namespace GracePeriod.Machine

def requestPass (m : Machine) (d : Nat) : Machine :=
  (m.modifyDrain d fun x => { x with tickets := x.tickets.request }).notify d

def isWorkerThread (m : Machine) (t d : Nat) : Bool := (m.drain d).thread = t

def retain (m : Machine) (e : Nat) : Machine :=
  m.modifyEngine e fun x => { x with handles := x.handles + 1 }

def enqueue (m : Machine) (t e : Nat) (k : Kind) (c : Callback) : Machine :=
  let m := if c.holdsHandle then m.retain e else m
  let m := m.modifyEngine e fun x => x.setQueue k (x.queue k ++ [c])
  (m.mark t e k (.queued c)).requestPass ((m.engine e).drains.get k)

/-- Waits until all that is requested now has been served. -/
def startDrain (m : Machine) (t d : Nat) : Machine :=
  if m.isWorkerThread t d then m.fail t .drainFromPass
  else (m.push t (.await d (m.drain d).tickets.requested)).done t

def resumeAwait (m : Machine) (t d ticket : Nat) : Machine :=
  if (m.drain d).tickets.covers ticket then m.done t
  else (m.push t (.await d ticket)).waitFor t d

def startBarrier (m : Machine) (t e : Nat) (k : Kind) : Machine :=
  if m.isWorkerThread t ((m.engine e).drains.get k) then m.fail t (.barrierFromCallback k)
  else ((m.mark t e k .barrierCalled).push t (.barrier e k)).startSynchronize t e k

def runCallbackBody (m : Machine) (t : Nat) (held : Option Nat) : List Op → Machine
  | [] => m.done t
  | op :: rest => (m.push t (.callbackBody held op.name rest)).eval t held op

def runCallback (m : Machine) (t e : Nat) : Callback → Machine
  | .destroy size id =>
    let m := m.emit t (.destroyed size id)
    if id = some Callback.stubbornId then m.fail t .reclaimFailed else m.done t
  | .call id hold body =>
    let m := m.emit t (.callback id)
    if hold then (m.push t (.release e)).runCallbackBody t (some e) body
    else m.runCallbackBody t none body

def runBatch (m : Machine) (t e : Nat) (k : Kind) : List Callback → Machine
  | [] => m.done t
  | c :: rest => ((m.mark t e k (.callbackStarted c)).push t (.batch e k rest)).runCallback t e c

def endCallback (m : Machine) (t e : Nat) (k : Kind) (rest : List Callback) (o : Outcome) :
    Machine :=
  let m :=
    match o with
    | .ok _ => m
    | .error p => m.log t (.callbackPanicked k p)
  (m.mark t e k .callbackEnded).runBatch t e k rest

/-- The handles that callbacks own go with them when they are thrown away. -/
def discardBatch (m : Machine) (t e : Nat) (batch : List Callback) (o : Outcome) : Machine :=
  ((batch.filter Callback.holdsHandle).foldl (fun m _ => m.push t (.release e)) m).back t o

def resumeDetached (m : Machine) (t e : Nat) (k : Kind) (batch : List Callback) (o : Outcome) :
    Machine :=
  match o with
  | .error p => m.discardBatch t e batch (.error p)
  | .ok _ => (m.log t (.callbacksRunning k batch.length)).runBatch t e k batch

/-- One pass: the queue is detached, and its batch runs in order after a grace period. -/
def runCallbacks (m : Machine) (t e : Nat) (k : Kind) : Machine :=
  match (m.engine e).queue k with
  | [] => m.done t
  | batch =>
    let m := m.modifyEngine e fun x => x.setQueue k []
    (m.push t (.detached e k batch)).startSynchronize t e k

/-- One pass of a bare task. It can call the task only while somebody holds a handle on it. -/
def runScripted (m : Machine) (t d i : Nat) (word : String) : Machine :=
  let m := m.emit t (.pass i)
  match word, (m.drain d).holders with
  | "gate", _ => m.park t .gate
  | "panic", _ => m.fail t .passFailed
  | "drain", _ + 1 => m.startDrain t d
  | "enqueue", _ + 1 => (m.requestPass d).done t
  | "is_worker", _ + 1 => (m.emit t (.isWorker (m.isWorkerThread t d))).done t
  | _, _ => m.done t

def startPass (m : Machine) (t d : Nat) : Machine :=
  let i := (m.drain d).passes
  let m := m.modifyDrain d fun x => { x with passes := i + 1 }
  match (m.drain d).work with
  | .callbacks e k => m.runCallbacks t e k
  | .scripted words => m.runScripted t d i (words.getD i "")

/-- A thread is gone: its tasks are free, and those who wait for its end go on. -/
def endThread (m : Machine) (t : Nat) (panic : Option Payload) : Machine :=
  let tasks := (m.thread t).tasks
  let m := tasks.foldl (fun m p => m.modifyScheduler p.1 (·.release p.2)) m
  let m := m.modifyThread t fun x => { x with status := .ended panic, tasks := [], stack := [] }
  let joiners := m.threads.indices.filter fun u =>
    match (m.thread u).status with
    | .joining v => v = t
    | _ => false
  { m.wakeAll joiners with turn := none }

/-- A drain thread is between two passes, or was woken. -/
def workerLoop (m : Machine) (t d : Nat) : Machine :=
  match (m.drain d).tickets.duty with
  | .stop => m.endThread t none
  | .rest => (m.push t (.worker d none)).waitFor t d
  | .serve ticket => (m.push t (.worker d (some ticket))).startPass t d

def resumeWorker (m : Machine) (t d : Nat) (ticket : Option Nat) (o : Outcome) : Machine :=
  match o, ticket with
  | .error p, _ => m.endThread t (some p)
  | .ok _, none => m.workerLoop t d
  | .ok _, some n =>
    ((m.modifyDrain d fun x => { x with tickets := x.tickets.complete n }).notify d).workerLoop t d

/-- Waits until another thread has ended. Where it has ended already, the caller gives its turn away
all the same, to those that are in the queue before it. -/
def join (m : Machine) (t u : Nat) : Machine :=
  let m := m.stop t (.joining u)
  if m.isLive u then m else m.wake t

/-- Stops drain tasks in order. The caller waits for each of their threads except its own. -/
def shutdown (m : Machine) (t : Nat) (drains : List Nat) (saved : Outcome) : Machine :=
  match drains with
  | [] => m.back t saved
  | d :: rest =>
    let m := (m.modifyDrain d fun x => { x with tickets := x.tickets.close }).notify d
    let u := (m.drain d).thread
    if u = t then (m.push t (.shutdown rest saved)).done t
    else ((m.push t (.joined d rest saved)).done t).join t u

def resumeJoined (m : Machine) (t d : Nat) (rest : List Nat) (saved : Outcome) : Machine :=
  let x := m.thread (m.drain d).thread
  let m :=
    match x.status with
    | .ended (some p) => m.log t (.workerPanicked x.systemName p)
    | _ => m
  (m.push t (.shutdown rest saved)).done t

/-- Gives up a handle; the last one takes the engine with it. -/
def releaseHandle (m : Machine) (t e : Nat) (o : Outcome) : Machine :=
  let n := (m.engine e).handles - 1
  let m := m.modifyEngine e fun x => { x with handles := n }
  if n = 0 then
    let x := m.engine e
    (m.log t (.engineStopping x.pending)).shutdown t x.drains.toList o
  else m.back t o

def releaseTask (m : Machine) (t d : Nat) (o : Outcome) : Machine :=
  let n := (m.drain d).holders - 1
  let m := m.modifyDrain d fun x => { x with holders := n }
  if n = 0 then m.shutdown t [d] o else m.back t o

end GracePeriod.Machine
