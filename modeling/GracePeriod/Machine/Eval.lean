import GracePeriod.Machine.Deferred

namespace GracePeriod.Machine

def refuse (m : Machine) (t : Nat) (r : Refusal) : Machine := m.back t (.ok (.refused r))

def tableEngine (m : Machine) (slot : Nat) : Option Nat :=
  let s := m.slots.get slot
  if s.handles = 0 then none else some s.engine

/-- The engine that an operation means. A callback with a handle uses its own. -/
def resolve (m : Machine) (held : Option Nat) (slot : Nat) : Option Nat :=
  match held with
  | some e => if (m.engine e).slot = some slot then some e else m.tableEngine slot
  | none => m.tableEngine slot

/-- Goes on with an engine; the operation has a handle of its own until it is done. -/
def withEngine (m : Machine) (t : Nat) (held : Option Nat) (slot : Nat)
    (f : Machine → Nat → Machine) : Machine :=
  match m.resolve held slot with
  | none => m.refuse t .noEngine
  | some e => f ((m.retain e).push t (.release e)) e

def liveThread? (m : Machine) (n : ThreadName) : Option Nat :=
  m.threads.indices.find? fun t => (m.thread t).name = n && m.isLive t

def slotInUse (m : Machine) (slot : Nat) : Bool :=
  (m.slots.get slot).handles != 0 ||
    Kind.all.any fun k => (m.liveThread? (.drain (some slot) k)).isSome

/-- A drain task whose thread already waits for its first request. -/
def spawnDrain (m : Machine) (name : ThreadName) (systemName : String) (x : Drain) :
    Nat × Machine :=
  let d := m.drains.size
  let p := m.spawn { name, systemName, status := .waiting d, stack := [.worker d none] }
  (d, { p.2 with drains := p.2.drains.push { x with thread := p.1, waiters := [p.1] } })

/-- Starts an engine over `access.workers` workers. It has one handle, which is the caller's. -/
def startEngine (m : Machine) (slot : Option Nat) (c : Config) (access : Access) : Nat × Machine :=
  let e := m.engines.size
  let start (k : Kind) (m : Machine) : Nat × Machine :=
    m.spawnDrain (.drain slot k) (c.threadName ++ "-" ++ k.name) { work := .callbacks e k }
  let p := start .regular m
  let q := start .sleepable p.2
  let fresh := Domain.startBoth access.workers c.seeds
  let domains :=
    if c.autoRegister then ⟨fresh.regular.registerAll, fresh.sleepable.registerAll⟩ else fresh
  let x : Engine :=
    { slot, access, pauseInterval := c.pauseInterval, skipWhenHalted := c.skipWhenHalted, domains,
      drains := ⟨p.1, q.1⟩, handles := 1 }
  (e, { q.2 with engines := q.2.engines.push x })

def offered (m : Machine) (c : Config) : Option Nat :=
  c.scheduler.map fun s => c.claimedWorkers.getD (m.scheduler s).workers

def accessFor (m : Machine) (c : Config) (workers : Nat) : Machine × Access :=
  match c.scheduler with
  | some s => (m, { scheduler := s, recorded := true, workers })
  | none =>
    ({ m with schedulers := m.schedulers.push { workers } },
      { scheduler := m.schedulers.size, recorded := false, workers })

/-- Builds an engine and tells which one it is and how many workers it has. -/
def buildEngine (m : Machine) (t : Nat) (slot : Option Nat) (c : Config) :
    Except BuildError (Nat × Nat × Machine) :=
  (c.workerCount (m.offered c) m.hostWorkers).map fun n =>
    let p := m.accessFor c n
    let q := p.1.startEngine slot c p.2
    (q.1, n, q.2.log t (.engineStarted n c.autoRegister c.skipWhenHalted))

def build (m : Machine) (t slot : Nat) (c : Config) : Machine :=
  let m := { m with slots := m.slots.modify slot id }
  if m.slotInUse slot then m.refuse t .slotInUse
  else if c.scheduler.any (m.named ≤ ·) then m.refuse t .noScheduler
  else
    match m.buildEngine t (some slot) c with
    | .error f => m.back t (.ok (.unbuilt f))
    | .ok (e, n, m) =>
      { m with slots := m.slots.set slot { engine := e, handles := 1 } }.back t (.ok (.number n))

def surveyEngine (m : Machine) (e : Nat) (k : Kind) : Result :=
  let d := (m.engine e).domain k
  .flags (d.workers != 0) ((List.range d.workers).all fun w => (d.records.get w).registered)

/-- The new engine goes at once, which takes the turns that the end of its drain threads takes. -/
def buildDefault (m : Machine) (t : Nat) (k : Kind) : Machine :=
  match m.buildEngine t none {} with
  | .error f => m.back t (.ok (.unbuilt f))
  | .ok (e, _, m) => m.releaseHandle t e (.ok (m.surveyEngine e k))

def clone (m : Machine) (t : Nat) (held : Option Nat) (slot : Nat) : Machine :=
  match m.resolve held slot with
  | none => m.refuse t .noEngine
  | some e =>
    let n := (m.slots.get slot).handles + 1
    let m := m.retain e
    { m with slots := m.slots.set slot { engine := e, handles := n } }.back t (.ok (.number n))

def dropHandle (m : Machine) (t slot : Nat) : Machine :=
  match m.tableEngine slot with
  | none => m.refuse t .noEngine
  | some e =>
    let n := (m.slots.get slot).handles - 1
    let m := { m with slots := m.slots.set slot { engine := e, handles := n } }
    m.releaseHandle t e (.ok (.number n))

/-- Asks the record of a worker, which must be there. -/
def askRecord {α : Type} (m : Machine) (t e : Nat) (k : Kind) (w : Nat) (f : α → Result)
    (g : WorkerRecord → α) : Machine :=
  m.answer t f ((((m.engine e).domain k).record w).map g)

def register (m : Machine) (t e : Nat) (k : Kind) (w : Nat) : Machine :=
  let q := ((m.engine e).domain k).register w
  match q.2 with
  | .error f => m.fail t f
  | .ok newly =>
    let m := m.setDomain e k q.1
    let m := if newly then m.log t (.workerRegistered k w) else m
    m.back t (.ok (.flag newly))

/-- The key carries the depth that the lock has reached. -/
def srcuLock (m : Machine) (t e : Nat) (key : String) : Machine :=
  let q := m.readLock t e .sleepable
  match q.2 with
  | .error f => q.1.fail t f
  | .ok () =>
    let n := q.1.readDepth t e .sleepable
    { q.1 with keys := (key, n) :: q.1.keys }.back t (.ok (.number n.toNat))

/-- A key from a time when the engine was halted carries no depth and opens any section. -/
def srcuUnlock (m : Machine) (t e : Nat) (key : String) : Machine :=
  match m.keys.lookup key with
  | none => m.back t (.ok (.text "no_key"))
  | some n =>
    if n = 0 || n = m.readDepth t e .sleepable then
      let q := m.readUnlock t e .sleepable
      q.1.answer t (fun _ => .unit) q.2
    else m.fail t .keyOutOfOrder

def callHandle (m : Machine) (t e : Nat) (c : HandleCall) : Machine :=
  let unit (q : Machine × Except Fault Unit) : Machine := q.1.answer t (fun _ => .unit) q.2
  match c with
  | .register k w => m.register t e k w
  | .isRegistered k w => m.askRecord t e k w .flag (·.registered)
  | .activeReaders k w => m.askRecord t e k w .number (·.readerCount)
  | .readLock k => unit (m.readLock t e k)
  | .readUnlock k => unit (m.readUnlock t e k)
  | .readDepth k => m.back t (.ok (.number (m.readDepth t e k).toNat))
  | .synchronize k => m.startSynchronize t e k
  | .barrier k => m.startBarrier t e k
  | .currentEpoch k => m.back t (.ok (.number ((m.engine e).domain k).epoch.toNat))
  | .pending k => m.back t (.ok (.number ((m.engine e).queue k).length))
  | .numWorkers => m.back t (.ok (.number (m.engine e).access.workers))
  | .deferDrop k id size => (m.enqueue t e k (.ofValue id size)).done t
  | .deferContainer k id size offset =>
    let n := Callback.valueSize size
    if max n 1 ≤ offset then m.fail t (.offsetOutside offset n)
    else (m.enqueue t e k (.ofValue id size)).done t
  | .srcuLock key => m.srcuLock t e key
  | .srcuUnlock key => m.srcuUnlock t e key
  | .srcuDepth => m.back t (.ok (.number (m.readDepth t e .sleepable).toNat))
  | .srcuSynchronize => m.startSynchronize t e .sleepable
  | .srcuBarrier => m.startBarrier t e .sleepable

def runGuardBody (m : Machine) (t : Nat) (held : Option Nat) (k : Kind) (done : List Result) :
    List Op → Machine
  | [] => m.back t (.ok (.guarded k done))
  | op :: rest => (m.push t (.guardBody held k done rest)).eval t held op

def startGuard (m : Machine) (t e : Nat) (held : Option Nat) (k : Kind) (body : List Op) :
    Machine :=
  let q := m.readLock t e k
  match q.2 with
  | .error f => q.1.fail t f
  | .ok () => (q.1.push t (.leave e k)).runGuardBody t held k [] body

def callTask (m : Machine) (t : Nat) (c : TaskCall) : Machine :=
  match c, m.bareTask with
  | .spawn name passes, task =>
    if task.isSome || (m.liveThread? .bare).isSome then m.refuse t .slotInUse
    else
      let p := m.spawnDrain .bare name { work := .scripted passes, holders := 1 }
      { p.2 with bareTask := some p.1 }.done t
  | _, none => m.refuse t .noTask
  | .enqueue, some d => (m.requestPass d).done t
  | .drain, some d =>
    let m := m.modifyDrain d fun x => { x with holders := x.holders + 1 }
    (m.push t (.releaseTask d)).startDrain t d
  | .isWorker, some d => m.back t (.ok (.flag (m.isWorkerThread t d)))
  | .drop, some d => { m with bareTask := none }.releaseTask t d (.ok .unit)

def withScheduler (m : Machine) (t s : Nat) (f : Machine) : Machine :=
  if s < m.named then f else m.refuse t .noScheduler

/-- Operations that can park or wait leave frames behind, the others answer at once. -/
def startOp (m : Machine) (t : Nat) (held : Option Nat) : Op → Machine
  | .build slot c => m.build t slot c
  | .buildDefault k => m.buildDefault t k
  | .clone slot => m.clone t held slot
  | .dropHandle slot => m.dropHandle t slot
  | .handle slot c => m.withEngine t held slot fun m e => m.callHandle t e c
  | .call slot _ k id hold body =>
    m.withEngine t held slot fun m e => (m.enqueue t e k (.call id hold body)).done t
  | .guard slot _ k _ body => m.withEngine t held slot fun m e => m.startGuard t e held k body
  | .engineScheduler slot c =>
    m.withEngine t held slot fun m e => m.callScheduler t (m.engine e).access c
  | .scheduler s c =>
    let access : Access := { scheduler := s, recorded := false, workers := (m.scheduler s).workers }
    m.withScheduler t s (m.callScheduler t access c)
  | .logical s c => m.withScheduler t s (m.callLogical t s c)
  | .task c => m.callTask t c
  | .panic p => m.back t (.error p)
  | .note text => m.back t (.ok (.noted text))
  | .gate => m.park t .gate
  | .threadName => m.back t (.ok (.text (m.thread t).systemName))
  | .unknown name => m.back t (.ok (.unknown name))

end GracePeriod.Machine
