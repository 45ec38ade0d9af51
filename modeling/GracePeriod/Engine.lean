import GracePeriod.Callback
import GracePeriod.Domain
import GracePeriod.Event

namespace GracePeriod

/-- How calls reach a scheduler: through a recorder they are reported, and the worker count may be
another one than the scheduler has. -/
structure Access where
  scheduler : Nat := 0
  recorded : Bool := false
  workers : Nat := 0
  deriving Inhabited

/-- Two domains with their queues of callbacks, and a drain task for each. -/
structure Engine where
  /-- Its place in the table, if it has one. -/
  slot : Option Nat := none
  access : Access := {}
  pauseInterval : Nat := 0
  skipWhenHalted : Bool := true
  domains : PerKind Domain := .both {}
  queues : PerKind (List Callback) := .both []
  drains : PerKind Nat := .both 0
  /-- Handles in the table, of operations under way, and of callbacks. -/
  handles : Nat := 0
  deriving Inhabited

namespace Engine

def domain (e : Engine) (k : Kind) : Domain := e.domains.get k

def queue (e : Engine) (k : Kind) : List Callback := e.queues.get k

def setDomain (e : Engine) (k : Kind) (d : Domain) : Engine :=
  { e with domains := e.domains.set k d }

def setQueue (e : Engine) (k : Kind) (q : List Callback) : Engine :=
  { e with queues := e.queues.set k q }

def pending (e : Engine) : PerKind Nat := ⟨e.queues.regular.length, e.queues.sleepable.length⟩

end Engine

/-- The worker count of an engine, given what its scheduler offers, if it has one already, and what
the host offers. A disagreement comes before a count of zero. -/
def Config.workerCount (c : Config) (offered : Option Nat) (host : Nat) : Except BuildError Nat :=
  match offered with
  | some n =>
    if c.workers.all (· = n) then
      if n = 0 then .error .noWorkers else .ok n
    else .error (.workerCountMismatch (c.workers.getD 0) n)
  | none =>
    let n := c.workers.getD host
    if n = 0 then .error .noWorkers else .ok n

end GracePeriod
