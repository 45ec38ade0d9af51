import GracePeriod.Fault

namespace GracePeriod

/-- The depths of one engine, and where the outermost section of each kind entered. -/
structure Nest where
  engine : Nat
  depth : PerKind UInt32 := .both 0
  worker : PerKind Nat := .both 0
  slot : PerKind Nat := .both 0
  deriving Inhabited

namespace Nest

def isIdle (n : Nest) : Bool := n.depth.regular = 0 && n.depth.sleepable = 0

def setDepth (n : Nest) (k : Kind) (d : UInt32) : Nest := { n with depth := n.depth.set k d }

def setPlace (n : Nest) (k : Kind) (w slot : Nat) : Nest :=
  { n with worker := n.worker.set k w, slot := n.slot.set k slot }

end Nest

/-- Removes an entry; the last one takes its place. -/
def swapRemove {α : Type} (l : List α) (i : Nat) : List α :=
  match l.getLast? with
  | none => l
  | some last => (l.set i last).dropLast

/-- What one thread remembers of its open sections, with one entry for each engine at most. -/
abbrev Nests := List Nest

namespace Nests

def position (ns : Nests) (e : Nat) : Option Nat := ns.findIdx? (·.engine = e)

/-- Where an entry of an engine is that has an open section. -/
def openPosition (ns : Nests) (e : Nat) (k : Kind) : Option Nat :=
  ns.findIdx? fun n => n.engine = e && n.depth.get k != 0

def ensure (ns : Nests) (e : Nat) : Nests :=
  match ns.position e with
  | some _ => ns
  | none => ns ++ [{ engine := e }]

def update (ns : Nests) (e : Nat) (f : Nest → Nest) : Nests :=
  let ns := ns.ensure e
  match ns.position e with
  | none => ns
  | some i => ns.modify i f

def depth (ns : Nests) (e : Nat) (k : Kind) : UInt32 :=
  match ns.find? (·.engine = e) with
  | none => 0
  | some n => n.depth.get k

end Nests

end GracePeriod
