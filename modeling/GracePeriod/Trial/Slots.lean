import GracePeriod.SlotArray
import GracePeriod.Trial.Reading

namespace GracePeriod.Trial.Slots

inductive Call
  | acquire
  | acquireMany (n : Nat)
  | release (i : Nat)
  | get (i : Nat)
  | set (i v : Nat)
  | list
  | unknown (name : String)

/-- The last slot of `n` more acquisitions, if `n` is positive. -/
def acquireMore (a : SlotArray Nat) : Nat → SlotArray Nat × Option Nat
  | 0 => (a, none)
  | n + 1 =>
    let p := a.acquire
    let q := acquireMore p.2 n
    (q.1, q.2.or (some p.1))

def call (a : SlotArray Nat) : Call → SlotArray Nat × Reading
  | .acquire =>
    let p := a.acquire
    (p.2, .number p.1)
  | .acquireMany n =>
    let p := a.acquire
    let q := acquireMore p.2 (n - 1)
    (q.1, .claimed p.1 q.2)
  | .release i =>
    match a.release i with
    | .ok a => (a, .unit)
    | .error f => (a, .fault f)
  | .get i => (a, .ofExcept .number (a.get i))
  | .set i v =>
    match a.set i v with
    | .ok a => (a, .unit)
    | .error f => (a, .fault f)
  | .list => (a, .values a.toList)
  | .unknown name => (a, .unknown name)

def run (a : SlotArray Nat) : List Call → List Reading
  | [] => []
  | s :: rest =>
    let p := call a s
    p.2 :: run p.1 rest

end GracePeriod.Trial.Slots
