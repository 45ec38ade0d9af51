import GracePeriod.Op

namespace GracePeriod

inductive Callback
  /-- Destroys a retired value. -/
  | destroy (size : Nat) (id : Option Nat)
  /-- Runs `body`; with `hold` it owns a handle on its engine until it is done. -/
  | call (id : Nat) (hold : Bool) (body : List Op)

namespace Callback

def holdsHandle : Callback → Bool
  | destroy .. => false
  | call _ hold _ => hold

/-- The sizes that a retired value can have. -/
def valueSize (size : Nat) : Nat := if size ∈ [0, 1, 4, 16] then size else 64

/-- The value is marked by one byte, unless it has none. -/
def ofValue (id size : Nat) : Callback :=
  let n := valueSize size
  destroy n (if n = 0 then none else some (id % 256))

/-- A value with this mark panics while it is destroyed. -/
def stubbornId : Nat := 255

end Callback

end GracePeriod
