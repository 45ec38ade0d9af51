import GracePeriod.Kind

namespace GracePeriod

inductive Fault
  | noWorkers
  | noSuchWorker (worker workers : Nat)
  | unpinned
  | noRecord (worker workers : Nat)
  | unregistered (worker : Nat) (kind : Kind)
  | tooManyReaders
  | noReader
  | slotOverflow
  | slotBeyondBuckets
  | slotUnallocated (slot : Nat)
  | slotFree (slot : Nat)
  | nestingOverflow
  | unlockOutside (kind : Kind)
  | synchronizeInside (kind : Kind)
  | barrierFromCallback (kind : Kind)
  | drainFromPass
  | keyOutOfOrder
  | offsetOutside (offset size : Nat)
  /-- The value being reclaimed refuses to go. -/
  | reclaimFailed
  /-- A pass of a bare drain task fails on purpose. -/
  | passFailed
  deriving DecidableEq

namespace Fault

def message : Fault → String
  | noWorkers => "a scheduler needs at least one worker"
  | noSuchWorker w n => s!"worker {w} out of range (scheduler has {n} workers)"
  | unpinned => "unpin without a matching pin"
  | noRecord w n => s!"worker {w} out of range ({n} workers)"
  | unregistered w k =>
    "worker " ++ toString w ++ " is not registered for the " ++ k.name ++ " domain"
  | tooManyReaders => "too many readers on one epoch record"
  | noReader => "BUG: EpochRecord::end without a matching begin"
  | slotOverflow => "attempt to add with overflow"
  | slotBeyondBuckets => "index out of bounds: the len is 63 but the index is 63"
  | slotUnallocated i => s!"slot {i} was never allocated"
  | slotFree i => s!"released slot {i} was not occupied"
  | nestingOverflow => "read-side nesting overflow"
  | unlockOutside k => "read_unlock(" ++ k.name ++ ") without a matching read_lock"
  | synchronizeInside k =>
    "synchronize(" ++ k.name ++ ") called inside a read-side critical section of the same domain"
  | barrierFromCallback k =>
    "barrier(" ++ k.name ++ ") called from a callback running on its own drain worker"
  | drainFromPass => "cannot wait for the drain worker from one of its own callbacks"
  | keyOutOfOrder => "srcu keys released out of order"
  | offsetOutside o n => s!"offset {o} lies outside a container of {n} bytes"
  | reclaimFailed => "drop panicked"
  | passFailed => "pass failure"

end Fault

end GracePeriod
