import GracePeriod.Fault

namespace GracePeriod

/-- Epoch `a` is strictly older than `b`: the wrapping distance from `a` to `b` is positive as a
signed number. So epochs wrap around, and `b` may be ahead by less than half a turn. -/
def isBefore (a b : UInt32) : Bool := decide (0 < (b - a).toInt32)

/-- The upper half is the epoch, the lower half the number of readers. -/
structure ReaderWord where
  word : UInt64 := 0
  deriving DecidableEq, Inhabited

namespace ReaderWord

def pack (epoch active : UInt32) : ReaderWord := ⟨epoch.toUInt64 <<< 32 ||| active.toUInt64⟩

/-- Means nothing while there are no readers. -/
def epoch (r : ReaderWord) : UInt32 := (r.word >>> 32).toUInt32

def active (r : ReaderWord) : UInt32 := r.word.toUInt32

/-- Readers from before `target` are still there. -/
def blocks (r : ReaderWord) (target : UInt32) : Bool := r.active != 0 && isBefore r.epoch target

/-- One reader more. The first one brings the epoch `now`, the others join its epoch. -/
def enter (r : ReaderWord) (now : UInt32) : Except Fault ReaderWord :=
  if r.active = 0 then .ok (pack now 1)
  else if r.active = 0xFFFFFFFF then .error .tooManyReaders
  else .ok (pack r.epoch (r.active + 1))

/-- One reader less. Where there is none, the whole word has gone down by one all the same. -/
def leave (r : ReaderWord) : ReaderWord × Except Fault Unit :=
  (⟨r.word - 1⟩, if r.active = 0 then .error .noReader else .ok ())

end ReaderWord

end GracePeriod
