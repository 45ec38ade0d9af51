import GracePeriod.Epoch

namespace GracePeriod.Trial

/-- What a call on one part of an engine answers. -/
inductive Reading
  | unit
  | number (n : Nat)
  | flag (b : Bool)
  | word (epoch active : UInt32)
  | worker? (w : Option Nat)
  /-- Two slots claimed in a row, the first and the last, if there was more than one. -/
  | claimed (first : Nat) (last : Option Nat)
  | values (vs : List (Nat × Nat))
  | readers (vs : List (Nat × Option Nat))
  | fault (f : Fault)
  /-- There is no call of this name. -/
  | unknown (name : String)
  deriving Inhabited

def Reading.ofExcept {α : Type} (f : α → Reading) : Except Fault α → Reading
  | .ok a => f a
  | .error e => .fault e

def Reading.ofWord (r : ReaderWord) : Reading := .word r.epoch r.active

end GracePeriod.Trial
