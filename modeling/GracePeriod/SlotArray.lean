import GracePeriod.Fault

namespace GracePeriod

structure Cell (α : Type) where
  occupied : Bool := false
  value : α
  deriving Inhabited

/-- Reusable slots: bucket `b` holds the slots `2 ^ b - 1` up to `2 ^ (b + 1) - 2`. A slot keeps its value
when it is freed and handed out again. -/
structure SlotArray (α : Type) where
  buckets : List (List (Cell α)) := []
  deriving Inhabited

namespace SlotArray

variable {α : Type}

/-- The first free cell of a bucket, now taken. -/
def claim? : List (Cell α) → Option (Nat × List (Cell α))
  | [] => none
  | c :: cs =>
    if c.occupied then (claim? cs).map fun p => (p.1 + 1, c :: p.2)
    else some (0, { c with occupied := true } :: cs)

/-- Takes the first free slot of the buckets, of which the first has number `b` and starts at slot
`first`; when all are full, the first slot of a new bucket. -/
def acquireFrom [Inhabited α] (b first : Nat) :
    List (List (Cell α)) → Nat × List (List (Cell α))
  | [] => (first, [{ occupied := true, value := default } :: List.replicate (1 <<< b - 1) default])
  | cells :: rest =>
    match claim? cells with
    | some (i, cells) => (first + i, cells :: rest)
    | none =>
      let p := acquireFrom (b + 1) (first + cells.length) rest
      (p.1, cells :: p.2)

/-- Slots are numbered by 64-bit words, and there are 63 buckets. -/
def slotLimit : Nat := UInt64.size

def bucketLimit : Nat := 63

/-- There is never a bucket beyond the limit. When all are full, the slot after the last one is
handed out, which nobody can reach. -/
def acquire [Inhabited α] (a : SlotArray α) : Nat × SlotArray α :=
  let p := acquireFrom 0 0 a.buckets
  (p.1, ⟨p.2.take bucketLimit⟩)

/-- The bucket of a slot and the place in it. -/
def locate (i : Nat) : Except Fault (Nat × Nat) :=
  if slotLimit ≤ i + 1 then .error .slotOverflow
  else
    let b := (i + 1).log2
    if bucketLimit ≤ b then .error .slotBeyondBuckets else .ok (b, i - (1 <<< b - 1))

/-- Every slot of an allocated bucket can be reached, also one that was never handed out. -/
def cell (a : SlotArray α) (i : Nat) : Except Fault (Cell α) :=
  match locate i with
  | .error f => .error f
  | .ok (b, o) =>
    match a.buckets[b]?.bind (·[o]?) with
    | none => .error (.slotUnallocated i)
    | some c => .ok c

/-- Replaces the cell of a slot; no change where there is none. -/
def setCell (a : SlotArray α) (i : Nat) (c : Cell α) : SlotArray α :=
  match locate i with
  | .error _ => a
  | .ok (b, o) => ⟨a.buckets.modify b (·.set o c)⟩

def get (a : SlotArray α) (i : Nat) : Except Fault α := (a.cell i).map (·.value)

def set (a : SlotArray α) (i : Nat) (v : α) : Except Fault (SlotArray α) :=
  (a.cell i).map fun c => a.setCell i { c with value := v }

/-- The value at `i`, or the default one where there is none. -/
def getD [Inhabited α] (a : SlotArray α) (i : Nat) : α :=
  match a.get i with
  | .ok v => v
  | .error _ => default

/-- As `set`; no change where there is no such slot. -/
def setD (a : SlotArray α) (i : Nat) (v : α) : SlotArray α :=
  match a.set i v with
  | .ok a => a
  | .error _ => a

def release (a : SlotArray α) (i : Nat) : Except Fault (SlotArray α) :=
  match a.cell i with
  | .error f => .error f
  | .ok c =>
    if c.occupied then .ok (a.setCell i { c with occupied := false }) else .error (.slotFree i)

def bucketList (cells : List (Cell α)) : List (Nat × α) :=
  cells.zipIdx.filterMap fun p =>
    if p.1.occupied then some (cells.length - 1 + p.2, p.1.value) else none

/-- The taken slots and their values, in increasing order. -/
def toList (a : SlotArray α) : List (Nat × α) := a.buckets.flatMap bucketList

end SlotArray

end GracePeriod
