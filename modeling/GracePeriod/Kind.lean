namespace GracePeriod

/-- A grace period of one kind never waits for readers of the other. Sections of the sleepable
kind may block. -/
inductive Kind
  | regular
  | sleepable
  deriving DecidableEq, Inhabited

namespace Kind

def all : List Kind := [.regular, .sleepable]

def index : Kind → Nat
  | .regular => 0
  | .sleepable => 1

def name : Kind → String
  | .regular => "regular"
  | .sleepable => "sleepable"

theorem mem_all (k : Kind) : k ∈ all := by cases k <;> simp [all]

end Kind

structure PerKind (α : Type) where
  regular : α
  sleepable : α
  deriving DecidableEq, Inhabited

namespace PerKind

variable {α : Type}

def both (a : α) : PerKind α := ⟨a, a⟩

def get (p : PerKind α) : Kind → α
  | .regular => p.regular
  | .sleepable => p.sleepable

def set (p : PerKind α) (k : Kind) (a : α) : PerKind α :=
  match k with
  | .regular => { p with regular := a }
  | .sleepable => { p with sleepable := a }

def toList (p : PerKind α) : List α := [p.regular, p.sleepable]

@[simp] theorem get_both (a : α) (k : Kind) : (both a).get k = a := by cases k <;> rfl

theorem get_set (p : PerKind α) (k j : Kind) (a : α) :
    (p.set k a).get j = if j = k then a else p.get j := by
  cases k <;> cases j <;> rfl

@[simp] theorem get_set_self (p : PerKind α) (k : Kind) (a : α) : (p.set k a).get k = a := by
  simp [get_set]

theorem toList_eq_map (p : PerKind α) : p.toList = Kind.all.map p.get := rfl

end PerKind

end GracePeriod
