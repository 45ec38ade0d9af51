import Mathlib.Logic.Relation
import GracePeriod.Machine.Step
import GracePeriod.Proofs.History
import GracePeriod.Proofs.SlotArray

namespace GracePeriod

/-- The records of `n` workers start without readers, whatever epochs the seeds choose. -/
def Config.StartsIdle (c : Config) (n : Nat) : Prop :=
  ∀ k w, (((Domain.startBoth n c.seeds).get k).records.get w).word.active = 0

theorem Domain.active_start {seeds : List UInt32} (h : seeds.length ≤ 1) (n w : Nat) :
    ((Domain.start n seeds).records.get w).word.active = 0 := by
  by_cases hw : w < n
  · simp only [Domain.start, Table.get, List.getD, List.getElem?_map, List.getElem?_range hw,
      Option.map_some, Option.getD_some]
    rw [List.getElem?_eq_none (by omega)]
    rfl
  · simp only [Domain.start, Table.get, List.getD, List.getElem?_map]
    rw [List.getElem?_eq_none (by simpa using hw)]
    rfl

theorem Config.startsIdle_of_length_le {c : Config} (h : c.seeds.length ≤ 1) (n : Nat) :
    c.StartsIdle n := by
  intro k w
  cases k with
  | regular => exact Domain.active_start h n w
  | sleepable => exact Domain.active_start (by rw [List.length_drop]; omega) n w

namespace Frame

/-- The frames of operations. The others belong to grace periods and to drain threads. -/
def isPlain : Frame → Bool
  | .grace .. | .detached .. | .batch .. | .worker .. => false
  | _ => true

def isGrace : Frame → Bool
  | .grace .. => true
  | _ => false

end Frame

def Work.domain? : Work → Option (Nat × Kind)
  | .callbacks e k => some (e, k)
  | .scripted _ => none

/-- What moves are about: operations only, the wait for a grace period, the passes of a drain task
over one domain or none, or everything. -/
inductive Scope
  | plain
  | grace
  | pass (drain : Nat) (own : Option (Nat × Kind))
  | all

namespace Scope

def serves : Scope → Nat → Kind → Bool
  | pass _ own, e, k => own = some (e, k)
  | all, _, _ => true
  | _, _, _ => false

def waits : Scope → Bool
  | grace | all => true
  | _ => false

def pushes (scope : Scope) : Frame → Bool
  | .worker d _ =>
    match scope with
    | pass d' _ => d = d'
    | all => true
    | _ => false
  | .detached e k _ | .batch e k _ => scope.serves e k
  | .grace .. => scope.waits
  | _ => true

def marks (scope : Scope) (e : Nat) (k : Kind) : Mark → Bool
  | .callbackStarted _ | .callbackEnded => scope.serves e k
  | .synchronizeCalled | .synchronizeReturned | .synchronizePanicked => scope.waits
  | v => v.isNeutral

theorem pushes_of_isPlain (scope : Scope) {f : Frame} (h : f.isPlain = true) :
    scope.pushes f = true := by
  cases f <;> first | rfl | cases h

theorem pushes_all (f : Frame) : all.pushes f = true := by cases f <;> rfl

theorem marks_of_isNeutral (scope : Scope) (e : Nat) (k : Kind) {v : Mark}
    (h : v.isNeutral = true) : scope.marks e k v = true := by
  cases v <;> first | rfl | cases h

theorem isSilent_of_marks {scope : Scope} {e : Nat} {k : Kind} {v : Mark}
    (h : scope.marks e k v = true) : v.isSilent = true := by
  cases v <;> first | rfl | cases h

theorem marks_all {scope : Scope} {e : Nat} {k : Kind} {v : Mark}
    (h : scope.marks e k v = true) : all.marks e k v = true := by
  cases v <;> first | rfl | cases h

end Scope

/-- A change of a scheduler that neither takes nor frees a task. -/
def Scheduler.Keeps (f : Scheduler → Scheduler) : Prop :=
  ∀ c, (f c).workers = c.workers ∧ (c.tasks.WellFormed → (f c).tasks.WellFormed ∧
    ∀ i, (f c).tasks.isTaken i = c.tasks.isTaken i)

theorem Scheduler.keeps_setTask (id : Nat) (x : Scheduler → Task) :
    Scheduler.Keeps fun c => c.setTask id (x c) := fun _ =>
  ⟨rfl, fun h => ⟨SlotArray.wellFormed_setD h id _, SlotArray.isTaken_setD h id _⟩⟩

theorem Scheduler.keeps_of_tasks {f : Scheduler → Scheduler}
    (h : ∀ c, (f c).workers = c.workers ∧ (f c).tasks = c.tasks) : Scheduler.Keeps f := fun c =>
  ⟨(h c).1, fun hw => by rw [(h c).2]; exact ⟨hw, fun _ => rfl⟩⟩

namespace Machine

theorem task?_enroll (m : Machine) (t s : Nat) : ((m.enroll t s).task? t s).isSome = true := by
  unfold enroll
  split
  · rename_i h
    rw [h]
    rfl
  · simp [task?, thread, modifyThread, Table.get_modify, List.lookup_append]

theorem task?_pin (m : Machine) (t : Nat) (p : Access) :
    ((m.pin t p).task? t p.scheduler).isSome = true := task?_enroll ..

theorem engine_pin (m : Machine) (t : Nat) (p : Access) (e : Nat) :
    (m.pin t p).engine e = m.engine e := by
  unfold pin record changeTask enroll
  split <;> split <;> rfl

/-- The least that thread `t` does at once. -/
inductive Move (scope : Scope) (t : Nat) : Machine → Machine → Prop
  | control (m : Machine) (c : Control) :
      Move scope t m (m.modifyThread t fun x => { x with control := c })
  | push (m : Machine) (f : Frame) (h : scope.pushes f = true) : Move scope t m (m.push t f)
  | stack (m : Machine) (fs : List Frame) (h : scope = .all) :
      Move scope t m (m.modifyThread t fun x => { x with stack := fs })
  | emit (m : Machine) (v : Event) (h : v.isMark = false) : Move scope t m (m.emit t v)
  | mark (m : Machine) (e : Nat) (k : Kind) (v : Mark)
      (h : scope.marks e k v = true) : Move scope t m (m.mark t e k v)
  | enroll (m : Machine) (s : Nat) : Move scope t m (m.enroll t s)
  | scheduler (m : Machine) (s : Nat) (f : Scheduler → Scheduler) (h : Scheduler.Keeps f) :
      Move scope t m (m.modifyScheduler s f)
  | addScheduler (m : Machine) (n : Nat) :
      Move scope t m { m with schedulers := m.schedulers.push { workers := n } }
  | handles (m : Machine) (e n : Nat) :
      Move scope t m (m.modifyEngine e fun x => { x with handles := n })
  | drain (m : Machine) (d : Nat) (f : Drain → Drain)
      (h : ∀ x, (f x).work = x.work ∧ (f x).thread = x.thread ∧ (f x).waiters = x.waiters) :
      Move scope t m (m.modifyDrain d f)
  | notify (m : Machine) (d : Nat) : Move scope t m (m.notify d)
  | tables (m : Machine) (slots : Table Slot) (keys : List (String × UInt32))
      (bareTask : Option Nat) : Move scope t m { m with slots, keys, bareTask }
  | register (m : Machine) (e : Nat) (k : Kind) (w : Nat) :
      Move scope t m (m.setDomain e k (((m.engine e).domain k).register w).1)
  | openSection (m : Machine) (e : Nat) (k : Kind)
      (h : (m.task? t (m.engine e).access.scheduler).isSome = true) :
      Move scope t m (m.openSection t e k).1
  | closeSection (m : Machine) (e : Nat) (k : Kind) : Move scope t m (m.closeSection t e k).1
  | advance (m : Machine) (e : Nat) (k : Kind) :
      Move scope t m ((m.setDomain e k ((m.engine e).domain k).advance).mark t e k
        (.advanced ((m.engine e).domain k).advance.epoch))
  | enqueue (m : Machine) (e : Nat) (k : Kind) (c : Callback) :
      Move scope t m ((m.modifyEngine e fun x => x.setQueue k (x.queue k ++ [c])).mark t e k
        (.queued c))
  | detach (m : Machine) (e : Nat) (k : Kind) (h : scope.serves e k = true) :
      Move scope t m (m.modifyEngine e fun x => x.setQueue k [])
  | startEngine (m : Machine) (slot : Option Nat) (c : Config) (p : Access)
      (h : c.StartsIdle p.workers) : Move scope t m (m.startEngine slot c p).2
  | spawnTask (m : Machine) (name : String) (passes : List String) :
      Move scope t m (m.spawnDrain .bare name { work := .scripted passes, holders := 1 }).2

abbrev Moves (scope : Scope) (t : Nat) : Machine → Machine → Prop :=
  Relation.ReflTransGen (Move scope t)

/-- How thread `t` gives its turn away. -/
inductive Leave (t : Nat) : Machine → Machine → Prop
  | idle (m : Machine) (h : (m.thread t).stack = []) : Leave t m (m.stop t .idle)
  | park (m : Machine) (p : Park) : Leave t m (m.stop t (.parked p))
  | waitFor (m : Machine) (d : Nat) : Leave t m (m.waitFor t d)
  | join (m : Machine) (u : Nat) : Leave t m (m.join t u)
  | endThread (m : Machine) (p : Option Payload) : Leave t m (m.endThread t p)

end Machine

end GracePeriod
