import GracePeriod.Proofs.GuardFrames
import GracePeriod.Proofs.Seen

namespace GracePeriod

/-- The call opens or closes a section, or waits for a grace period. -/
def HandleCall.schedules : HandleCall → Bool
  | .readLock _ | .readUnlock _ | .synchronize _ | .barrier _ | .srcuLock _ | .srcuUnlock _
  | .srcuSynchronize | .srcuBarrier => true
  | _ => false

/-- The frame calls the scheduler of an engine when it is reached. -/
def Frame.schedules : Frame → Bool
  | .leave .. | .grace .. => true
  | _ => false

namespace Machine

def schedulerOf (m : Machine) (e : Nat) : Nat := (m.engine e).access.scheduler

def opScheduler? (m : Machine) (held : Option Nat) : Op → Option Nat
  | .handle slot c => if c.schedules then (m.resolve held slot).map m.schedulerOf else none
  | .guard slot .. | .engineScheduler slot _ => (m.resolve held slot).map m.schedulerOf
  | .scheduler s _ | .logical s _ => if s < m.named then some s else none
  | _ => none

/-- The engine for which a scheduler is called when the frame is reached. -/
def frameEngine? (m : Machine) : Frame → Option Nat
  | .leave e _ | .grace e .. => some e
  | .worker d _ => (m.drain d).work.domain?.map Prod.fst
  | _ => none

/-- The scheduler that the next step of a thread calls, itself or for an engine. -/
def callsScheduler? (m : Machine) (t : Nat) : Option Nat :=
  match (m.thread t).control with
  | .eval held op => m.opScheduler? held op
  | .back _ => ((m.thread t).stack.head?.bind m.frameEngine?).map m.schedulerOf

/-- The tasks of scheduler `s` stay, up to pauses, and so does the one that thread `t` has there. -/
structure Unused (t s : Nat) (m m' : Machine) : Prop where
  tasks : (m.scheduler s).tasks.WellFormed → (m'.scheduler s).tasks.WellFormed ∧
    ∀ i, Scheduler.Spares (m.scheduler s) (m'.scheduler s) i
  placed : (m'.scheduler s).placed = (m.scheduler s).placed
  workers : 0 < (m.scheduler s).workers → (m'.scheduler s).workers = (m.scheduler s).workers
  task? : m'.task? t s = m.task? t s

/-- Nor does the thread get anything on its stack that is going to call a scheduler. -/
structure Passing (t s : Nat) (m m' : Machine) : Prop extends Unused t s m m' where
  frames : ∀ f ∈ (m'.thread t).stack, f.schedules = true → f ∈ (m.thread t).stack

/-- What thread `t` does, as scheduler `s` sees it. With `b` it may call the scheduler; what it gets on its
stack is going to call the schedulers of engines in `K` at most. -/
inductive Calling (K : Nat → Prop) (b : Bool) (t s : Nat) : Machine → Machine → Prop
  | pass {m m' : Machine} (h : Passing t s m m') : Calling K b t s m m'
  | push (m : Machine) (f : Frame) (hf : ∀ e, m.frameEngine? f = some e → K e) :
      Calling K b t s m (m.push t f)
  | enroll (m : Machine) (hb : b = true) : Calling K b t s m (m.enroll t s)
  | change (m : Machine) (f : Task → Task) (hb : b = true) : Calling K b t s m (m.changeTask t s f)

abbrev Callings (K : Nat → Prop) (b : Bool) (t s : Nat) : Machine → Machine → Prop :=
  Relation.ReflTransGen (Calling K b t s)

variable {K : Nat → Prop} {b : Bool} {t s c e d : Nat} {k : Kind} {m m₀ m' m'' n : Machine} {f : Frame}
  {p : Access}

namespace Unused

theorem refl (t s : Nat) (m : Machine) : Unused t s m m :=
  ⟨fun hw => ⟨hw, fun _ => Scheduler.spares_of_eq rfl⟩, rfl, fun _ => rfl, rfl⟩

theorem trans (h : Unused t s m m') (h' : Unused t s m' m'') : Unused t s m m'' := by
  refine ⟨fun hw => ?_, h'.placed.trans h.placed, fun hp => ?_, h'.task?.trans h.task?⟩
  · obtain ⟨hw, hs⟩ := h.tasks hw
    obtain ⟨hw', hs'⟩ := h'.tasks hw
    exact ⟨hw', fun i => (hs i).trans (hs' i)⟩
  · have hw := h.workers hp
    exact (h'.workers (hw ▸ hp)).trans hw

theorem of_tasks (hs : (m'.scheduler s).tasks = (m.scheduler s).tasks)
    (hp : (m'.scheduler s).placed = (m.scheduler s).placed)
    (hw : 0 < (m.scheduler s).workers → (m'.scheduler s).workers = (m.scheduler s).workers)
    (ht : m'.task? t s = m.task? t s) : Unused t s m m' :=
  ⟨fun hw => ⟨hs ▸ hw, fun i => Scheduler.spares_of_eq (congrArg (SlotArray.getD · i) hs)⟩, hp, hw, ht⟩

theorem of_scheduler (hs : m'.scheduler s = m.scheduler s) (ht : m'.task? t s = m.task? t s) :
    Unused t s m m' := of_tasks (by rw [hs]) (by rw [hs]) (fun _ => by rw [hs]) ht

theorem of_eq (hs : m'.schedulers = m.schedulers) (ht : (m'.thread t).tasks = (m.thread t).tasks) :
    Unused t s m m' := of_scheduler (congrArg (Table.get · s) hs) (task?_of_tasks ht s)

end Unused

namespace Passing

theorem trans (h : Passing t s m m') (h' : Passing t s m' m'') : Passing t s m m'' :=
  ⟨h.toUnused.trans h'.toUnused, fun f hf hg => h.frames f (h'.frames f hf hg) hg⟩

theorem of_eq (hs : m'.schedulers = m.schedulers) (ht : (m'.thread t).tasks = (m.thread t).tasks)
    (hg : ∀ f ∈ (m'.thread t).stack, f.schedules = true → f ∈ (m.thread t).stack) : Passing t s m m' :=
  ⟨.of_eq hs ht, hg⟩

theorem of_stack (h : Unused t s m m') (hs : (m'.thread t).stack = (m.thread t).stack) :
    Passing t s m m' := ⟨h, fun _ hf _ => hs ▸ hf⟩

theorem of_threads (hs : m'.schedulers = m.schedulers) (ht : m'.threads = m.threads) :
    Passing t s m m' := by
  have hu : m'.thread t = m.thread t := congrArg (Table.get · t) ht
  exact .of_stack (.of_eq hs (congrArg Thread.tasks hu)) (congrArg Thread.stack hu)

theorem of_parts (hs : m'.schedulers = m.schedulers)
    (h : ∀ (β : Type) (p : Thread → β), (∀ x q c, p { x with status := q, control := c } = p x) →
      p (m'.thread t) = p (m.thread t)) : Passing t s m m' :=
  .of_stack (.of_eq hs (h _ Thread.tasks fun _ _ _ => rfl)) (h _ Thread.stack fun _ _ _ => rfl)

theorem stop (m : Machine) (t : Nat) (q : Status) : Passing t s m (m.stop t q) :=
  of_parts rfl fun _ _ hp => part_modifyThread _ m t t fun x => hp x _ x.control

theorem waitFor (m : Machine) (t d : Nat) : Passing t s m (m.waitFor t d) := by
  have hb : Passing t s m (m.done t) := of_parts rfl fun _ _ hp => part_modifyThread _ m t t fun x => hp x
    x.status _
  have hd : Passing t s (m.done t)
    ((m.done t).modifyDrain d fun x => { x with waiters := x.waiters ++ [t] }) :=
    of_threads rfl rfl
  exact (hb.trans hd).trans (stop ..)

theorem join (m : Machine) (t u : Nat) : Passing t s m (m.join t u) := by
  refine of_parts ?_ fun _ p hp => part_join p (fun x q => hp x q x.control) m t u t
  unfold Machine.join
  dsimp only
  split <;> rfl

theorem notify (m : Machine) (t d : Nat) : Passing t s m (m.notify d) :=
  of_parts (by rw [notify_eq]) fun _ p hp => part_notify p (fun x q => hp x q x.control) m d t

theorem push (m : Machine) (t : Nat) (hf : f.schedules = false) : Passing t s m (m.push t f) := by
  refine of_eq rfl (part_modifyThread Thread.tasks m t t fun _ => rfl) fun g hg hgrd => ?_
  rw [stack_push] at hg
  refine (List.mem_cons.1 hg).resolve_left ?_
  rintro rfl
  exact Bool.false_ne_true (hf.symm.trans hgrd)

theorem pop {rest : List Frame} (hs : (m.thread t).stack = f :: rest) :
    Passing t s m (m.modifyThread t fun x => { x with stack := rest }) := by
  refine of_eq rfl (part_modifyThread Thread.tasks m t t fun _ => rfl) fun g hg _ => ?_
  rw [stack_pop] at hg
  exact hs ▸ List.mem_cons_of_mem f hg

theorem batchMoves (h : BatchMoves t m m') : Passing t s m m' := by
  obtain ⟨fs, hst, hf⟩ := h.stack
  refine of_eq h.schedulers (h.part Thread.tasks (fun _ _ _ => rfl) t) fun f hmem hgrd => ?_
  refine (List.mem_append.1 (hst ▸ hmem)).resolve_left fun hfs => ?_
  have hb := hf f hfs
  cases f with
  | leave | grace => cases hb
  | _ => cases hgrd

theorem spawnDrain (m : Machine) (t : Nat) (name : ThreadName) (systemName : String) (x : Drain) :
    Passing t s m (m.spawnDrain name systemName x).2 := by
  refine of_eq rfl (part_spawnDrain Thread.tasks m name systemName x rfl t) fun f hf hgrd => ?_
  rw [thread_spawnDrain] at hf
  split at hf
  · rw [List.mem_singleton.1 hf] at hgrd
    cases hgrd
  · exact hf

theorem startEngine (m : Machine) (t : Nat) (slot : Option Nat) (c : Config) (p : Access) :
    Passing t s m (m.startEngine slot c p).2 := by
  have h₁ : Passing t s m (m.startFirst slot c) := spawnDrain m t ..
  have h₂ : Passing t s (m.startFirst slot c) (m.startSecond slot c) := spawnDrain _ t ..
  have h₃ : Passing t s (m.startSecond slot c) (m.startEngine slot c p).2 := of_threads rfl rfl
  exact (h₁.trans h₂).trans h₃

theorem inside (h : Inside t m m') : Passing t s m m' :=
  .of_stack (.of_eq (by rw [h.eq]) (h.part Thread.tasks (fun _ _ => rfl) t))
    (h.part Thread.stack (fun _ _ => rfl) t)

theorem adjust (m : Machine) (t c : Nat) {g : Scheduler → Scheduler}
    (hg : ∀ x, (g x).tasks = x.tasks ∧ (g x).placed = x.placed ∧ (g x).workers = x.workers) :
    Passing t s m (m.modifyScheduler c g) := by
  refine .of_stack ?_ rfl
  have hs := scheduler_modifyScheduler m c s g
  split at hs
  · obtain ⟨ht, hp, hw⟩ := hg (m.scheduler s)
    exact .of_tasks ((congrArg _ hs).trans ht) ((congrArg _ hs).trans hp)
      (fun _ => (congrArg _ hs).trans hw) rfl
  · exact .of_scheduler hs rfl

theorem addScheduler (m : Machine) (t w : Nat) :
    Passing t s m { m with schedulers := m.schedulers.push { workers := w } } := by
  refine .of_stack ?_ rfl
  have hs := scheduler_push m { workers := w } s
  split at hs
  · rename_i hlt
    have hd : m.scheduler s = default := Table.get_of_size_le (Nat.le_of_eq hlt.symm)
    refine .of_tasks ?_ ?_ (fun hp => ?_) rfl
    · rw [hs, hd]
      rfl
    · rw [hs, hd]
      rfl
    · rw [hd] at hp
      cases hp
  · exact .of_scheduler hs rfl

theorem enroll_ne (hc : c ≠ s) (m : Machine) (t : Nat) : Passing t s m (m.enroll t c) := by
  obtain ⟨hs, ht⟩ := Machine.enroll_ne hc m t
  exact .of_stack (.of_scheduler hs ht) (part_enroll Thread.stack (fun _ _ => rfl) m t c t)

theorem changeTask_ne (hc : c ≠ s) (m : Machine) (t : Nat) (g : Task → Task) :
    Passing t s m (m.changeTask t c g) := by
  obtain ⟨hs, ht⟩ := Machine.enroll_ne hc m t
  refine .of_stack (.of_scheduler ?_ ht) (part_enroll Thread.stack (fun _ _ => rfl) m t c t)
  exact (Table.get_set_ne _ hc.symm _).trans hs

theorem endPause (m : Machine) (t c id : Nat) : Passing t s m (m.endPause c id) := by
  refine .of_stack ?_ rfl
  have hs := scheduler_modifyScheduler m c s fun x => x.setTask id { x.task id with paused := false }
  rw [← Machine.endPause] at hs
  split at hs
  · refine ⟨fun hw => ?_, (congrArg Scheduler.placed hs :), fun _ => (congrArg Scheduler.workers hs :), rfl⟩
    rw [hs]
    exact ⟨SlotArray.wellFormed_setD hw .., Scheduler.spares_setPaused hw id false⟩
  · exact .of_scheduler hs rfl

end Passing

namespace Callings

theorem pass (h : Callings K b t s m₀ m) (hp : Passing t s m m') : Callings K b t s m₀ m' := h.tail (.pass hp)

theorem thread (h : Callings K b t s m₀ m) {g : Thread → Thread}
    (hg : ∀ x, (g x).tasks = x.tasks ∧ (g x).stack = x.stack) : Callings K b t s m₀ (m.modifyThread t g) :=
  h.pass (.of_stack (.of_eq rfl (part_modifyThread Thread.tasks m t t fun x => (hg x).1))
    (part_modifyThread Thread.stack m t t fun x => (hg x).2))

theorem back (h : Callings K b t s m₀ m) (o : Outcome) : Callings K b t s m₀ (m.back t o) :=
  h.thread fun _ => ⟨rfl, rfl⟩

theorem done (h : Callings K b t s m₀ m) : Callings K b t s m₀ (m.done t) := h.back _

theorem fail (h : Callings K b t s m₀ m) (g : Fault) : Callings K b t s m₀ (m.fail t g) := h.back _

theorem refuse (h : Callings K b t s m₀ m) (r : Refusal) : Callings K b t s m₀ (m.refuse t r) := h.back _

theorem answer {α : Type} (h : Callings K b t s m₀ m) (g : α → Result) (r : Except Fault α) :
    Callings K b t s m₀ (m.answer t g r) := by
  cases r <;> exact h.back _

theorem eval (h : Callings K b t s m₀ m) (held : Option Nat) (op : Op) :
    Callings K b t s m₀ (m.eval t held op) := h.thread fun _ => ⟨rfl, rfl⟩

theorem push (h : Callings K b t s m₀ m) (hf : f.schedules = false) : Callings K b t s m₀ (m.push t f) :=
  h.pass (.push m t hf)

theorem pushGrace (h : Callings K b t s m₀ m) (he : K e) (k : Kind) (x : Snapshot) (target : UInt32) :
    Callings K b t s m₀ (m.push t (.grace e k x target)) :=
  h.tail (.push m _ fun _ hs => Option.some.inj hs ▸ he)

theorem emit (h : Callings K b t s m₀ m) (v : Event) : Callings K b t s m₀ (m.emit t v) :=
  h.pass (.of_threads rfl rfl)

theorem modifyDrain (h : Callings K b t s m₀ m) (d : Nat) (g : Drain → Drain) :
    Callings K b t s m₀ (m.modifyDrain d g) := h.pass (.of_threads rfl rfl)

theorem modifyEngine (h : Callings K b t s m₀ m) (e : Nat) (g : Engine → Engine) :
    Callings K b t s m₀ (m.modifyEngine e g) := h.pass (.of_threads rfl rfl)

theorem tables (h : Callings K b t s m₀ m) (slots : Table Slot) (keys : List (String × UInt32))
    (task : Option Nat) : Callings K b t s m₀ { m with slots, keys, bareTask := task } :=
  h.pass (.of_threads rfl rfl)

theorem log (h : Callings K b t s m₀ m) (l : Log) : Callings K b t s m₀ (m.log t l) := h.emit _

theorem mark (h : Callings K b t s m₀ m) (e : Nat) (k : Kind) (v : Mark) :
    Callings K b t s m₀ (m.mark t e k v) := h.emit _

theorem record (h : Callings K b t s m₀ m) (p : Access) (v : Event) :
    Callings K b t s m₀ (m.record t p v) := by
  unfold Machine.record
  split
  · exact h.emit v
  · exact h

theorem park (h : Callings K b t s m₀ m) (q : Park) : Callings K b t s m₀ (m.park t q) :=
  h.done.pass (.stop ..)

theorem enroll (h : Callings K b t s m₀ m) (hb : c = s → b = true) : Callings K b t s m₀ (m.enroll t c) := by
  by_cases hc : c = s
  · subst hc
    exact h.tail (.enroll m (hb rfl))
  · exact h.pass (.enroll_ne hc m t)

theorem changeTask (h : Callings K b t s m₀ m) (hb : c = s → b = true) (g : Task → Task) :
    Callings K b t s m₀ (m.changeTask t c g) := by
  by_cases hc : c = s
  · subst hc
    exact h.tail (.change m g (hb rfl))
  · exact h.pass (.changeTask_ne hc m t g)

theorem pin (h : Callings K b t s m₀ m) (hb : p.scheduler = s → b = true) :
    Callings K b t s m₀ (m.pin t p) := (h.record p _).changeTask hb _

theorem unpin (h : Callings K b t s m₀ m) (hb : p.scheduler = s → b = true) :
    Callings K b t s m₀ (m.unpin t p).1 := (h.record p .unpin).changeTask hb fun x => x.unpin.1

theorem setPinDepth (h : Callings K b t s m₀ m) (hb : p.scheduler = s → b = true) (n : UInt32) :
    Callings K b t s m₀ (m.setPinDepth t p n) := (h.record p _).changeTask hb _

theorem setPriority (h : Callings K b t s m₀ m) (hb : p.scheduler = s → b = true) (q : Priority) :
    Callings K b t s m₀ (m.setPriority t p q) := (h.record p _).changeTask hb _

theorem unbind (h : Callings K b t s m₀ m) (hb : p.scheduler = s → b = true) :
    Callings K b t s m₀ (m.unbind t p) := (h.record p _).changeTask hb _

theorem bind (h : Callings K b t s m₀ m) (hb : p.scheduler = s → b = true) (w : Nat) :
    Callings K b t s m₀ (m.bind t p w).1 := by
  have hr := h.record p (.bind w)
  unfold Machine.bind
  dsimp only
  split
  · exact hr
  · exact hr.changeTask hb (·.bind w)

theorem migrate (h : Callings K b t s m₀ m) (hb : c = s → b = true) (w : Nat) :
    Callings K b t s m₀ (m.migrate t c w).1 := by
  unfold Machine.migrate
  split
  · exact h
  · dsimp only
    split
    · exact h.changeTask hb fun x => { x with worker := w }
    · exact h.enroll hb

theorem orSelf (h : Callings K b t s m₀ m) (hb : c = s → b = true) (id : Option Nat) :
    Callings K b t s m₀ (m.orSelf t c id).1 := by
  cases id with
  | none => exact h.enroll hb
  | some id => exact h

theorem sleep (h : Callings K b t s m₀ m) (hb : c = s → b = true) : Callings K b t s m₀ (m.sleep t c) :=
  (h.changeTask hb _).changeTask hb _

theorem yield (h : Callings K b t s m₀ m) (p : Access) : Callings K b t s m₀ (m.yield t p) := by
  unfold Machine.yield
  split
  · exact (h.emit _).park _
  · exact h.done

theorem pause (h : Callings K b t s m₀ m) (hb : p.scheduler = s → b = true) (micros : Nat) :
    Callings K b t s m₀ (m.pause t p micros) := by
  unfold Machine.pause
  split
  · exact (((h.emit _).changeTask hb _).push rfl).park _
  · exact (h.sleep hb).done

theorem callScheduler (h : Callings K b t s m₀ m) (hb : p.scheduler = s → b = true) (l : SchedulerCall) :
    Callings K b t s m₀ (m.callScheduler t p l) := by
  have he : Callings K b t s m₀ (m.enroll t p.scheduler) := h.enroll hb
  cases l with
  | yield => exact h.yield p
  | pause micros => exact h.pause hb micros
  | pin => exact (h.pin hb).done
  | unpin => exact (h.unpin hb).answer _ _
  | setPinDepth n => exact (h.setPinDepth hb n).done
  | bind w => exact (h.bind hb w).answer _ _
  | unbind => exact (h.unbind hb).done
  | setPriority q => exact (h.setPriority hb q).done
  | taskPriority id | taskIsInhibited id => exact (h.orSelf hb id).answer _ _
  | numWorkers | isHalted => exact h.back _
  | currentTask | currentWorker | pinDepth | isBound | priority | dump => exact he.back _

theorem callLogical (h : Callings K b t s m₀ m) (hb : c = s → b = true) (l : LogicalCall) :
    Callings K b t s m₀ (m.callLogical t c l) := by
  cases l with
  | setHalted q =>
    exact (h.pass (.adjust m t c (g := fun x => { x with halted := q }) fun _ => ⟨rfl, rfl, rfl⟩)).done
  | migrate w => exact (h.migrate hb w).answer _ _
  | sleep => exact (h.sleep hb).done
  | workerOf id => exact (h.orSelf hb id).answer _ _
  | setInhibited id q =>
    exact ((h.orSelf hb id).pass (.adjust _ t c (g := fun x => x.mark _ q) fun _ => ⟨rfl, rfl, rfl⟩)).done

theorem readLock (h : Callings K b t s m₀ m) (hb : m.schedulerOf e = s → b = true) (k : Kind) :
    Callings K b t s m₀ (m.readLock t e k).1 := by
  unfold Machine.readLock
  split
  · exact h.mark ..
  · exact (h.pin hb).pass (.inside (.openSection ..))

theorem schedulerOf_closeSection (m : Machine) (t e : Nat) (k : Kind) :
    (m.closeSection t e k).1.schedulerOf e = m.schedulerOf e := by
  obtain ⟨ds, hd⟩ := (Inside.closeSection m t e k).engine e
  rw [schedulerOf, hd, schedulerOf]

theorem readUnlock (h : Callings K b t s m₀ m) (hb : m.schedulerOf e = s → b = true) (k : Kind) :
    Callings K b t s m₀ (m.readUnlock t e k).1 := by
  have hc := h.pass (.inside (.closeSection m t e k))
  unfold Machine.readUnlock
  split
  · exact h.mark ..
  · dsimp only
    split
    · exact hc
    · exact hc.unpin fun hs => hb ((schedulerOf_closeSection m t e k).symm.trans hs)

theorem restore (h : Callings K b t s m₀ m) (hb : p.scheduler = s → b = true) (x : Snapshot) :
    Callings K b t s m₀ (m.restore t p x) := by
  have hm : Callings K b t s m₀ (if x.bound then (m.bind t p x.worker).1
      else (if x.pinDepth = 0 then m else (m.bind t p x.worker).1).unbind t p) := by
    split
    · exact h.bind hb _
    · split
      · exact h.unbind hb
      · exact (h.bind hb _).unbind hb
  exact (hm.setPinDepth hb _).setPriority hb _

theorem setDomain (h : Callings K b t s m₀ m) (e : Nat) (k : Kind) (x : Domain) :
    Callings K b t s m₀ (m.setDomain e k x) := h.modifyEngine ..

theorem startSynchronize (h : Callings K b t s m₀ m) (he : K e) (hb : m.schedulerOf e = s → b = true)
    (k : Kind) :
    Callings K b t s m₀ (m.startSynchronize t e k) := by
  unfold Machine.startSynchronize
  split
  · exact (h.mark ..).done
  · split
    · exact h.fail _
    · have hu := ((h.mark e k .synchronizeCalled).enroll hb).unbind (p := (m.engine e).access) hb
      have hq := (hu.setPinDepth hb 0).bind hb
        (((m.mark t e k .synchronizeCalled).enroll t (m.schedulerOf e)).snapshot t (m.schedulerOf e)).worker
      exact ((((hq.setDomain e k _).mark ..).log _).pushGrace he ..).done

theorem abortSynchronize (h : Callings K b t s m₀ m) (hb : m.schedulerOf e = s → b = true) (k : Kind)
    (x : Snapshot) (q : Payload) : Callings K b t s m₀ (m.abortSynchronize t e k x q) :=
  ((h.restore hb x).mark ..).back _

theorem locateBlocker (h : Callings K b t s m₀ m) (he : K e) (hb : m.schedulerOf e = s → b = true) (k : Kind)
    (x : Snapshot) (target : UInt32) : Callings K b t s m₀ (m.locateBlocker t e k x target) := by
  unfold Machine.locateBlocker
  dsimp only
  split
  · exact (((h.log _).restore hb x).mark ..).done
  · rename_i w _
    split
    · split
      · exact h.abortSynchronize hb ..
      · split
        · exact ((h.pushGrace he ..).log _).pause hb _
        · exact ((h.pushGrace he ..).setPriority hb _).yield _
    · have hq := ((h.log (.graceMoving k w)).setPriority (p := (m.engine e).access) hb .highest).bind hb w
      have hserved : Served m (((m.log t (.graceMoving k w)).setPriority t (m.engine e).access
          .highest).bind t (m.engine e).access w).1 :=
        ((Served.log ..).trans (.setPriority ..)).trans (.bind ..)
      split
      · refine hq.abortSynchronize (fun hs => hb ?_) ..
        rwa [schedulerOf, hserved.engine] at hs
      · exact (hq.pushGrace he ..).done

theorem notify (h : Callings K b t s m₀ m) (d : Nat) : Callings K b t s m₀ (m.notify d) := h.pass (.notify ..)

theorem requestPass (h : Callings K b t s m₀ m) (d : Nat) : Callings K b t s m₀ (m.requestPass d) :=
  (h.modifyDrain d _).notify d

theorem enqueue (h : Callings K b t s m₀ m) (e : Nat) (k : Kind) (x : Callback) :
    Callings K b t s m₀ (m.enqueue t e k x) := by
  have hr : Callings K b t s m₀ (m.retain e) := h.modifyEngine ..
  unfold Machine.enqueue
  dsimp only
  split
  · exact ((hr.modifyEngine e _).mark ..).requestPass _
  · exact ((h.modifyEngine e _).mark ..).requestPass _

theorem startDrain (h : Callings K b t s m₀ m) (d : Nat) : Callings K b t s m₀ (m.startDrain t d) := by
  unfold Machine.startDrain
  split
  · exact h.fail _
  · exact (h.push rfl).done

theorem startBarrier (h : Callings K b t s m₀ m) (he : K e) (hb : m.schedulerOf e = s → b = true) (k : Kind) :
    Callings K b t s m₀ (m.startBarrier t e k) := by
  unfold Machine.startBarrier
  split
  · exact h.fail _
  · exact ((h.mark ..).push rfl).startSynchronize he hb k

theorem register (h : Callings K b t s m₀ m) (e : Nat) (k : Kind) (w : Nat) :
    Callings K b t s m₀ (m.register t e k w) := by
  have hr := h.setDomain e k (((m.engine e).domain k).register w).1
  unfold Machine.register
  dsimp only
  split
  · exact h.fail _
  · split
    · exact (hr.log _).back _
    · exact hr.back _

theorem shutdown (h : Callings K b t s m₀ m) (ds : List Nat) (saved : Outcome) :
    Callings K b t s m₀ (m.shutdown t ds saved) := by
  cases ds with
  | nil => exact h.back _
  | cons d rest =>
    have hc : Callings K b t s m₀
        ((m.modifyDrain d fun x => { x with tickets := x.tickets.close }).notify d) :=
      (h.modifyDrain ..).notify d
    unfold Machine.shutdown
    dsimp only
    split
    · exact (hc.push rfl).done
    · exact (hc.push rfl).done.pass (.join ..)

theorem releaseHandle (h : Callings K b t s m₀ m) (e : Nat) (o : Outcome) :
    Callings K b t s m₀ (m.releaseHandle t e o) := by
  have hn := h.modifyEngine e fun x => { x with handles := (m.engine e).handles - 1 }
  unfold Machine.releaseHandle
  dsimp only
  split
  · exact (hn.log _).shutdown _ o
  · exact hn.back o

theorem releaseTask (h : Callings K b t s m₀ m) (d : Nat) (o : Outcome) :
    Callings K b t s m₀ (m.releaseTask t d o) := by
  have hn := h.modifyDrain d fun x => { x with holders := (m.drain d).holders - 1 }
  unfold Machine.releaseTask
  dsimp only
  split
  · exact hn.shutdown _ o
  · exact hn.back o

theorem buildEngine {slot : Option Nat} {x : Config} {w : Nat} (h : Callings K b t s m₀ m)
    (hm : m.buildEngine t slot x = .ok (e, w, m')) : Callings K b t s m₀ m' := by
  unfold Machine.buildEngine at hm
  cases hn : x.workerCount (m.offered x) m.hostWorkers with
  | error g =>
    rw [hn] at hm
    cases hm
  | ok w' =>
    rw [hn] at hm
    simp only [Except.map, Except.ok.injEq, Prod.mk.injEq] at hm
    obtain ⟨-, -, rfl⟩ := hm
    have ha : Callings K b t s m₀ (m.accessFor x w').1 := by
      unfold Machine.accessFor
      split
      · exact h
      · exact h.pass (.addScheduler m t w')
    exact (ha.pass (.startEngine _ t slot x (m.accessFor x w').2)).log _

theorem build (h : Callings K b t s m₀ m) (slot : Nat) (x : Config) :
    Callings K b t s m₀ (m.build t slot x) := by
  have hs := h.tables (m.slots.modify slot id) m.keys m.bareTask
  unfold Machine.build
  dsimp only
  split
  · exact hs.refuse _
  · split
    · exact hs.refuse _
    · split
      · exact hs.back _
      · rename_i hm
        exact ((hs.buildEngine hm).tables ..).back _

theorem buildDefault (h : Callings K b t s m₀ m) (k : Kind) : Callings K b t s m₀ (m.buildDefault t k) := by
  unfold Machine.buildDefault
  split
  · exact h.back _
  · rename_i hm
    exact (h.buildEngine hm).releaseHandle _ _

theorem clone (h : Callings K b t s m₀ m) (held : Option Nat) (slot : Nat) :
    Callings K b t s m₀ (m.clone t held slot) := by
  unfold Machine.clone
  split
  · exact h.refuse _
  · exact ((h.modifyEngine ..).tables ..).back _

theorem dropHandle (h : Callings K b t s m₀ m) (slot : Nat) : Callings K b t s m₀ (m.dropHandle t slot) := by
  unfold Machine.dropHandle
  split
  · exact h.refuse _
  · exact (h.tables ..).releaseHandle _ _

theorem callTask (h : Callings K b t s m₀ m) (x : TaskCall) : Callings K b t s m₀ (m.callTask t x) := by
  unfold Machine.callTask
  cases x with
  | spawn name passes =>
    dsimp only
    split
    · exact h.refuse _
    · exact ((h.pass (.spawnDrain m t .bare name { work := .scripted passes, holders := 1 })).tables ..).done
  | enqueue =>
    cases m.bareTask with
    | none => exact h.refuse _
    | some d => exact (h.requestPass d).done
  | drain =>
    cases m.bareTask with
    | none => exact h.refuse _
    | some d => exact ((h.modifyDrain ..).push rfl).startDrain d
  | isWorker =>
    cases m.bareTask with
    | none => exact h.refuse _
    | some d => exact h.back _
  | drop =>
    cases m.bareTask with
    | none => exact h.refuse _
    | some d => exact (h.tables m.slots m.keys none).releaseTask d _

theorem srcuLock (h : Callings K b t s m₀ m) (hb : m.schedulerOf e = s → b = true) (key : String) :
    Callings K b t s m₀ (m.srcuLock t e key) := by
  have hl := h.readLock hb .sleepable
  unfold Machine.srcuLock
  dsimp only
  split
  · exact hl.fail _
  · exact (hl.tables ..).back _

theorem srcuUnlock (h : Callings K b t s m₀ m) (hb : m.schedulerOf e = s → b = true) (key : String) :
    Callings K b t s m₀ (m.srcuUnlock t e key) := by
  unfold Machine.srcuUnlock
  split
  · exact h.back _
  · split
    · exact (h.readUnlock hb .sleepable).answer _ _
    · exact h.fail _

theorem callHandle (h : Callings K b t s m₀ m) (he : K e) (x : HandleCall)
    (hb : x.schedules = true → m.schedulerOf e = s → b = true) :
    Callings K b t s m₀ (m.callHandle t e x) := by
  cases x with
  | register k w => exact h.register e k w
  | readLock k => exact (h.readLock (hb rfl) k).answer _ _
  | readUnlock k => exact (h.readUnlock (hb rfl) k).answer _ _
  | synchronize k => exact h.startSynchronize he (hb rfl) k
  | srcuSynchronize => exact h.startSynchronize he (hb rfl) .sleepable
  | barrier k => exact h.startBarrier he (hb rfl) k
  | srcuBarrier => exact h.startBarrier he (hb rfl) .sleepable
  | srcuLock key => exact h.srcuLock (hb rfl) key
  | srcuUnlock key => exact h.srcuUnlock (hb rfl) key
  | deferDrop k id size => exact (h.enqueue e k _).done
  | deferContainer k id size offset =>
    unfold Machine.callHandle
    dsimp only
    split
    · exact h.fail _
    · exact (h.enqueue e k _).done
  | isRegistered k w | activeReaders k w => exact h.answer _ _
  | readDepth k | currentEpoch k | pending k | numWorkers | srcuDepth => exact h.back _

theorem runGuardBody (h : Callings K b t s m₀ m) (held : Option Nat) (k : Kind) (rs : List Result)
    (ops : List Op) : Callings K b t s m₀ (m.runGuardBody t held k rs ops) := by
  cases ops with
  | nil => exact h.back _
  | cons op rest => exact (h.push rfl).eval held op

theorem startGuard (h : Callings K b t s m₀ m) (he : K e)
    (hb : m.schedulerOf e = s → b = true) (held : Option Nat) (k : Kind) (body : List Op) :
    Callings K b t s m₀ (m.startGuard t e held k body) := by
  have hl := h.readLock hb k
  unfold Machine.startGuard
  dsimp only
  split
  · exact hl.fail _
  · exact runGuardBody (hl.tail (.push _ (.leave e k) fun _ hs => Option.some.inj hs ▸ he)) ..

theorem withEngine (h : Callings K b t s m₀ m) (held : Option Nat) (slot : Nat) {g : Machine → Nat → Machine}
    (hg : ∀ n e, m.resolve held slot = some e → n.schedulerOf e = m.schedulerOf e →
      Callings K b t s m₀ n → Callings K b t s m₀ (g n e)) :
    Callings K b t s m₀ (m.withEngine t held slot g) := by
  cases hr : m.resolve held slot with
  | none =>
    rw [Machine.withEngine, hr]
    exact h.refuse _
  | some e =>
    rw [withEngine_of_resolve hr]
    refine hg _ e hr ?_ ((h.modifyEngine ..).push rfl)
    exact congrArg Access.scheduler (part_modifyEngine Engine.access m e e fun _ => rfl)

theorem withScheduler (h : Callings K b t s m₀ m) (c : Nat) (hm : c < m.named → Callings K b t s m₀ m') :
    Callings K b t s m₀ (m.withScheduler t c m') := by
  unfold Machine.withScheduler
  split
  · rename_i hc
    exact hm hc
  · exact h.refuse _

theorem startOp (h : Callings K b t s m₀ m) (hm : ∀ e, m.Known e → K e) (held : Option Nat)
    {op : Op} (hb : m.opScheduler? held op = some s → b = true) :
      Callings K b t s m₀ (m.startOp t held op) := by
  cases op with
  | build slot c => exact h.build slot c
  | buildDefault k => exact h.buildDefault k
  | clone slot => exact h.clone held slot
  | dropHandle slot => exact h.dropHandle slot
  | handle slot c =>
    refine h.withEngine held slot (g := fun m e => m.callHandle t e c) fun n e hr hs hn =>
      hn.callHandle (hm e (known_of_resolve hr)) c fun hc he => hb ?_
    rw [opScheduler?, if_pos hc, hr, ← he, hs]
    rfl
  | call slot srcu k id hold body =>
    exact h.withEngine held slot (g := fun m e => (m.enqueue t e k (.call id hold body)).done t)
      fun n e _ _ hn => (hn.enqueue e k _).done
  | guard slot srcu k caught body =>
    refine h.withEngine held slot (g := fun m e => m.startGuard t e held k body) fun n e hr hs hn =>
      hn.startGuard (hm e (known_of_resolve hr)) (fun he => hb ?_) held k body
    rw [opScheduler?, hr, ← he, hs]
    rfl
  | engineScheduler slot c =>
    refine h.withEngine held slot (g := fun m e => m.callScheduler t (m.engine e).access c)
      fun n e hr hs hn => hn.callScheduler (fun he => hb ?_) c
    rw [opScheduler?, hr, ← he]
    exact congrArg some hs.symm
  | scheduler c l =>
    refine h.withScheduler c fun hc => h.callScheduler (fun he => hb ?_) l
    rw [opScheduler?, if_pos hc]
    exact congrArg some he
  | logical c l =>
    refine h.withScheduler c fun hc => h.callLogical (fun he => hb ?_) l
    rw [opScheduler?, if_pos hc]
    exact congrArg some he
  | task c => exact h.callTask c
  | panic q | note text | threadName | unknown name => exact h.back _
  | gate => exact h.park _

theorem start (h : Callings K b t s m₀ m) (hm : ∀ e, m.Known e → K e) (held : Option Nat)
    {op : Op} (hb : m.opScheduler? held op = some s → b = true) :
      Callings K b t s m₀ (m.start t held op) := by
  unfold Machine.start
  split
  · exact (h.push (f := .attempt) rfl).startOp hm held hb
  · exact h.startOp hm held hb

theorem resumeAwait (h : Callings K b t s m₀ m) (d ticket : Nat) :
    Callings K b t s m₀ (m.resumeAwait t d ticket) := by
  unfold Machine.resumeAwait
  split
  · exact h.done
  · exact (h.push rfl).pass (.waitFor ..)

theorem resumeJoined (h : Callings K b t s m₀ m) (d : Nat) (ds : List Nat) (saved : Outcome) :
    Callings K b t s m₀ (m.resumeJoined t d ds saved) := by
  unfold Machine.resumeJoined
  dsimp only
  split
  · exact ((h.log _).push rfl).done
  · exact (h.push rfl).done

theorem runScripted (h : Callings K b t s m₀ m) (d i : Nat) (word : String) :
    Callings K b t s m₀ (m.runScripted t d i word) := by
  have hp : Callings K b t s m₀ (m.emit t (.pass i)) := h.emit _
  unfold Machine.runScripted
  dsimp only
  split
  · exact hp.park _
  · exact hp.fail _
  · exact hp.startDrain d
  · exact (hp.requestPass d).done
  · exact (hp.emit _).done
  · exact hp.done

theorem runCallbacks (h : Callings K b t s m₀ m) (he : K e) (hb : m.schedulerOf e = s → b = true) (k : Kind) :
    Callings K b t s m₀ (m.runCallbacks t e k) := by
  unfold Machine.runCallbacks
  split
  · exact h.done
  · refine ((h.modifyEngine ..).push rfl).startSynchronize he (fun hs => hb ?_) k
    rw [← hs]
    exact (congrArg Access.scheduler (part_modifyEngine Engine.access m e e
      (f := fun x => x.setQueue k []) fun _ => rfl)).symm

theorem startPass (h : Callings K b t s m₀ m) (hk : ∀ e, m.frameEngine? (.worker d none) = some e → K e)
    (hb : (m.frameEngine? (.worker d none)).map m.schedulerOf = some s → b = true) :
    Callings K b t s m₀ (m.startPass t d) := by
  have hp := h.modifyDrain d fun x => { x with passes := (m.drain d).passes + 1 }
  cases hw : (m.drain d).work with
  | callbacks e k =>
    have he : m.frameEngine? (.worker d none) = some e := by
      rw [frameEngine?, hw]
      rfl
    rw [startPass_callbacks t hw]
    refine hp.runCallbacks (hk e he) (fun hs => hb ?_) k
    rw [he, ← hs]
    rfl
  | scripted words =>
    rw [startPass_scripted t hw]
    exact hp.runScripted ..

theorem weaken (h : Callings K false t s m₀ m) (b : Bool) : Callings K b t s m₀ m := by
  induction h with
  | refl => exact .refl
  | tail _ hc ih =>
    cases hc with
    | pass hp => exact ih.tail (.pass hp)
    | push f hf => exact ih.tail (.push _ f hf)
    | enroll | change => contradiction

end Callings

/-- What becomes of a thread in a step. Of one that ends no scheduler hears before its end. -/
inductive Consults (K : Nat → Prop) (b : Bool) (t s : Nat) (m m' : Machine) : Prop
  | goesOn (h : Callings K b t s m m')
  | ends (n : Machine) (h : Callings K false t s m n) (hs : n.schedulers = m.schedulers)
      (q : Option Payload) (he : m' = n.endThread t q)

namespace Consults

theorem workerLoop (h : Callings K false t s m₀ m) (hs : m.schedulers = m₀.schedulers)
    (hk : ∀ e, m.frameEngine? (.worker d none) = some e → K e)
    (hb : (m.frameEngine? (.worker d none)).map m.schedulerOf = some s → b = true) :
    Consults K b t s m₀ (m.workerLoop t d) := by
  have hgo := h.weaken b
  unfold Machine.workerLoop
  split
  · exact .ends m h hs none rfl
  · exact .goesOn ((hgo.push rfl).pass (.waitFor ..))
  · exact .goesOn ((hgo.push rfl).startPass hk hb)

theorem resumeWorker (h : Callings K false t s m₀ m) (hs : m.schedulers = m₀.schedulers)
    (hk : ∀ e, m.frameEngine? (.worker d none) = some e → K e)
    (hb : (m.frameEngine? (.worker d none)).map m.schedulerOf = some s → b = true)
    (ticket : Option Nat) (o : Outcome) : Consults K b t s m₀ (m.resumeWorker t d ticket o) := by
  cases o with
  | error q => exact .ends m h hs (some q) rfl
  | ok r =>
    cases ticket with
    | none => exact workerLoop h hs hk hb
    | some n =>
      let n' := (m.modifyDrain d fun x => { x with tickets := x.tickets.complete n }).notify d
      have hw : n'.frameEngine? (.worker d none) = m.frameEngine? (.worker d none) := by
        have hw : (n'.drain d).work = (m.drain d).work :=
          (part_drain_notify Drain.work (fun _ _ => rfl) _ d d).trans
            (part_modifyDrain Drain.work m d d fun _ => rfl)
        rw [frameEngine?, hw, frameEngine?]
      have he : n'.schedulerOf = m.schedulerOf := by
        have hn : n'.engines = m.engines := (congrArg engines (notify_eq (m.modifyDrain d _) d) :)
        funext e
        rw [schedulerOf, engine, hn, schedulerOf, engine]
      have hn : n'.schedulers = m.schedulers := (congrArg schedulers (notify_eq (m.modifyDrain d _) d) :)
      refine workerLoop (m := n') ((h.modifyDrain ..).notify d) (hn.trans hs) (fun e hs => hk e ?_)
        fun hs => hb ?_
      · rwa [hw] at hs
      · rwa [hw, he] at hs

theorem resume (h : Callings K false t s m₀ m) (hs : m.schedulers = m₀.schedulers)
    (hk : ∀ e, m.frameEngine? f = some e → K e)
    (hb : (m.frameEngine? f).map m.schedulerOf = some s → b = true) (o : Outcome) :
    Consults K b t s m₀ (m.resume t o f) := by
  have hgo := h.weaken b
  cases f with
  | worker d ticket => exact resumeWorker h hs hk hb ticket o
  | attempt => cases o <;> exact .goesOn (hgo.back _)
  | release e => exact .goesOn (hgo.releaseHandle e o)
  | releaseTask d => exact .goesOn (hgo.releaseTask d o)
  | leave e k =>
    have hu := hgo.readUnlock (fun hs => hb (congrArg some hs)) k
    unfold Machine.resume
    dsimp only
    split
    · exact .goesOn (hu.fail _)
    · exact .goesOn (hu.back _)
  | guardBody held k rs rest =>
    cases o with
    | error q => exact .goesOn (hgo.back _)
    | ok r => exact .goesOn (hgo.runGuardBody ..)
  | callbackBody held name rest =>
    cases o with
    | error q => exact .goesOn (hgo.back _)
    | ok r => exact .goesOn ((hgo.emit _).pass (.batchMoves (.runCallbackBody .refl held rest)))
  | batch e k rest =>
    cases o with
    | error q => exact .goesOn (((hgo.log _).mark ..).pass (.batchMoves (.runBatch ..)))
    | ok r => exact .goesOn ((hgo.mark ..).pass (.batchMoves (.runBatch ..)))
  | detached e k batch =>
    cases o with
    | error q => exact .goesOn (hgo.pass (.batchMoves (.discardBatch ..)))
    | ok r => exact .goesOn ((hgo.log _).pass (.batchMoves (.runBatch ..)))
  | grace e k c target =>
    have hs (hs : m.schedulerOf e = s) : b = true := hb (congrArg some hs)
    cases o with
    | error q => exact .goesOn (hgo.abortSynchronize hs k c q)
    | ok r => exact .goesOn (hgo.locateBlocker (hk e rfl) hs k c target)
  | barrier e k =>
    cases o with
    | error q => exact .goesOn (hgo.back _)
    | ok r => exact .goesOn ((hgo.push rfl).startDrain _)
  | barrierEnd e k =>
    cases o with
    | error q => exact .goesOn (hgo.back _)
    | ok r => exact .goesOn ((hgo.mark ..).back _)
  | await d ticket =>
    cases o with
    | error q => exact .goesOn (hgo.back _)
    | ok r => exact .goesOn (hgo.resumeAwait d ticket)
  | wake c id => exact .goesOn (Callings.back (hgo.pass (.endPause m t c id)) o)
  | shutdown drains saved => exact .goesOn (hgo.shutdown drains saved)
  | joined d drains saved => exact .goesOn (hgo.resumeJoined d drains saved)

end Consults

/-- A step calls at most the scheduler that it is about to call. -/
theorem advance_consults (hm : ∀ e, m.Known e → K e)
    (hk : ∀ f ∈ (m.thread t).stack, ∀ e, m.frameEngine? f = some e → K e)
    (hb : m.callsScheduler? t = some s → b = true) : Consults K b t s m (m.advance t) := by
  unfold callsScheduler? at hb
  cases hc : (m.thread t).control with
  | eval held op =>
    rw [hc] at hb
    rw [advance, hc]
    exact .goesOn (Callings.start .refl hm held hb)
  | back o =>
    rw [hc] at hb
    cases hst : (m.thread t).stack with
    | nil =>
      rw [advance, hc, hst]
      exact .goesOn ((Callings.emit .refl _).pass (.stop ..))
    | cons f rest =>
      rw [hst] at hb hk
      rw [advance_back hc hst]
      exact .resume (.single (.pass (.pop hst))) rfl (hk f List.mem_cons_self) hb o

end Machine

end GracePeriod
