import GracePeriod.Proofs.Move
import GracePeriod.Proofs.Parts
import GracePeriod.Proofs.Scheduler

namespace GracePeriod

def Frame.isBarrier : Frame → Bool
  | .barrier .. | .barrierEnd .. => true
  | _ => false

def Mark.isBarrier : Mark → Bool
  | .barrierCalled | .barrierReturned => true
  | _ => false

def Scope.isLoop (scope : Scope) (d : Nat) : Bool := scope.pushes (.worker d none)

namespace Machine

/-- The engine can be found: it stands in the table, or knows its place there. -/
def Known (m : Machine) (e : Nat) : Prop :=
  (m.engine e).slot ≠ none ∨ ∃ s, m.tableEngine s = some e

/-- The least that thread `t` does on purpose. -/
inductive Action (scope : Scope) (t : Nat) : Machine → Machine → Prop
  | control (m : Machine) (c : Control) :
      Action scope t m (m.modifyThread t fun x => { x with control := c })
  | push (m : Machine) (f : Frame) (h : scope.pushes f = true) (hb : f.isBarrier = false) :
      Action scope t m (m.push t f)
  | emit (m : Machine) (v : Event) (h : v.isMark = false) : Action scope t m (m.emit t v)
  | mark (m : Machine) (e : Nat) (k : Kind) (v : Mark) (h : scope.marks e k v = true)
      (hb : v.isBarrier = false) : Action scope t m (m.mark t e k v)
  | enroll (m : Machine) (s : Nat) : Action scope t m (m.enroll t s)
  /-- Of the tasks, only that of the thread itself changes, up to pauses. -/
  | scheduler (m : Machine) (s : Nat) (f : Scheduler → Scheduler) (h : Scheduler.Keeps f)
      (hs : (m.scheduler s).tasks.WellFormed →
        Scheduler.Steady (m.scheduler s) (f (m.scheduler s)))
      (ho : (m.scheduler s).tasks.WellFormed → ∀ i, m.task? t s ≠ some i →
        Scheduler.Spares (m.scheduler s) (f (m.scheduler s)) i) :
      Action scope t m (m.modifyScheduler s f)
  | addScheduler (m : Machine) (n : Nat) (h : 0 < n) :
      Action scope t m { m with schedulers := m.schedulers.push { workers := n } }
  | handles (m : Machine) (e n : Nat) :
      Action scope t m (m.modifyEngine e fun x => { x with handles := n })
  /-- How many passes there have been, or how many handles there are. -/
  | count (m : Machine) (d : Nat) (f : Drain → Drain)
      (h : ∀ x, (f x).work = x.work ∧ (f x).thread = x.thread ∧ (f x).waiters = x.waiters ∧
        (f x).tickets = x.tickets)
      (hp : (∀ x, (f x).passes = x.passes) ∨ scope.isLoop d = true) :
      Action scope t m (m.modifyDrain d f)
  /-- A pass over no domain is asked for. -/
  | request (m : Machine) (d : Nat)
      (h : m.bareTask = some d ∨ (m.drain d).work.domain? = none) :
      Action scope t m (m.requestPass d)
  | close (m : Machine) (d : Nat) :
      Action scope t m ((m.modifyDrain d fun x => { x with tickets := x.tickets.close }).notify d)
  | complete (m : Machine) (d n : Nat)
      (h : ∀ e k, (m.drain d).work.domain? = some (e, k) → scope.serves e k = true)
      (hl : scope.isLoop d = true) :
      Action scope t m
        ((m.modifyDrain d fun x => { x with tickets := x.tickets.complete n }).notify d)
  | slots (m : Machine) (slots : Table Slot)
      (h : ∀ s e, tableEngine { m with slots } s = some e → m.Known e) :
      Action scope t m { m with slots }
  | keys (m : Machine) (keys : List (String × UInt32)) : Action scope t m { m with keys }
  | dropTask (m : Machine) : Action scope t m { m with bareTask := none }
  | register (m : Machine) (e : Nat) (k : Kind) (w : Nat) :
      Action scope t m (m.setDomain e k (((m.engine e).domain k).register w).1)
  | openSection (m : Machine) (e : Nat) (k : Kind)
      (h : (m.task? t (m.engine e).access.scheduler).isSome = true) :
      Action scope t m (m.openSection t e k).1
  | closeSection (m : Machine) (e : Nat) (k : Kind) : Action scope t m (m.closeSection t e k).1
  | advance (m : Machine) (e : Nat) (k : Kind) (h : scope.waits = true) :
      Action scope t m ((m.setDomain e k ((m.engine e).domain k).advance).mark t e k
        (.advanced ((m.engine e).domain k).advance.epoch))
  /-- A callback is enqueued, and a pass over its domain is asked for. -/
  | enqueue (m : Machine) (e : Nat) (k : Kind) (c : Callback) (h : m.Known e) :
      Action scope t m (((m.modifyEngine e fun x => x.setQueue k (x.queue k ++ [c])).mark t e k
        (.queued c)).requestPass ((m.engine e).drains.get k))
  | detach (m : Machine) (e : Nat) (k : Kind) (h : scope.serves e k = true) :
      Action scope t m (m.modifyEngine e fun x => x.setQueue k [])
  | startEngine (m : Machine) (slot : Option Nat) (c : Config) (p : Access)
      (h : c.StartsIdle p.workers)
      (hs : p.scheduler < m.named ∨ 0 < (m.scheduler p.scheduler).workers) :
      Action scope t m (m.startEngine slot c p).2
  | spawnTask (m : Machine) (name : String) (passes : List String) :
      Action scope t m
        { (m.spawnDrain .bare name { work := .scripted passes, holders := 1 }).2 with
          bareTask := some m.drains.size }

abbrev Actions (scope : Scope) (t : Nat) : Machine → Machine → Prop :=
  Relation.ReflTransGen (Action scope t)

/-- A turn of thread `t`: actions, and then perhaps the end of the turn or of the thread, the start of a
grace period, or a step in a barrier. The turn has taken frame `top` off the stack, if any. -/
inductive ThreadTurn (scope : Scope) (top : Option Frame) (t : Nat) (m₀ : Machine) : Machine → Prop
  | actions {m : Machine} (h : Actions scope t m₀ m) : ThreadTurn scope top t m₀ m
  | leave {m m' : Machine} (h : Actions scope t m₀ m) (hl : Leave t m m')
      (hs : (m'.thread t).stack = (m.thread t).stack) : ThreadTurn scope top t m₀ m'
  | ended {d : Nat} {own : Option (Nat × Kind)} {m : Machine} (h : Actions scope t m₀ m)
      (hs : scope = .pass d own) (p : Option Payload) : ThreadTurn scope top t m₀ (m.endThread t p)
  | synchronize {m : Machine} (h : Actions scope t m₀ m) (e : Nat) (k : Kind) :
      ThreadTurn scope top t m₀ (m.startSynchronize t e k)
  | barrier {m : Machine} (h : Actions scope t m₀ m) (e : Nat) (k : Kind) (hk : m.Known e) :
      ThreadTurn scope top t m₀ (m.startBarrier t e k)
  /-- A barrier has its grace period behind it. -/
  | drain {m : Machine} (h : Actions scope t m₀ m) (e : Nat) (k : Kind)
      (ht : top = some (.barrier e k)) :
      ThreadTurn scope top t m₀
        ((m.push t (.barrierEnd e k)).startDrain t ((m.engine e).drains.get k))
  | returned {m : Machine} (h : Actions scope t m₀ m) (e : Nat) (k : Kind) (o : Outcome)
      (ht : top = some (.barrierEnd e k)) :
      ThreadTurn scope top t m₀ ((m.mark t e k .barrierReturned).back t o)

variable {scope : Scope} {top : Option Frame} {t e : Nat} {m₀ m m' : Machine}

theorem Moves.neutral (h : Moves scope t m₀ m) (e : Nat) (k : Kind) {v : Mark}
    (hv : v.isNeutral = true) : Moves scope t m₀ (m.mark t e k v) :=
  h.tail (.mark m e k v (scope.marks_of_isNeutral e k hv))

theorem Moves.pushPlain (h : Moves scope t m₀ m) {f : Frame} (hf : f.isPlain = true) :
    Moves scope t m₀ (m.push t f) := h.tail (.push m f (scope.pushes_of_isPlain hf))

theorem Moves.back (h : Moves scope t m₀ m) (o : Outcome) : Moves scope t m₀ (m.back t o) :=
  h.tail (.control m _)

theorem Moves.requestPass (h : Moves scope t m₀ m) (d : Nat) :
    Moves scope t m₀ (m.requestPass d) := by
  have hd : Moves scope t m₀ (m.modifyDrain d fun x => { x with tickets := x.tickets.request }) :=
    h.tail (.drain m d _ fun _ => ⟨rfl, rfl, rfl⟩)
  exact hd.tail (.notify _ d)

theorem Action.moves (h : Action scope t m m') : Moves scope t m m' := by
  cases h with
  | control c => exact .single (.control m c)
  | push f hf hb => exact .single (.push m f hf)
  | emit v hv => exact .single (.emit m v hv)
  | mark e k v hv hb => exact .single (.mark m e k v hv)
  | enroll s => exact .single (.enroll m s)
  | scheduler s f hf hs => exact .single (.scheduler m s f hf)
  | addScheduler n hn => exact .single (.addScheduler m n)
  | handles e n => exact .single (.handles m e n)
  | count d f hf =>
    exact .single (.drain m d f fun x => ⟨(hf x).1, (hf x).2.1, (hf x).2.2.1⟩)
  | request d h => exact Moves.requestPass .refl d
  | close d =>
    have hd : Moves scope t m (m.modifyDrain d fun x => { x with tickets := x.tickets.close }) :=
      .single (.drain m d _ fun _ => ⟨rfl, rfl, rfl⟩)
    exact hd.tail (.notify _ d)
  | complete d n h =>
    have hd : Moves scope t m
        (m.modifyDrain d fun x => { x with tickets := x.tickets.complete n }) :=
      .single (.drain m d _ fun _ => ⟨rfl, rfl, rfl⟩)
    exact hd.tail (.notify _ d)
  | slots slots h => exact .single (.tables m slots m.keys m.bareTask)
  | keys keys => exact .single (.tables m m.slots keys m.bareTask)
  | dropTask => exact .single (.tables m m.slots m.keys none)
  | register e k w => exact .single (.register m e k w)
  | openSection e k hs => exact .single (.openSection m e k hs)
  | closeSection e k => exact .single (.closeSection m e k)
  | advance e k h => exact .single (.advance m e k)
  | enqueue e k c h =>
    have hq : Moves scope t m ((m.modifyEngine e fun x => x.setQueue k (x.queue k ++ [c])).mark t e k
        (.queued c)) := .single (.enqueue m e k c)
    exact hq.requestPass _
  | detach e k h => exact .single (.detach m e k h)
  | startEngine slot c p h hs => exact .single (.startEngine m slot c p h)
  | spawnTask name passes =>
    have hs : Moves scope t m
        (m.spawnDrain .bare name { work := .scripted passes, holders := 1 }).2 :=
      .single (.spawnTask m name passes)
    exact hs.tail (.tables _ m.slots m.keys (some m.drains.size))

theorem Actions.moves (h : Actions scope t m m') : Moves scope t m m' := by
  induction h with
  | refl => exact .refl
  | tail _ hd ih => exact ih.trans hd.moves

theorem Moves.startDrain (h : Moves scope t m₀ m) (d : Nat) :
    Moves scope t m₀ (m.startDrain t d) := by
  unfold Machine.startDrain
  split
  · exact h.back _
  · exact (h.pushPlain (by rfl)).back _

theorem known_of_resolve {held : Option Nat} {slot : Nat} (h : m.resolve held slot = some e) :
    m.Known e := by
  unfold resolve at h
  cases held with
  | none => exact .inr ⟨slot, h⟩
  | some e' =>
    dsimp only at h
    split at h
    · rename_i hs
      obtain rfl := Option.some.inj h
      refine .inl ?_
      rw [hs]
      exact Option.some_ne_none _
    · exact .inr ⟨slot, h⟩

theorem Known.of_eq (h : m.Known e) (he : (m'.engine e).slot = (m.engine e).slot)
    (hs : m'.slots = m.slots) : m'.Known e := by
  rcases h with h | ⟨s, h⟩
  · exact .inl (by rwa [he])
  · refine .inr ⟨s, ?_⟩
    rw [tableEngine, hs]
    exact h

theorem Known.retain (h : m.Known e) (e' : Nat) : (m.retain e').Known e := by
  exact h.of_eq (part_modifyEngine Engine.slot m e' e fun _ => rfl) rfl

theorem workers_enroll (m : Machine) (t s : Nat) :
    ((m.enroll t s).scheduler s).workers = (m.scheduler s).workers := by
  rcases enroll_cases m t s with ⟨-, h⟩ | ⟨-, h⟩
  · rw [h]
  · rw [h]
    exact (congrArg Scheduler.workers (Table.get_set_self ..)).trans rfl

theorem scheduler_record (m : Machine) (t : Nat) (p : Access) (v : Event) (s : Nat) :
    (m.record t p v).scheduler s = m.scheduler s := by
  unfold record
  split <;> rfl

theorem workers_setPriority (m : Machine) (t : Nat) (p : Access) (q : Priority) :
    ((m.setPriority t p q).scheduler p.scheduler).workers = (m.scheduler p.scheduler).workers := by
  rw [setPriority, changeTask, setTask, scheduler_modifyScheduler, if_pos rfl]
  exact (workers_enroll ..).trans (congrArg _ (scheduler_record ..))

theorem not_lt_of_bind {p : Access} {w : Nat} {f : Fault} (h : (m.bind t p w).2 = .error f) :
    ¬w < (m.scheduler p.scheduler).workers := by
  unfold Machine.bind at h
  dsimp only at h
  rw [scheduler_record] at h
  split at h
  · rename_i hc
    unfold Scheduler.checkWorker at hc
    split at hc
    · cases hc
    · assumption
  · cases h

namespace Actions

theorem control (h : Actions scope t m₀ m) (c : Control) :
    Actions scope t m₀ (m.modifyThread t fun x => { x with control := c }) := h.tail (.control m c)

theorem eval (h : Actions scope t m₀ m) (held : Option Nat) (op : Op) :
    Actions scope t m₀ (m.eval t held op) := h.control _

theorem back (h : Actions scope t m₀ m) (o : Outcome) : Actions scope t m₀ (m.back t o) :=
  h.control _

theorem done (h : Actions scope t m₀ m) : Actions scope t m₀ (m.done t) := h.control _

theorem fail (h : Actions scope t m₀ m) (f : Fault) : Actions scope t m₀ (m.fail t f) := h.control _

theorem refuse (h : Actions scope t m₀ m) (r : Refusal) : Actions scope t m₀ (m.refuse t r) :=
  h.control _

theorem answer {α : Type} (h : Actions scope t m₀ m) (f : α → Result) (r : Except Fault α) :
    Actions scope t m₀ (m.answer t f r) := by
  cases r <;> exact h.control _

theorem push (h : Actions scope t m₀ m) {f : Frame} (hf : scope.pushes f = true)
    (hb : f.isBarrier = false) : Actions scope t m₀ (m.push t f) := h.tail (.push m f hf hb)

theorem pushPlain (h : Actions scope t m₀ m) {f : Frame} (hf : f.isPlain = true)
    (hb : f.isBarrier = false) : Actions scope t m₀ (m.push t f) :=
  h.push (scope.pushes_of_isPlain hf) hb

theorem emit (h : Actions scope t m₀ m) (v : Event) (hv : v.isMark = false) :
    Actions scope t m₀ (m.emit t v) := h.tail (.emit m v hv)

theorem log (h : Actions scope t m₀ m) (l : Log) : Actions scope t m₀ (m.log t l) :=
  h.emit (.log l) rfl

theorem mark (h : Actions scope t m₀ m) {e : Nat} {k : Kind} {v : Mark}
    (hv : scope.marks e k v = true) (hb : v.isBarrier = false) :
    Actions scope t m₀ (m.mark t e k v) := h.tail (.mark m e k v hv hb)

theorem skipped (h : Actions scope t m₀ m) (e : Nat) (k : Kind) :
    Actions scope t m₀ (m.mark t e k .skipped) := h.mark (scope.marks_of_isNeutral e k rfl) rfl

theorem modifyScheduler (h : Actions scope t m₀ m) (s : Nat) {f : Scheduler → Scheduler}
    (hf : Scheduler.Keeps f)
    (hs : (m.scheduler s).tasks.WellFormed →
      Scheduler.Steady (m.scheduler s) (f (m.scheduler s)))
    (ho : (m.scheduler s).tasks.WellFormed → ∀ i, m.task? t s ≠ some i →
      Scheduler.Spares (m.scheduler s) (f (m.scheduler s)) i) :
    Actions scope t m₀ (m.modifyScheduler s f) := h.tail (.scheduler m s f hf hs ho)

theorem adjust (h : Actions scope t m₀ m) (s : Nat) {f : Scheduler → Scheduler}
    (hf : ∀ c, (f c).workers = c.workers ∧ (f c).tasks = c.tasks) :
    Actions scope t m₀ (m.modifyScheduler s f) :=
  h.modifyScheduler s (Scheduler.keeps_of_tasks hf) (fun _ => .of_tasks (hf _).1 (hf _).2)
    fun _ i _ => Scheduler.spares_of_eq (congrArg (SlotArray.getD · i) (hf _).2)

theorem count (h : Actions scope t m₀ m) (d : Nat) {f : Drain → Drain}
    (hf : ∀ x, (f x).work = x.work ∧ (f x).thread = x.thread ∧ (f x).waiters = x.waiters ∧
      (f x).tickets = x.tickets) (hp : ∀ x, (f x).passes = x.passes) :
    Actions scope t m₀ (m.modifyDrain d f) := h.tail (.count m d f hf (.inl hp))

theorem slots (h : Actions scope t m₀ m) (slots : Table Slot)
    (hs : ∀ s e, tableEngine { m with slots } s = some e → m.Known e) :
    Actions scope t m₀ { m with slots } := h.tail (.slots m slots hs)

theorem keys (h : Actions scope t m₀ m) (keys : List (String × UInt32)) :
    Actions scope t m₀ { m with keys } := h.tail (.keys m keys)

theorem enroll (h : Actions scope t m₀ m) (s : Nat) : Actions scope t m₀ (m.enroll t s) :=
  h.tail (.enroll m s)

theorem setTask (h : Actions scope t m₀ m) (s : Nat) {x : Task}
    (hs : (m.task? t s).isSome = true)
    (hx : (m.scheduler s).tasks.WellFormed → (m.scheduler s).InRange →
      x.worker < (m.scheduler s).workers) : Actions scope t m₀ (m.setTask t s x) := by
  obtain ⟨id, hid⟩ := Option.isSome_iff_exists.1 hs
  have htask : m.taskId t s = id := by rw [taskId, hid, Option.getD_some]
  refine h.modifyScheduler s (Scheduler.keeps_setTask _ _)
    (fun hw => Scheduler.steady_setTask hw _ (hx hw)) fun hw i hi => ?_
  rw [htask]
  refine Scheduler.spares_of_eq (Scheduler.task_setTask_ne hw ?_ x)
  rintro rfl
  exact hi hid

theorem changeTask (h : Actions scope t m₀ m) (s : Nat) {f : Task → Task}
    (hf : ∀ x : Task, x.worker < (m.scheduler s).workers →
      (f x).worker < (m.scheduler s).workers) :
    Actions scope t m₀ (m.changeTask t s f) := by
  refine (h.enroll s).setTask s (task?_enroll m t s) fun hw hr => ?_
  rw [workers_enroll]
  refine hf _ ?_
  rw [← workers_enroll m t s]
  exact hr.task hw _

theorem record (h : Actions scope t m₀ m) (p : Access) (v : Event) (hv : v.isMark = false) :
    Actions scope t m₀ (m.record t p v) := by
  unfold Machine.record
  split
  · exact h.emit v hv
  · exact h

theorem pin (h : Actions scope t m₀ m) (p : Access) : Actions scope t m₀ (m.pin t p) :=
  (h.record p .pin rfl).changeTask _ fun _ hx => hx

theorem unpin (h : Actions scope t m₀ m) (p : Access) : Actions scope t m₀ (m.unpin t p).1 :=
  ((h.record p .unpin rfl).enroll _).setTask _ (task?_enroll ..) fun hw hr => hr.task hw _

theorem setPinDepth (h : Actions scope t m₀ m) (p : Access) (n : UInt32) :
    Actions scope t m₀ (m.setPinDepth t p n) :=
  (h.record p (.setPinDepth n) rfl).changeTask _ fun _ hx => hx

theorem bind (h : Actions scope t m₀ m) (p : Access) (w : Nat) :
    Actions scope t m₀ (m.bind t p w).1 := by
  have hr := h.record p (.bind w) rfl
  unfold Machine.bind
  dsimp only
  split
  · exact hr
  · rename_i u hu
    exact hr.changeTask p.scheduler (f := (·.bind w)) fun _ _ => Scheduler.lt_of_checkWorker hu

theorem unbind (h : Actions scope t m₀ m) (p : Access) : Actions scope t m₀ (m.unbind t p) :=
  (h.record p .unbind rfl).changeTask _ fun _ hx => hx

theorem setPriority (h : Actions scope t m₀ m) (p : Access) (q : Priority) :
    Actions scope t m₀ (m.setPriority t p q) :=
  (h.record p (.setPriority q) rfl).changeTask _ fun _ hx => hx

theorem sleep (h : Actions scope t m₀ m) (s : Nat) : Actions scope t m₀ (m.sleep t s) :=
  (h.changeTask s (f := fun x => { x with inhibited := true }) fun _ hx => hx).changeTask s
    fun _ hx => hx

theorem endPause (h : Actions scope t m₀ m) (s id : Nat) : Actions scope t m₀ (m.endPause s id) :=
  h.modifyScheduler s (Scheduler.keeps_setTask id _)
    (fun hw => Scheduler.steady_setTask hw id fun hr => hr.task hw id)
    fun hw i _ => Scheduler.spares_setPaused hw id false i

theorem migrate (h : Actions scope t m₀ m) (s w : Nat) : Actions scope t m₀ (m.migrate t s w).1 := by
  unfold Machine.migrate
  split
  · exact h
  · rename_i u hu
    dsimp only
    split
    · refine (h.enroll s).setTask s (task?_enroll m t s) fun _ _ => ?_
      rw [workers_enroll]
      exact Scheduler.lt_of_checkWorker hu
    · exact h.enroll s

theorem orSelf (h : Actions scope t m₀ m) (s : Nat) (id : Option Nat) :
    Actions scope t m₀ (m.orSelf t s id).1 := by
  cases id
  · exact h.enroll s
  · exact h

theorem park (h : Actions scope t m₀ m) (p : Park) : ThreadTurn scope top t m₀ (m.park t p) :=
  .leave h.done (.park _ p) (stack_stop ..)

theorem waitFor (h : Actions scope t m₀ m) (d : Nat) : ThreadTurn scope top t m₀ (m.waitFor t d) :=
  .leave h (.waitFor _ d) ((stack_stop ..).trans (stack_back ..))

theorem join (h : Actions scope t m₀ m) (u : Nat) : ThreadTurn scope top t m₀ (m.join t u) :=
  .leave h (.join _ u) (part_join Thread.stack (fun _ _ => rfl) m t u t)

theorem yield (h : Actions scope t m₀ m) (p : Access) : ThreadTurn scope top t m₀ (m.yield t p) := by
  unfold Machine.yield
  split
  · exact (h.emit .yield rfl).park .yield
  · exact .actions h.done

theorem pause (h : Actions scope t m₀ m) (p : Access) (micros : Nat) :
    ThreadTurn scope top t m₀ (m.pause t p micros) := by
  unfold Machine.pause
  split
  · have hc := (h.emit (.pause micros) rfl).changeTask p.scheduler
      (f := fun x => { x with paused := true }) fun _ hx => hx
    exact (hc.pushPlain rfl rfl).park .pause
  · exact .actions (h.sleep _).done

theorem callScheduler (h : Actions scope t m₀ m) (p : Access) (c : SchedulerCall) :
    ThreadTurn scope top t m₀ (m.callScheduler t p c) := by
  cases c with
  | numWorkers | isHalted => exact .actions (h.back _)
  | currentTask | currentWorker | pinDepth | isBound | priority | dump =>
    exact .actions ((h.enroll p.scheduler).back _)
  | pin => exact .actions (h.pin p).done
  | unpin => exact .actions ((h.unpin p).answer _ _)
  | setPinDepth n => exact .actions (h.setPinDepth p n).done
  | bind w => exact .actions ((h.bind p w).answer _ _)
  | unbind => exact .actions (h.unbind p).done
  | setPriority q => exact .actions (h.setPriority p q).done
  | taskPriority id | taskIsInhibited id =>
    exact .actions ((h.orSelf p.scheduler id).answer _ _)
  | yield => exact h.yield p
  | pause micros => exact h.pause p micros

theorem callLogical (h : Actions scope t m₀ m) (s : Nat) (c : LogicalCall) :
    Actions scope t m₀ (m.callLogical t s c) := by
  cases c with
  | setHalted b =>
    exact (h.adjust s (f := fun x => { x with halted := b }) fun _ => ⟨rfl, rfl⟩).done
  | migrate w => exact (h.migrate s w).answer _ _
  | sleep => exact (h.sleep s).done
  | workerOf id => exact (h.orSelf s id).answer _ _
  | setInhibited id b =>
    exact ((h.orSelf s id).adjust s (f := fun x => x.mark _ b) fun _ => ⟨rfl, rfl⟩).done

theorem openSection (h : Actions scope t m₀ m) (e : Nat) (k : Kind)
    (hs : (m.task? t (m.engine e).access.scheduler).isSome = true) :
    Actions scope t m₀ (m.openSection t e k).1 := h.tail (.openSection m e k hs)

theorem closeSection (h : Actions scope t m₀ m) (e : Nat) (k : Kind) :
    Actions scope t m₀ (m.closeSection t e k).1 := h.tail (.closeSection m e k)

theorem readLock (h : Actions scope t m₀ m) (e : Nat) (k : Kind) :
    Actions scope t m₀ (m.readLock t e k).1 := by
  unfold Machine.readLock
  split
  · exact h.skipped e k
  · refine (h.pin _).openSection e k ?_
    rw [engine_pin]
    exact task?_pin m t _

theorem readUnlock (h : Actions scope t m₀ m) (e : Nat) (k : Kind) :
    Actions scope t m₀ (m.readUnlock t e k).1 := by
  have hc := h.closeSection e k
  unfold Machine.readUnlock
  split
  · exact h.skipped e k
  · dsimp only
    split
    · exact hc
    · exact hc.unpin _

theorem handles (h : Actions scope t m₀ m) (e n : Nat) :
    Actions scope t m₀ (m.modifyEngine e fun x => { x with handles := n }) := h.tail (.handles m e n)

theorem retain (h : Actions scope t m₀ m) (e : Nat) : Actions scope t m₀ (m.retain e) :=
  h.handles e ((m.engine e).handles + 1)

theorem requestPass (h : Actions scope t m₀ m) {d : Nat}
    (hd : m.bareTask = some d ∨ (m.drain d).work.domain? = none) :
    Actions scope t m₀ (m.requestPass d) := h.tail (.request m d hd)

theorem enqueue (h : Actions scope t m₀ m) (hk : m.Known e) (k : Kind) (c : Callback) :
    Actions scope t m₀ (m.enqueue t e k c) := by
  have hd (m : Machine) : ((m.modifyEngine e fun x => x.setQueue k (x.queue k ++ [c])).engine e).drains =
      (m.engine e).drains := part_modifyEngine Engine.drains m e e fun _ => rfl
  unfold Machine.enqueue
  dsimp only
  rw [hd]
  split
  · exact (h.retain e).tail (.enqueue _ e k c (hk.retain e))
  · exact h.tail (.enqueue m e k c hk)

theorem startDrain (h : Actions scope t m₀ m) (d : Nat) : Actions scope t m₀ (m.startDrain t d) := by
  unfold Machine.startDrain
  split
  · exact h.fail _
  · exact (h.pushPlain rfl rfl).done

theorem resumeAwait (h : Actions scope t m₀ m) (d ticket : Nat) :
    ThreadTurn scope top t m₀ (m.resumeAwait t d ticket) := by
  unfold Machine.resumeAwait
  split
  · exact .actions h.done
  · exact (h.pushPlain rfl rfl).waitFor d

theorem runCallbackBody (h : Actions scope t m₀ m) (held : Option Nat) (ops : List Op) :
    Actions scope t m₀ (m.runCallbackBody t held ops) := by
  cases ops with
  | nil => exact h.done
  | cons op rest => exact (h.pushPlain rfl rfl).eval held op

theorem runCallback (h : Actions scope t m₀ m) (e : Nat) (c : Callback) :
    Actions scope t m₀ (m.runCallback t e c) := by
  cases c with
  | destroy size id =>
    unfold Machine.runCallback
    dsimp only
    split
    · exact (h.emit (.destroyed size id) rfl).fail _
    · exact (h.emit (.destroyed size id) rfl).done
  | call id hold body =>
    unfold Machine.runCallback
    dsimp only
    split
    · exact ((h.emit (.callback id) rfl).pushPlain rfl rfl).runCallbackBody _ body
    · exact (h.emit (.callback id) rfl).runCallbackBody _ body

theorem runScripted (h : Actions scope t m₀ m) {d : Nat} (hd : (m.drain d).work.domain? = none)
    (i : Nat) (word : String) : ThreadTurn scope top t m₀ (m.runScripted t d i word) := by
  have hp := h.emit (.pass i) rfl
  unfold Machine.runScripted
  dsimp only
  split
  · exact hp.park .gate
  · exact .actions (hp.fail _)
  · exact .actions (hp.startDrain d)
  · exact .actions (hp.requestPass (.inr hd)).done
  · exact .actions (hp.emit (.isWorker _) rfl).done
  · exact .actions hp.done

theorem shutdown (h : Actions scope t m₀ m) (drains : List Nat) (saved : Outcome) :
    ThreadTurn scope top t m₀ (m.shutdown t drains saved) := by
  cases drains with
  | nil => exact .actions (h.back saved)
  | cons d rest =>
    have hn := h.tail (.close m d)
    unfold Machine.shutdown
    dsimp only
    split
    · exact .actions (Actions.pushPlain hn rfl rfl).done
    · exact (Actions.pushPlain hn rfl rfl).done.join _

theorem resumeJoined (h : Actions scope t m₀ m) (d : Nat) (rest : List Nat) (saved : Outcome) :
    Actions scope t m₀ (m.resumeJoined t d rest saved) := by
  unfold Machine.resumeJoined
  dsimp only
  split
  · exact ((h.log _).pushPlain rfl rfl).done
  · exact (h.pushPlain rfl rfl).done

theorem releaseHandle (h : Actions scope t m₀ m) (e : Nat) (o : Outcome) :
    ThreadTurn scope top t m₀ (m.releaseHandle t e o) := by
  have hn := h.handles e ((m.engine e).handles - 1)
  unfold Machine.releaseHandle
  dsimp only
  split
  · exact (hn.log _).shutdown _ o
  · exact .actions (hn.back o)

theorem releaseTask (h : Actions scope t m₀ m) (d : Nat) (o : Outcome) :
    ThreadTurn scope top t m₀ (m.releaseTask t d o) := by
  have hn := h.count d (f := fun x => { x with holders := (m.drain d).holders - 1 })
    (fun _ => ⟨rfl, rfl, rfl, rfl⟩) fun _ => rfl
  unfold Machine.releaseTask
  dsimp only
  split
  · exact hn.shutdown _ o
  · exact .actions (hn.back o)

end Actions

end Machine

end GracePeriod
