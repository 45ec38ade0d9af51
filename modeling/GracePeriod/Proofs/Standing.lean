import GracePeriod.Proofs.Ownership

namespace GracePeriod

/-- A call that a recorder writes down. -/
def Event.isCall : Event → Bool
  | pin | unpin | setPinDepth _ | bind _ | unbind | setPriority _ | yield | pause _ => true
  | _ => false

/-- The task without the flags of a pause and of a sleep. -/
def Task.withoutFlags (x : Task) : Task := { x with paused := false, inhibited := false }

namespace Snapshot

def calls (c : Snapshot) : List Event :=
  .setPriority c.priority :: .setPinDepth c.pinDepth ::
    if c.bound then [.bind c.worker]
    else .unbind :: if c.pinDepth = 0 then [] else [.bind c.worker]

/-- What they make of its task. Who was free to move stays where it is. -/
def restored (c : Snapshot) (x : Task) : Task :=
  { x with
    worker := if c.bound = true ∨ c.pinDepth ≠ 0 then c.worker else x.worker
    pinDepth := c.pinDepth
    bound := c.bound
    priority := c.priority }

end Snapshot

namespace Machine

variable {m m' m'' : Machine} {t u s i w : Nat} {p : Access} {x : Task}

/-- The recorded calls of thread `t` to schedulers, the newest first. -/
def called (m : Machine) (t : Nat) : List Event :=
  m.trace.filterMap fun p => if p.1 = t ∧ p.2.isCall = true then some p.2 else none

theorem called_of_trace (h : m'.trace = m.trace) (t : Nat) : m'.called t = m.called t := by
  rw [called, h, called]

theorem called_emit (m : Machine) (t : Nat) {v : Event} (hv : v.isCall = true) :
    (m.emit t v).called t = v :: m.called t := by
  rw [called, emit, List.filterMap_cons, if_pos ⟨rfl, hv⟩]
  rfl

theorem called_emit_ne (m : Machine) {u t : Nat} {v : Event} (h : ¬(u = t ∧ v.isCall = true)) :
    (m.emit u v).called t = m.called t := by
  rw [called, emit, List.filterMap_cons, if_neg h]
  rfl

theorem called_emit_quiet (m : Machine) (u t : Nat) {v : Event} (hv : v.isCall = false) :
    (m.emit u v).called t = m.called t :=
  called_emit_ne m fun h => Bool.false_ne_true (hv.symm.trans h.2)

theorem called_enroll (m : Machine) (u s t : Nat) : (m.enroll u s).called t = m.called t :=
  called_of_trace (by rw [enroll_eq]) t

theorem called_changeTask (m : Machine) (u s : Nat) (f : Task → Task) (t : Nat) :
    (m.changeTask u s f).called t = m.called t := called_enroll m u s t

theorem called_record (m : Machine) (t : Nat) (p : Access) {v : Event} (hv : v.isCall = true) :
    (m.record t p v).called t = (if p.recorded then [v] else []) ++ m.called t := by
  unfold record
  split
  · exact called_emit m t hv
  · rfl

/-- How the scheduler sees the thread, which becomes a task of it if it is none. -/
def view (m : Machine) (t s : Nat) : Task := (m.enroll t s).task t s

theorem enroll_of_task? (h : m.task? t s = some i) : m.enroll t s = m := by rw [enroll, h]

theorem task?_enroll_none (h : m.task? t s = none) :
    (m.enroll t s).task? t s = some (m.scheduler s).place.1 := by
  rcases enroll_cases m t s with ⟨⟨i, hi⟩, -⟩ | ⟨-, he⟩
  · cases h.symm.trans hi
  · rw [he, Machine.task?, thread_modifyThread_self]
    show List.lookup s ((m.thread t).tasks ++ [(s, (m.scheduler s).place.1)]) = _
    rw [List.lookup_append, show List.lookup s (m.thread t).tasks = none from h]
    simp

theorem scheduler_enroll_none (h : m.task? t s = none) :
    (m.enroll t s).scheduler s = (m.scheduler s).place.2 := by
  rcases enroll_cases m t s with ⟨⟨i, hi⟩, -⟩ | ⟨-, he⟩
  · cases h.symm.trans hi
  · rw [he]
    exact Table.get_set_self ..

theorem view_of_task? (h : m.task? t s = some i) : m.view t s = (m.scheduler s).task i := by
  rw [view, enroll_of_task? h, task, taskId, h, Option.getD_some]

theorem view_of_none (h : m.task? t s = none) :
    m.view t s = (m.scheduler s).place.2.task (m.scheduler s).place.1 := by
  rw [view, task, taskId, task?_enroll_none h, scheduler_enroll_none h, Option.getD_some]

theorem view_of_eq (hs : m'.schedulers = m.schedulers)
    (ht : (m'.thread t).tasks = (m.thread t).tasks) : m'.view t s = m.view t s := by
  have htask := task?_of_tasks ht s
  have hsch : m'.scheduler s = m.scheduler s := congrArg (Table.get · s) hs
  cases h : m.task? t s with
  | some i => rw [view_of_task? h, view_of_task? (htask.trans h), hsch]
  | none => rw [view_of_none h, view_of_none (htask.trans h), hsch]

/-- Thread `t` has task `i` of scheduler `s`, and is seen there as `x`, up to pauses. Nothing is kept
of a task without a slot. -/
structure Stands (m : Machine) (t s i : Nat) (x : Task) : Prop where
  task? : m.task? t s = some i
  wellFormed : (m.scheduler s).tasks.WellFormed
  task : i < SlotArray.capacity →
    (m.scheduler s).Has i ∧ ((m.scheduler s).task i).withoutFlags = x.withoutFlags

namespace Stands

theorem taskId_eq (h : Stands m t s i x) : m.taskId t s = i := by rw [taskId, h.task?, Option.getD_some]

theorem task_eq (h : Stands m t s i x) (hi : i < SlotArray.capacity) :
    (m.task t s).withoutFlags = x.withoutFlags := by
  rw [Machine.task, h.taskId_eq]
  exact (h.task hi).2

theorem worker_eq (h : Stands m t s i x) (hi : i < SlotArray.capacity) :
    (m.task t s).worker = x.worker := (congrArg Task.worker (h.task_eq hi) :)

theorem enroll_eq (h : Stands m t s i x) : m.enroll t s = m := enroll_of_task? h.task?

theorem view_eq (h : Stands m t s i x) (hi : i < SlotArray.capacity) :
    (m.view t s).withoutFlags = x.withoutFlags := by
  rw [view, h.enroll_eq]
  exact h.task_eq hi

theorem view_of_le (h : Stands m t s i x) (hi : SlotArray.capacity ≤ i) : m.view t s = default := by
  rw [view_of_task? h.task?]
  exact Scheduler.task_of_le h.wellFormed hi

theorem of_tasks (h : Stands m t s i x) (hs : (m'.scheduler s).tasks = (m.scheduler s).tasks)
    (ht : m'.task? t s = m.task? t s) : Stands m' t s i x := by
  refine ⟨ht.trans h.task?, hs ▸ h.wellFormed, fun hi => ?_⟩
  obtain ⟨hh, hx⟩ := h.task hi
  refine ⟨⟨hi, hs ▸ hh.2⟩, ?_⟩
  rw [Scheduler.task, hs]
  exact hx

theorem same (h : Stands m t s i x) (hs : m'.scheduler s = m.scheduler s)
    (ht : m'.task? t s = m.task? t s) : Stands m' t s i x := h.of_tasks (congrArg Scheduler.tasks hs) ht

theorem of_withoutFlags {y : Task} (h : Stands m t s i y) (hy : y.withoutFlags = x.withoutFlags) :
    Stands m t s i x :=
  ⟨h.task?, h.wellFormed, fun hi => ⟨(h.task hi).1, (h.task hi).2.trans hy⟩⟩

theorem spares (h : Stands m t s i x) (hs : Scheduler.Spares (m.scheduler s) (m'.scheduler s) i)
    (ht : m'.task? t s = some i) (hw : (m'.scheduler s).tasks.WellFormed)
    (hh : (m.scheduler s).Has i → (m'.scheduler s).Has i) : Stands m' t s i x := by
  refine ⟨ht, hw, fun hi => ?_⟩
  obtain ⟨hhas, hx⟩ := h.task hi
  obtain ⟨b, hb⟩ := hs
  exact ⟨hh hhas, by rw [hb]; exact hx⟩

theorem changeTask (h : Stands m t s i x) {f : Task → Task}
    (hf : ∀ y : Task, (f y).withoutFlags = (f y.withoutFlags).withoutFlags) :
    Stands (m.changeTask t s f) t s i (f x) := by
  have hsch : (m.changeTask t s f).scheduler s = (m.scheduler s).setTask i (f (m.task t s)) := by
    rw [Machine.changeTask, h.enroll_eq, setTask, h.taskId_eq, scheduler_modifyScheduler, if_pos rfl]
  constructor
  · rw [Machine.changeTask, h.enroll_eq]
    exact h.task?
  all_goals rw [hsch]
  · exact SlotArray.wellFormed_setD h.wellFormed ..
  · refine fun hi => ⟨(h.task hi).1.mono (SlotArray.length_setD h.wellFormed ..), ?_⟩
    rw [Scheduler.task_setTask_self h.wellFormed (h.task hi).1, hf, h.task_eq hi, ← hf]

theorem endPause (h : Stands m t s i x) (hw : ∀ s, (m.scheduler s).tasks.WellFormed) (c id : Nat) :
    Stands (m.endPause c id) t s i x := by
  have hsch := scheduler_modifyScheduler m c s fun c => c.setTask id { c.task id with paused := false }
  rw [← Machine.endPause] at hsch
  by_cases hs : s = c
  · subst hs
    rw [if_pos rfl] at hsch
    refine h.spares ?_ h.task? ?_ fun hh => ?_ <;> rw [hsch]
    · exact Scheduler.spares_setPaused (hw _) id false i
    · exact SlotArray.wellFormed_setD (hw _) ..
    · exact hh.mono (SlotArray.length_setD (hw _) ..)
  · rw [if_neg hs] at hsch
    exact h.same hsch rfl

theorem advance (h : Stands m t s i x) (hr : Reachable m) (hb : m.BuildsIdle) (hu : m.turn = some u)
    (ht : t ≠ u) : Stands (m.advance u) t s i x := by
  have hr' : Reachable (m.advance u) := hr.step hb (by rw [step, hu])
  obtain ⟨hsp, hid⟩ := hr.advance_spares hb hu ht h.task?
  refine h.spares hsp hid (hr'.visited.tasked.wellFormed _) fun hh => ?_
  exact hr.advance_services hb hu (P := fun n => (n.scheduler s).Has i)
    (fun n n' hv hs hn => hs.has hv.tasked hn) hh

theorem external (h : Stands m t s i x) (hv : Visited m) (he : External m m') (hl : ¬m'.Ended t) :
    Stands m' t s i x := by
  obtain ⟨u, hserv⟩ := (Act.external he).service
  obtain ⟨hsp, hid⟩ := he.spares hv.tasked hl h.task?
  exact h.spares hsp hid ((hv.act (.external he)).tasked.wellFormed s) fun hh => hserv.has hv.tasked hh

end Stands

/-- Scheduler calls of thread `t`, the last one first, and what they make of its task. -/
structure Answers (t : Nat) (p : Access) (vs : List Event) (f : Task → Task) (m m' : Machine) :
    Prop where
  engines : m'.engines = m.engines
  stands : ∀ i x, Stands m t p.scheduler i x → Stands m' t p.scheduler i (f x)
  called : m'.called t = (if p.recorded then vs else []) ++ m.called t
  workers : (m'.scheduler p.scheduler).workers = (m.scheduler p.scheduler).workers

namespace Answers

variable {vs vs' : List Event} {f f' : Task → Task}

theorem trans (h : Answers t p vs f m m') (h' : Answers t p vs' f' m' m'') :
    Answers t p (vs' ++ vs) (f' ∘ f) m m'' := by
  refine ⟨h'.engines.trans h.engines, fun i x hx => h'.stands i _ (h.stands i x hx), ?_,
    h'.workers.trans h.workers⟩
  rw [h'.called, h.called, ← List.append_assoc]
  split <;> rfl

theorem followed (h : Answers t p vs f m m') (h' : Answers t p [] id m' m'') :
    Answers t p vs f m m'' := h.trans h'

theorem after (h' : Answers t p vs f m' m'') (h : Answers t p [] id m m') :
    Answers t p vs f m m'' := by
  have ha := h.trans h'
  rwa [List.append_nil] at ha

theorem quiet (p : Access) (hs : m'.schedulers = m.schedulers) (he : m'.engines = m.engines)
    (ht : (m'.thread t).tasks = (m.thread t).tasks) (hc : m'.called t = m.called t) :
    Answers t p [] id m m' := by
  have hsch : m'.scheduler p.scheduler = m.scheduler p.scheduler := congrArg (Table.get · _) hs
  refine ⟨he, fun _ _ hx => hx.same hsch (task?_of_tasks ht _), ?_, by rw [hsch]⟩
  rw [hc, ite_self]
  rfl

theorem emit (m : Machine) (t : Nat) (p : Access) {v : Event} (hv : v.isCall = false) :
    Answers t p [] id m (m.emit t v) := quiet p rfl rfl rfl (called_emit_quiet m t t hv)

theorem log (m : Machine) (t : Nat) (p : Access) (l : Log) : Answers t p [] id m (m.log t l) :=
  emit m t p rfl

theorem mark (m : Machine) (t : Nat) (p : Access) (e : Nat) (k : Kind) (v : Mark) :
    Answers t p [] id m (m.mark t e k v) := emit m t p rfl

theorem modifyThread (m : Machine) (t : Nat) (p : Access) {f : Thread → Thread}
    (hf : ∀ x, (f x).tasks = x.tasks) : Answers t p [] id m (m.modifyThread t f) :=
  quiet p rfl rfl (part_modifyThread Thread.tasks m t t hf) rfl

theorem push (m : Machine) (t : Nat) (p : Access) (g : Frame) :
    Answers t p [] id m (m.push t g) := modifyThread m t p fun _ => rfl

theorem back (m : Machine) (t : Nat) (p : Access) (o : Outcome) :
    Answers t p [] id m (m.back t o) := modifyThread m t p fun _ => rfl

theorem stop (m : Machine) (t : Nat) (p : Access) (q : Status) : Answers t p [] id m (m.stop t q) :=
  quiet p rfl rfl (part_modifyThread Thread.tasks m t t (f := fun x => { x with status := q })
    fun _ => rfl) rfl

theorem park (m : Machine) (t : Nat) (p : Access) (q : Park) : Answers t p [] id m (m.park t q) :=
  (back m t p _).trans (stop _ t p _)

theorem record (m : Machine) (t : Nat) (p : Access) {v : Event} (hv : v.isCall = true) :
    Answers t p [v] id m (m.record t p v) := by
  refine ⟨?_, fun _ _ hx => hx.same (scheduler_record ..) ?_, called_record m t p hv,
    by rw [scheduler_record]⟩ <;>
  · unfold Machine.record
    split <;> rfl

theorem changeTask (m : Machine) (t : Nat) (p : Access) {f : Task → Task}
    (hf : ∀ y : Task, (f y).withoutFlags = (f y.withoutFlags).withoutFlags) :
    Answers t p [] f m (m.changeTask t p.scheduler f) := by
  refine ⟨by rw [Machine.changeTask, Machine.enroll_eq]; rfl, fun _ _ hx => hx.changeTask hf, ?_, ?_⟩
  · rw [called_changeTask, ite_self]
    rfl
  · rw [Machine.changeTask, setTask, scheduler_modifyScheduler, if_pos rfl]
    exact workers_enroll ..

theorem call (m : Machine) (t : Nat) (p : Access) {v : Event} (hv : v.isCall = true)
    {f : Task → Task} (hf : ∀ y : Task, (f y).withoutFlags = (f y.withoutFlags).withoutFlags) :
    Answers t p [v] f m ((m.record t p v).changeTask t p.scheduler f) :=
  (record m t p hv).trans (changeTask _ t p hf)

theorem setPinDepth (m : Machine) (t : Nat) (p : Access) (n : UInt32) :
    Answers t p [.setPinDepth n] (fun x => { x with pinDepth := n }) m (m.setPinDepth t p n) :=
  call m t p rfl fun _ => rfl

theorem setPriority (m : Machine) (t : Nat) (p : Access) (q : Priority) :
    Answers t p [.setPriority q] (fun x => { x with priority := q }) m (m.setPriority t p q) :=
  call m t p rfl fun _ => rfl

theorem unbind (m : Machine) (t : Nat) (p : Access) :
    Answers t p [.unbind] Task.unbind m (m.unbind t p) := call m t p rfl fun _ => rfl

theorem bind (t : Nat) (hw : w < (m.scheduler p.scheduler).workers) :
    Answers t p [.bind w] (·.bind w) m (m.bind t p w).1 ∧ (m.bind t p w).2 = .ok () := by
  have hc : ((m.record t p (.bind w)).scheduler p.scheduler).checkWorker w = .ok () := by
    rw [scheduler_record, Scheduler.checkWorker, if_pos hw]
  have hb : m.bind t p w =
      ((m.record t p (.bind w)).changeTask t p.scheduler (·.bind w), .ok ()) := by
    rw [Machine.bind, hc]
  rw [hb]
  exact ⟨call m t p rfl fun _ => rfl, rfl⟩

theorem refused (t : Nat) (hw : ¬w < (m.scheduler p.scheduler).workers) :
    Answers t p [.bind w] id m (m.bind t p w).1 ∧ ∃ f, (m.bind t p w).2 = .error f := by
  have hc : ((m.record t p (.bind w)).scheduler p.scheduler).checkWorker w =
      .error (.noSuchWorker w (m.scheduler p.scheduler).workers) := by
    rw [scheduler_record, Scheduler.checkWorker, if_neg hw]
  have hb : m.bind t p w = (m.record t p (.bind w),
      .error (.noSuchWorker w (m.scheduler p.scheduler).workers)) := by
    rw [Machine.bind, hc]
  rw [hb]
  exact ⟨record m t p rfl, _, rfl⟩

theorem yield (m : Machine) (t : Nat) (p : Access) : Answers t p [.yield] id m (m.yield t p) := by
  unfold Machine.yield
  cases hp : p.recorded with
  | true =>
    have h := (record m t p (v := .yield) rfl).trans (park _ t p .yield)
    rwa [Machine.record, hp] at h
  | false =>
    refine ⟨rfl, (back m t p _).stands, ?_, rfl⟩
    rw [hp]
    rfl

theorem id_of_withoutFlags (h : Answers t p vs f m m') (hf : ∀ x, (f x).withoutFlags = x.withoutFlags) :
    Answers t p vs id m m' :=
  ⟨h.engines, fun i x hx => (h.stands i x hx).of_withoutFlags (hf x), h.called, h.workers⟩

theorem sleep (m : Machine) (t : Nat) (p : Access) : Answers t p [] id m (m.sleep t p.scheduler) :=
  ((changeTask m t p (f := fun x => { x with inhibited := true }) fun _ => rfl).trans
    (changeTask _ t p (f := fun x => { x with inhibited := false }) fun _ => rfl)).id_of_withoutFlags
    fun _ => rfl

theorem pause (m : Machine) (t : Nat) (p : Access) (micros : Nat) :
    Answers t p [.pause micros] id m (m.pause t p micros) := by
  unfold Machine.pause
  cases hp : p.recorded with
  | true =>
    have hc : Answers t p [.pause micros] id m
        ((m.emit t (.pause micros)).changeTask t p.scheduler fun x => { x with paused := true }) := by
      have h := call m t p (v := .pause micros) rfl (f := fun x => { x with paused := true })
        fun _ => rfl
      rw [Machine.record, hp] at h
      exact h.id_of_withoutFlags fun _ => rfl
    exact (hc.trans (push _ t p _)).trans (park _ t p .pause)
  | false =>
    have hs := (sleep m t p).trans (back _ t p (.ok .unit))
    refine ⟨hs.engines, hs.stands, hs.called.trans ?_, hs.workers⟩
    rw [hp]
    rfl

end Answers

theorem restore_answers (t : Nat) {c : Snapshot} (hw : c.worker < (m.scheduler p.scheduler).workers) :
    Answers t p c.calls c.restored m (m.restore t p c) := by
  have hrest {n : Machine} {vs : List Event} {f : Task → Task} (h : Answers t p vs f m n) :
      Answers t p (.setPriority c.priority :: .setPinDepth c.pinDepth :: vs)
        (fun x => { f x with pinDepth := c.pinDepth, priority := c.priority }) m
        ((n.setPinDepth t p c.pinDepth).setPriority t p c.priority) :=
    (h.trans (.setPinDepth n t p c.pinDepth)).trans (.setPriority _ t p c.priority)
  have hbind := (Answers.bind t hw).1
  unfold restore Snapshot.calls
  by_cases hb : c.bound = true
  · have hc : c.restored = fun x =>
        { x.bind c.worker with pinDepth := c.pinDepth, priority := c.priority } := by
      funext x
      rw [Snapshot.restored, if_pos (.inl hb), hb]
      rfl
    rw [if_pos hb, if_pos hb, hc]
    exact hrest hbind
  rw [if_neg hb, if_neg hb]
  by_cases hp : c.pinDepth = 0
  · have hc : c.restored = fun x =>
        { x.unbind with pinDepth := c.pinDepth, priority := c.priority } := by
      funext x
      rw [Snapshot.restored, if_neg fun h => h.elim hb fun h => h hp, Bool.eq_false_iff.2 hb]
      rfl
    rw [if_pos hp, if_pos hp, hc]
    exact hrest (.unbind m t p)
  · have hc : c.restored = fun x =>
        { (x.bind c.worker).unbind with pinDepth := c.pinDepth, priority := c.priority } := by
      funext x
      rw [Snapshot.restored, if_pos (.inr hp), Bool.eq_false_iff.2 hb]
      rfl
    rw [if_neg hp, if_neg hp, hc]
    exact hrest (hbind.trans (.unbind _ t p))

end Machine

end GracePeriod
