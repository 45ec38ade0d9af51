import GracePeriod.Proofs.KeptDomains
import GracePeriod.Proofs.Standing

namespace GracePeriod

namespace SchedulerCall

/-- The call changes how deep its thread is pinned. -/
def repins : SchedulerCall → Bool
  | pin | unpin | setPinDepth _ => true
  | _ => false

/-- The call takes its thread to another worker even if it is pinned. -/
def binds : SchedulerCall → Bool
  | bind _ => true
  | _ => false

end SchedulerCall

def Op.schedulerCall? : Op → Option SchedulerCall
  | .engineScheduler _ c | .scheduler _ c => some c
  | _ => none

def HandleCall.locks? : HandleCall → Option Kind
  | .readLock k => some k
  | .srcuLock _ => some .sleepable
  | _ => none

/-- What thread `x` is to be when it has been `y`: as deep pinned, and on the same worker if it is pinned at
all, unless it may be bound elsewhere. -/
structure Task.Stays (b : Bool) (x y : Task) : Prop where
  pinDepth : y.pinDepth = x.pinDepth
  worker : b = false → x.pinDepth ≠ 0 → y.worker = x.worker

theorem Task.Stays.refl (b : Bool) (x : Task) : Task.Stays b x x := ⟨rfl, fun _ _ => rfl⟩

theorem Task.Stays.trans {b : Bool} {x y z : Task} (h : Task.Stays b x y) (h' : Task.Stays b y z) :
    Task.Stays b x z :=
  ⟨h'.pinDepth.trans h.pinDepth,
    fun hb hx => (h'.worker hb (by rwa [h.pinDepth])).trans (h.worker hb hx)⟩

namespace Machine

/-- Thread `t` is about to make a call of a scheduler for which `p` holds. -/
def makesCall (m : Machine) (t : Nat) (p : SchedulerCall → Bool) : Bool :=
  match (m.thread t).control with
  | .eval _ op => op.schedulerCall?.any p
  | _ => false

def opLocks? (m : Machine) (held : Option Nat) : Op → Option (Nat × Kind)
  | .handle slot c => c.locks?.bind fun k => (m.resolve held slot).map (·, k)
  | .guard slot _ k .. => (m.resolve held slot).map (·, k)
  | _ => none

/-- The key is that of the innermost section, or carries no depth. -/
def fits (m : Machine) (t e : Nat) (key : String) : Bool :=
  match m.keys.lookup key with
  | none => false
  | some n => n = 0 || n = m.readDepth t e .sleepable

def callUnlocks? (m : Machine) (t e : Nat) : HandleCall → Option Kind
  | .readUnlock k => some k
  | .srcuUnlock key => if m.fits t e key then some .sleepable else none
  | _ => none

def opUnlocks? (m : Machine) (t : Nat) (held : Option Nat) : Op → Option (Nat × Kind)
  | .handle slot c => (m.resolve held slot).bind fun e => (m.callUnlocks? t e c).map (e, ·)
  | _ => none

/-- The section that the next step of a thread opens, or goes deeper into. -/
def locks? (m : Machine) (t : Nat) : Option (Nat × Kind) :=
  match (m.thread t).control with
  | .eval held op => m.opLocks? held op
  | .back _ => none

/-- The section that the next step of a thread is to leave. -/
def unlocks? (m : Machine) (t : Nat) : Option (Nat × Kind) :=
  match (m.thread t).control with
  | .eval held op => m.opUnlocks? t held op
  | .back _ =>
    match (m.thread t).stack with
    | .leave e k :: _ => some (e, k)
    | _ => none

def graces (m : Machine) (t : Nat) : List Frame := (m.thread t).stack.filter Frame.isGrace

/-- Nothing happens to the schedulers, or to what thread `t` has of tasks, sections and grace periods. -/
structure Unasked (t : Nat) (m m' : Machine) : Prop where
  schedulers : m'.schedulers = m.schedulers
  tasks : (m'.thread t).tasks = (m.thread t).tasks
  nests : m'.nests t = m.nests t
  engines_le : m.engines.size ≤ m'.engines.size
  settings : ∀ e < m.engines.size, (m'.engine e).access = (m.engine e).access ∧
    (m'.engine e).skipWhenHalted = (m.engine e).skipWhenHalted
  graces : ∀ f ∈ m'.graces t, f ∈ m.graces t

/-- What thread `t` does that leaves it pinned on scheduler `s` as it is; with `b` it may be bound
elsewhere. -/
inductive KeepsPin (b : Bool) (t s : Nat) : Machine → Machine → Prop
  | still {m m' : Machine} (h : Unasked t m m') : KeepsPin b t s m m'
  | enroll (m : Machine) (c : Nat) : KeepsPin b t s m (m.enroll t c)
  | change (m : Machine) (c : Nat) (f : Task → Task)
    (ha : ∀ x : Task, (f x).withoutFlags = (f x.withoutFlags).withoutFlags)
      (hf : c = s → ∀ x, Task.Stays b x (f x)) : KeepsPin b t s m (m.changeTask t c f)
  | adjust (m : Machine) (c : Nat) (f : Scheduler → Scheduler) (hf : ∀ x, (f x).tasks = x.tasks) :
      KeepsPin b t s m (m.modifyScheduler c f)
  | endPause (m : Machine) (c id : Nat) : KeepsPin b t s m (m.endPause c id)
  | addScheduler (m : Machine) (n : Nat) :
      KeepsPin b t s m { m with schedulers := m.schedulers.push { workers := n } }
  | wait (m : Machine) (e : Nat) (k : Kind) (c : Snapshot) (target : UInt32) (he : e < m.engines.size)
      (hs : (m.engine e).access.scheduler ≠ s) : KeepsPin b t s m (m.push t (.grace e k c target))

abbrev KeepsPins (b : Bool) (t s : Nat) : Machine → Machine → Prop := Relation.ReflTransGen (KeepsPin b t s)

/-- The thread gets ready for a call, or goes on after it. -/
structure Approach (t : Nat) (m m' : Machine) : Prop extends Unasked t m m' where
  domain : ∀ e k, m'.domain e k = m.domain e k
  moves : Moves .all t m m'

variable {b : Bool} {t s e d : Nat} {k : Kind} {m m₀ m' m'' n : Machine} {f : Frame} {p : Access}

namespace Unasked

theorem refl (t : Nat) (m : Machine) : Unasked t m m :=
  ⟨rfl, rfl, rfl, Nat.le_refl _, fun _ _ => ⟨rfl, rfl⟩, fun _ h => h⟩

theorem trans (h : Unasked t m m') (h' : Unasked t m' m'') : Unasked t m m'' := by
  refine ⟨h'.schedulers.trans h.schedulers, h'.tasks.trans h.tasks, h'.nests.trans h.nests,
    h.engines_le.trans h'.engines_le, fun e he => ?_, fun f hf => h.graces f (h'.graces f hf)⟩
  obtain ⟨ha, hs⟩ := h.settings e he
  obtain ⟨ha', hs'⟩ := h'.settings e (Nat.lt_of_lt_of_le he h.engines_le)
  exact ⟨ha'.trans ha, hs'.trans hs⟩

theorem access (h : Unasked t m m') (e : Nat) (he : e < m.engines.size) :
    (m'.engine e).access = (m.engine e).access := (h.settings e he).1

theorem skips (h : Unasked t m m') (he : e < m.engines.size) : m'.skips e = m.skips e := by
  obtain ⟨ha, hs⟩ := h.settings e he
  rw [Machine.skips, scheduler, h.schedulers, ha, hs]
  rfl

theorem of_parts (hs : m'.schedulers = m.schedulers) (he : m'.engines = m.engines)
    (h : ∀ (β : Type) (p : Thread → β), (∀ x q c, p { x with status := q, control := c } = p x) →
      p (m'.thread t) = p (m.thread t)) : Unasked t m m' := by
  refine ⟨hs, h _ Thread.tasks fun _ _ _ => rfl, h _ Thread.nests fun _ _ _ => rfl, by rw [he],
    fun e _ => ?_, fun f hf => ?_⟩
  · rw [engine, he]
    exact ⟨rfl, rfl⟩
  · rwa [Machine.graces, h _ Thread.stack fun _ _ _ => rfl] at hf

theorem of_threads (hs : m'.schedulers = m.schedulers) (he : m'.engines = m.engines)
    (ht : m'.threads = m.threads) : Unasked t m m' :=
  of_parts hs he fun _ p _ => by rw [thread, ht, thread]

theorem back (m : Machine) (t : Nat) (o : Outcome) : Unasked t m (m.back t o) :=
  of_parts rfl rfl fun _ _ hp => part_modifyThread _ m t t fun x => hp x x.status _

theorem eval (m : Machine) (t : Nat) (held : Option Nat) (op : Op) : Unasked t m (m.eval t held op) :=
  of_parts rfl rfl fun _ _ hp => part_modifyThread _ m t t fun x => hp x x.status _

theorem stop (m : Machine) (t : Nat) (q : Status) : Unasked t m (m.stop t q) :=
  of_parts rfl rfl fun _ _ hp => part_modifyThread _ m t t fun x => hp x _ x.control

theorem waitFor (m : Machine) (t d : Nat) : Unasked t m (m.waitFor t d) := by
  have hd : Unasked t (m.done t) ((m.done t).modifyDrain d fun x => { x with waiters := x.waiters ++ [t] }) :=
    of_threads rfl rfl rfl
  exact ((back m t _).trans hd).trans (stop ..)

theorem join (m : Machine) (t u : Nat) : Unasked t m (m.join t u) := by
  refine of_parts ?_ ?_ fun _ p hp => part_join p (fun x q => hp x q x.control) m t u t <;>
  · unfold Machine.join
    dsimp only
    split <;> rfl

theorem notify (m : Machine) (t d : Nat) : Unasked t m (m.notify d) := by
  refine of_parts ?_ ?_ fun _ p hp => part_notify p (fun x q => hp x q x.control) m d t <;> rw [notify_eq]

theorem thread (m : Machine) (t : Nat) {g : Thread → Thread}
    (hg : ∀ x, (g x).tasks = x.tasks ∧ (g x).nests = x.nests)
    (hs : ∀ f ∈ (g (m.thread t)).stack, f.isGrace = true → f ∈ (m.thread t).stack) :
    Unasked t m (m.modifyThread t g) := by
  refine ⟨rfl, part_modifyThread Thread.tasks m t t fun x => (hg x).1,
    part_modifyThread Thread.nests m t t fun x => (hg x).2, Nat.le_refl _, fun _ _ => ⟨rfl, rfl⟩,
    fun f hf => ?_⟩
  rw [Machine.graces, thread_modifyThread_self] at hf
  obtain ⟨hf, hgrace⟩ := List.mem_filter.1 hf
  exact List.mem_filter.2 ⟨hs f hf hgrace, hgrace⟩

theorem push (m : Machine) (t : Nat) (hf : f.isGrace = false) : Unasked t m (m.push t f) := by
  refine thread m t (fun _ => ⟨rfl, rfl⟩) fun g hg hgrace => (List.mem_cons.1 hg).resolve_left ?_
  rintro rfl
  exact Bool.false_ne_true (hf.symm.trans hgrace)

theorem pop {rest : List Frame} (hs : (m.thread t).stack = f :: rest) :
    Unasked t m (m.modifyThread t fun x => { x with stack := rest }) := by
  refine thread m t (fun _ => ⟨rfl, rfl⟩) fun g hg _ => ?_
  rw [hs]
  exact List.mem_cons_of_mem f hg

theorem engine (m : Machine) (t e : Nat) {g : Engine → Engine}
    (hg : ∀ x, (g x).access = x.access ∧ (g x).skipWhenHalted = x.skipWhenHalted) :
    Unasked t m (m.modifyEngine e g) := by
  refine ⟨rfl, rfl, rfl, Table.size_le_modify .., fun e' _ => ⟨?_, ?_⟩, fun _ h => h⟩
  · exact part_modifyEngine Engine.access m e e' fun x => (hg x).1
  · exact part_modifyEngine Engine.skipWhenHalted m e e' fun x => (hg x).2

theorem batchMoves (h : BatchMoves t m m') : Unasked t m m' := by
  obtain ⟨fs, hst, hf⟩ := h.stack
  refine ⟨h.schedulers, h.part Thread.tasks (fun _ _ _ => rfl) t, h.nests t, by rw [h.tables.2.1],
    fun e _ => ?_, fun f hmem => ?_⟩
  · rw [Machine.engine, h.tables.2.1]
    exact ⟨rfl, rfl⟩
  obtain ⟨hmem, hg⟩ := List.mem_filter.1 hmem
  refine List.mem_filter.2 ⟨(List.mem_append.1 (hst ▸ hmem)).resolve_left fun hfs => ?_, hg⟩
  have hb := hf f hfs
  cases f with
  | batch | callbackBody | release => cases hg
  | _ => cases hb

theorem spawnDrain (m : Machine) (t : Nat) (name : ThreadName) (systemName : String) (x : Drain) :
    Unasked t m (m.spawnDrain name systemName x).2 :=
  ⟨rfl, part_spawnDrain Thread.tasks m name systemName x rfl t,
    part_spawnDrain Thread.nests m name systemName x rfl t, Nat.le_refl _, fun _ _ => ⟨rfl, rfl⟩,
    fun f hf => (part_spawnDrain (fun x => x.stack.filter Frame.isGrace) m name systemName x rfl t).subst
      (motive := (f ∈ ·)) hf⟩

theorem startEngine (m : Machine) (t : Nat) (slot : Option Nat) (c : Config) (p : Access) :
    Unasked t m (m.startEngine slot c p).2 := by
  have hspawn : Unasked t m (m.startSecond slot c) :=
    (spawnDrain m t _ _ _).trans (spawnDrain (m.startFirst slot c) t _ _ _)
  refine hspawn.trans ⟨rfl, rfl, rfl, ?_, fun e he => ?_, fun _ h => h⟩
  · exact Nat.le_of_lt (Nat.lt_of_lt_of_eq (Nat.lt_succ_self _) (Table.size_push ..).symm)
  · have hold (x : Engine) :
        ((m.startSecond slot c).engines.push x).get e = (m.startSecond slot c).engine e :=
      (Table.get_push ..).trans (if_neg (Nat.ne_of_lt he))
    exact ⟨congrArg Engine.access (hold _), congrArg Engine.skipWhenHalted (hold _)⟩

end Unasked

namespace Approach

theorem refl (t : Nat) (m : Machine) : Approach t m m := ⟨.refl t m, fun _ _ => rfl, .refl⟩

theorem move (h : Approach t m₀ m) (hu : Unasked t m m') (hd : ∀ e k, m'.domain e k = m.domain e k)
    (hm : Move .all t m m') : Approach t m₀ m' :=
  ⟨h.toUnasked.trans hu, fun e k => (hd e k).trans (h.domain e k), h.moves.tail hm⟩

theorem push (h : Approach t m₀ m) (hf : f.isGrace = false) : Approach t m₀ (m.push t f) :=
  h.move (.push m t hf) (fun _ _ => rfl) (.push m f (Scope.pushes_all f))

theorem pop (h : Approach t m₀ m) {rest : List Frame} (hs : (m.thread t).stack = f :: rest) :
    Approach t m₀ (m.modifyThread t fun x => { x with stack := rest }) :=
  h.move (.pop hs) (fun _ _ => rfl) (.stack m rest rfl)

theorem back (h : Approach t m₀ m) (o : Outcome) : Approach t m₀ (m.back t o) :=
  h.move (.back m t o) (fun _ _ => rfl) (.control m _)

theorem fail (h : Approach t m₀ m) (g : Fault) : Approach t m₀ (m.fail t g) := h.back _

theorem answer {α : Type} (h : Approach t m₀ m) (g : α → Result) (r : Except Fault α) :
    Approach t m₀ (m.answer t g r) := by
  cases r <;> exact h.back _

theorem eval (h : Approach t m₀ m) (held : Option Nat) (op : Op) : Approach t m₀ (m.eval t held op) :=
  h.move (.eval m t held op) (fun _ _ => rfl) (.control m _)

theorem mark (h : Approach t m₀ m) (e : Nat) (k : Kind) {v : Mark} (hv : v.isNeutral = true) :
    Approach t m₀ (m.mark t e k v) :=
  h.move (.of_threads rfl rfl rfl) (fun _ _ => rfl) (.mark m e k v (Scope.marks_of_isNeutral .all e k hv))

theorem keys (h : Approach t m₀ m) (keys : List (String × UInt32)) : Approach t m₀ { m with keys } :=
  h.move (.of_threads rfl rfl rfl) (fun _ _ => rfl) (.tables m m.slots keys m.bareTask)

theorem retain (h : Approach t m₀ m) (e : Nat) : Approach t m₀ (m.retain e) :=
  h.move (.engine m t e fun _ => ⟨rfl, rfl⟩)
    (fun e' k => part_modifyEngine (Engine.domain · k) m e e' fun _ => rfl)
    (.handles m e ((m.engine e).handles + 1))

theorem modifyDrain (h : Approach t m₀ m) (d : Nat) {g : Drain → Drain}
    (hg : ∀ x, (g x).work = x.work ∧ (g x).thread = x.thread ∧ (g x).waiters = x.waiters) :
    Approach t m₀ (m.modifyDrain d g) :=
  h.move (.of_threads rfl rfl rfl) (fun _ _ => rfl) (.drain m d g hg)

theorem notify (h : Approach t m₀ m) (d : Nat) : Approach t m₀ (m.notify d) :=
  h.move (.notify m t d) (fun e k => by rw [notify_eq]; rfl) (.notify m d)

theorem detach (h : Approach t m₀ m) (e : Nat) (k : Kind) :
    Approach t m₀ (m.modifyEngine e fun x => x.setQueue k []) :=
  h.move (.engine m t e fun _ => ⟨rfl, rfl⟩)
    (fun e' k' => part_modifyEngine (Engine.domain · k') m e e' fun _ => rfl) (.detach m e k rfl)

theorem runGuardBody (h : Approach t m₀ m) (held : Option Nat) (k : Kind) (done : List Result)
    (ops : List Op) : Approach t m₀ (m.runGuardBody t held k done ops) := by
  cases ops with
  | nil => exact h.back _
  | cons op rest => exact (h.push rfl).eval held op

theorem visit (h : Approach t m₀ m) (e : Nat) : Approach t m₀ ((m.retain e).push t (.release e)) :=
  (h.retain e).push rfl

end Approach

namespace KeepsPins

theorem still (h : KeepsPins b t s m₀ m) (hu : Unasked t m m') : KeepsPins b t s m₀ m' := h.tail (.still hu)

theorem back (h : KeepsPins b t s m₀ m) (o : Outcome) : KeepsPins b t s m₀ (m.back t o) := h.still (.back ..)

theorem done (h : KeepsPins b t s m₀ m) : KeepsPins b t s m₀ (m.done t) := h.back _

theorem fail (h : KeepsPins b t s m₀ m) (g : Fault) : KeepsPins b t s m₀ (m.fail t g) := h.back _

theorem refuse (h : KeepsPins b t s m₀ m) (r : Refusal) : KeepsPins b t s m₀ (m.refuse t r) := h.back _

theorem answer {α : Type} (h : KeepsPins b t s m₀ m) (g : α → Result) (r : Except Fault α) :
    KeepsPins b t s m₀ (m.answer t g r) := by
  cases r <;> exact h.back _

theorem push (h : KeepsPins b t s m₀ m) (hf : f.isGrace = false) : KeepsPins b t s m₀ (m.push t f) :=
  h.still (.push m t hf)

theorem emit (h : KeepsPins b t s m₀ m) (v : Event) : KeepsPins b t s m₀ (m.emit t v) :=
  h.still (.of_threads rfl rfl rfl)

theorem log (h : KeepsPins b t s m₀ m) (l : Log) : KeepsPins b t s m₀ (m.log t l) := h.emit _

theorem mark (h : KeepsPins b t s m₀ m) (e : Nat) (k : Kind) (v : Mark) :
    KeepsPins b t s m₀ (m.mark t e k v) := h.emit _

theorem record (h : KeepsPins b t s m₀ m) (p : Access) (v : Event) :
    KeepsPins b t s m₀ (m.record t p v) := by
  unfold Machine.record
  split
  · exact h.emit v
  · exact h

theorem park (h : KeepsPins b t s m₀ m) (q : Park) : KeepsPins b t s m₀ (m.park t q) :=
  h.done.still (.stop ..)

theorem enroll (h : KeepsPins b t s m₀ m) (c : Nat) : KeepsPins b t s m₀ (m.enroll t c) :=
  h.tail (.enroll m c)

theorem setPriority (h : KeepsPins b t s m₀ m) (p : Access) (q : Priority) :
    KeepsPins b t s m₀ (m.setPriority t p q) :=
  (h.record p _).tail (.change _ _ _ (fun _ => rfl) fun _ _ => ⟨rfl, fun _ _ => rfl⟩)

theorem unbind (h : KeepsPins b t s m₀ m) (p : Access) : KeepsPins b t s m₀ (m.unbind t p) :=
  (h.record p _).tail (.change _ _ _ (fun _ => rfl) fun _ _ => ⟨rfl, fun _ _ => rfl⟩)

theorem bind (h : KeepsPins b t s m₀ m) (hb : p.scheduler = s → b = true) (w : Nat) :
    KeepsPins b t s m₀ (m.bind t p w).1 := by
  have hr := h.record p (.bind w)
  unfold Machine.bind
  dsimp only
  cases ((m.record t p (.bind w)).scheduler p.scheduler).checkWorker w with
  | error g => exact hr
  | ok u =>
    refine hr.tail (.change _ _ (·.bind w) (fun _ => rfl) fun hs x => ⟨rfl, fun hb' => ?_⟩)
    cases hb'.symm.trans (hb hs)

theorem migrate (h : KeepsPins b t s m₀ m) (c w : Nat) : KeepsPins b t s m₀ (m.migrate t c w).1 := by
  unfold Machine.migrate
  split
  · exact h
  · dsimp only
    split
    · rename_i hx
      let g (x : Task) : Task := if x.movable then { x with worker := w } else x
      have hg : m.changeTask t c g =
          (m.enroll t c).setTask t c { (m.enroll t c).task t c with worker := w } := by
        rw [changeTask]
        exact congrArg ((m.enroll t c).setTask t c) (if_pos hx)
      rw [← hg]
      refine h.tail (.change m c g (fun x => ?_) fun _ x => ?_)
      · show Task.withoutFlags (if x.movable then _ else _) = Task.withoutFlags (if x.movable then _ else _)
        split <;> rfl
      · show Task.Stays b x (if x.movable then _ else _)
        split
        · rename_i hm
          refine ⟨rfl, fun _ hp => absurd ?_ hp⟩
          exact of_decide_eq_true (Bool.and_eq_true_iff.1 hm).1
        · exact .refl b x
    · exact h.enroll c

theorem orSelf (h : KeepsPins b t s m₀ m) (c : Nat) (id : Option Nat) :
    KeepsPins b t s m₀ (m.orSelf t c id).1 := by
  cases id with
  | none => exact h.enroll c
  | some id => exact h

theorem yield (h : KeepsPins b t s m₀ m) (p : Access) : KeepsPins b t s m₀ (m.yield t p) := by
  unfold Machine.yield
  split
  · exact (h.emit _).park _
  · exact h.done

theorem sleep (h : KeepsPins b t s m₀ m) (c : Nat) : KeepsPins b t s m₀ (m.sleep t c) :=
  have hc : KeepsPins b t s m₀ (m.changeTask t c fun x => { x with inhibited := true }) :=
    h.tail (.change _ _ _ (fun _ => rfl) fun _ _ => ⟨rfl, fun _ _ => rfl⟩)
  hc.tail (.change _ _ _ (fun _ => rfl) fun _ _ => ⟨rfl, fun _ _ => rfl⟩)

theorem pause (h : KeepsPins b t s m₀ m) (p : Access) (micros : Nat) :
    KeepsPins b t s m₀ (m.pause t p micros) := by
  unfold Machine.pause
  split
  · have hc : KeepsPins b t s m₀
        ((m.emit t (.pause micros)).changeTask t p.scheduler fun x => { x with paused := true }) :=
      (h.emit _).tail (.change _ _ _ (fun _ => rfl) fun _ _ => ⟨rfl, fun _ _ => rfl⟩)
    exact (hc.push rfl).park _
  · exact (h.sleep _).done

theorem callScheduler (h : KeepsPins b t s m₀ m) (p : Access) {c : SchedulerCall}
    (hc : c.repins = false) (hb : c.binds = true → b = true) :
    KeepsPins b t s m₀ (m.callScheduler t p c) := by
  have he : KeepsPins b t s m₀ (m.enroll t p.scheduler) := h.enroll _
  cases c with
  | yield => exact h.yield p
  | pause micros => exact h.pause p micros
  | pin | unpin | setPinDepth n => cases hc
  | bind w => exact (h.bind (fun _ => hb rfl) w).answer _ _
  | unbind => exact (h.unbind p).done
  | setPriority q => exact (h.setPriority p q).done
  | taskPriority id | taskIsInhibited id => exact (h.orSelf p.scheduler id).answer _ _
  | numWorkers | isHalted => exact h.back _
  | currentTask | currentWorker | pinDepth | isBound | priority | dump => exact he.back _

theorem callLogical (h : KeepsPins b t s m₀ m) (c : Nat) (l : LogicalCall) :
    KeepsPins b t s m₀ (m.callLogical t c l) := by
  cases l with
  | setHalted q => exact done (h.tail (.adjust m c _ fun _ => rfl))
  | migrate w => exact (h.migrate c w).answer _ _
  | sleep => exact (h.sleep c).done
  | workerOf id => exact (h.orSelf c id).answer _ _
  | setInhibited id q => exact done ((h.orSelf c id).tail (.adjust _ c _ fun _ => rfl))

theorem modifyDrain (h : KeepsPins b t s m₀ m) (d : Nat) (g : Drain → Drain) :
    KeepsPins b t s m₀ (m.modifyDrain d g) := h.still (.of_threads rfl rfl rfl)

theorem notify (h : KeepsPins b t s m₀ m) (d : Nat) : KeepsPins b t s m₀ (m.notify d) :=
  h.still (.notify ..)

theorem modifyEngine (h : KeepsPins b t s m₀ m) (e : Nat) {g : Engine → Engine}
    (hg : ∀ x, (g x).access = x.access ∧ (g x).skipWhenHalted = x.skipWhenHalted) :
    KeepsPins b t s m₀ (m.modifyEngine e g) :=
  h.still (.engine m t e hg)

theorem setQueue (h : KeepsPins b t s m₀ m) (e : Nat) (k : Kind) (q : Engine → List Callback) :
    KeepsPins b t s m₀ (m.modifyEngine e fun x => x.setQueue k (q x)) :=
  h.modifyEngine e fun _ => ⟨rfl, rfl⟩

theorem tables (h : KeepsPins b t s m₀ m) (slots : Table Slot) (task : Option Nat) :
    KeepsPins b t s m₀ { m with slots, bareTask := task } := h.still (.of_threads rfl rfl rfl)

theorem requestPass (h : KeepsPins b t s m₀ m) (d : Nat) : KeepsPins b t s m₀ (m.requestPass d) :=
  (h.modifyDrain d _).notify d

theorem enqueue (h : KeepsPins b t s m₀ m) (e : Nat) (k : Kind) (c : Callback) :
    KeepsPins b t s m₀ (m.enqueue t e k c) := by
  have hr : KeepsPins b t s m₀ (m.retain e) := h.modifyEngine e fun _ => ⟨rfl, rfl⟩
  unfold Machine.enqueue
  dsimp only
  split
  · exact ((hr.setQueue e k _).mark ..).requestPass _
  · exact ((h.setQueue e k _).mark ..).requestPass _

theorem startDrain (h : KeepsPins b t s m₀ m) (d : Nat) : KeepsPins b t s m₀ (m.startDrain t d) := by
  unfold Machine.startDrain
  split
  · exact h.fail _
  · exact (h.push rfl).done

theorem register (h : KeepsPins b t s m₀ m) (e : Nat) (k : Kind) (w : Nat) :
    KeepsPins b t s m₀ (m.register t e k w) := by
  have hr : KeepsPins b t s m₀ (m.setDomain e k (((m.engine e).domain k).register w).1) :=
    h.modifyEngine e fun _ => ⟨rfl, rfl⟩
  unfold Machine.register
  dsimp only
  split
  · exact h.fail _
  · split
    · exact (hr.log _).back _
    · exact hr.back _

theorem shutdown (h : KeepsPins b t s m₀ m) (ds : List Nat) (saved : Outcome) :
    KeepsPins b t s m₀ (m.shutdown t ds saved) := by
  cases ds with
  | nil => exact h.back _
  | cons d rest =>
    have hc : KeepsPins b t s m₀
        ((m.modifyDrain d fun x => { x with tickets := x.tickets.close }).notify d) :=
      (h.modifyDrain ..).notify d
    unfold Machine.shutdown
    dsimp only
    split
    · exact (hc.push rfl).done
    · exact (hc.push rfl).done.still (.join ..)

theorem releaseHandle (h : KeepsPins b t s m₀ m) (e : Nat) (o : Outcome) :
    KeepsPins b t s m₀ (m.releaseHandle t e o) := by
  have hn := h.modifyEngine e (g := fun x => { x with handles := (m.engine e).handles - 1 })
    fun _ => ⟨rfl, rfl⟩
  unfold Machine.releaseHandle
  dsimp only
  split
  · exact (hn.log _).shutdown _ o
  · exact hn.back o

theorem releaseTask (h : KeepsPins b t s m₀ m) (d : Nat) (o : Outcome) :
    KeepsPins b t s m₀ (m.releaseTask t d o) := by
  have hn := h.modifyDrain d fun x => { x with holders := (m.drain d).holders - 1 }
  unfold Machine.releaseTask
  dsimp only
  split
  · exact hn.shutdown _ o
  · exact hn.back o

theorem buildEngine {slot : Option Nat} {c : Config} {w : Nat} (h : KeepsPins b t s m₀ m)
    (hb : m.buildEngine t slot c = .ok (e, w, m')) : KeepsPins b t s m₀ m' := by
  unfold Machine.buildEngine at hb
  cases hn : c.workerCount (m.offered c) m.hostWorkers with
  | error g =>
    rw [hn] at hb
    cases hb
  | ok w' =>
    rw [hn] at hb
    simp only [Except.map, Except.ok.injEq, Prod.mk.injEq] at hb
    obtain ⟨-, -, rfl⟩ := hb
    have ha : KeepsPins b t s m₀ (m.accessFor c w').1 := by
      unfold Machine.accessFor
      split
      · exact h
      · exact h.tail (.addScheduler m w')
    exact (ha.still (.startEngine _ t slot c (m.accessFor c w').2)).log _

theorem build (h : KeepsPins b t s m₀ m) (slot : Nat) (c : Config) :
    KeepsPins b t s m₀ (m.build t slot c) := by
  have hs := h.tables (m.slots.modify slot id) m.bareTask
  unfold Machine.build
  dsimp only
  split
  · exact hs.refuse _
  · split
    · exact hs.refuse _
    · split
      · exact hs.back _
      · rename_i w m' hb
        exact ((hs.buildEngine hb).tables _ m'.bareTask).back _

theorem buildDefault (h : KeepsPins b t s m₀ m) (k : Kind) : KeepsPins b t s m₀ (m.buildDefault t k) := by
  unfold Machine.buildDefault
  split
  · exact h.back _
  · rename_i hb
    exact (h.buildEngine hb).releaseHandle _ _

theorem clone (h : KeepsPins b t s m₀ m) (held : Option Nat) (slot : Nat) :
    KeepsPins b t s m₀ (m.clone t held slot) := by
  unfold Machine.clone
  split
  · exact h.refuse _
  · rename_i e he
    have hr : KeepsPins b t s m₀ (m.retain e) := h.modifyEngine e fun _ => ⟨rfl, rfl⟩
    exact (hr.tables _ (m.retain e).bareTask).back _

theorem dropHandle (h : KeepsPins b t s m₀ m) (slot : Nat) : KeepsPins b t s m₀ (m.dropHandle t slot) := by
  unfold Machine.dropHandle
  split
  · exact h.refuse _
  · exact (h.tables _ m.bareTask).releaseHandle _ _

theorem callTask (h : KeepsPins b t s m₀ m) (c : TaskCall) : KeepsPins b t s m₀ (m.callTask t c) := by
  unfold Machine.callTask
  cases c with
  | spawn name passes =>
    dsimp only
    split
    · exact h.refuse _
    · exact ((h.still (.spawnDrain m t .bare name _)).tables m.slots _).done
  | enqueue =>
    cases m.bareTask with
    | none => exact h.refuse _
    | some d => exact (h.requestPass d).done
  | drain =>
    cases m.bareTask with
    | none => exact h.refuse _
    | some d => exact ((h.modifyDrain d _).push rfl).startDrain d
  | isWorker =>
    cases m.bareTask with
    | none => exact h.refuse _
    | some d => exact h.back _
  | drop =>
    cases m.bareTask with
    | none => exact h.refuse _
    | some d => exact (h.tables m.slots none).releaseTask d _

theorem withScheduler (h : KeepsPins b t s m₀ m) (c : Nat) (hm : KeepsPins b t s m₀ m') :
    KeepsPins b t s m₀ (m.withScheduler t c m') := by
  unfold Machine.withScheduler
  split
  · exact hm
  · exact h.refuse _

theorem resumeAwait (h : KeepsPins b t s m₀ m) (d ticket : Nat) :
    KeepsPins b t s m₀ (m.resumeAwait t d ticket) := by
  unfold Machine.resumeAwait
  split
  · exact h.done
  · exact (h.push rfl).still (.waitFor ..)

theorem resumeJoined (h : KeepsPins b t s m₀ m) (d : Nat) (ds : List Nat) (saved : Outcome) :
    KeepsPins b t s m₀ (m.resumeJoined t d ds saved) := by
  unfold Machine.resumeJoined
  dsimp only
  split
  · exact ((h.log _).push rfl).done
  · exact (h.push rfl).done

theorem runScripted (h : KeepsPins b t s m₀ m) (d i : Nat) (word : String) :
    KeepsPins b t s m₀ (m.runScripted t d i word) := by
  have hp : KeepsPins b t s m₀ (m.emit t (.pass i)) := h.emit _
  unfold Machine.runScripted
  dsimp only
  split
  · exact hp.park _
  · exact hp.fail _
  · exact hp.startDrain d
  · exact (hp.requestPass d).done
  · exact (hp.emit _).done
  · exact hp.done

end KeepsPins

end Machine

end GracePeriod
