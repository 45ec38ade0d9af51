import GracePeriod.Proofs.Depth
import GracePeriod.Proofs.Loops
import GracePeriod.Proofs.Shutdown

namespace GracePeriod

/-- The kind that a call is about. -/
def HandleCall.kind? : HandleCall → Option Kind
  | .register k _ | .isRegistered k _ | .activeReaders k _ | .readLock k | .readUnlock k
  | .readDepth k | .synchronize k | .barrier k | .currentEpoch k | .pending k | .deferDrop k ..
  | .deferContainer k .. => some k
  | .srcuLock _ | .srcuUnlock _ | .srcuDepth | .srcuSynchronize | .srcuBarrier => some .sleepable
  | .numWorkers => none

namespace Machine

def opSubject? (m : Machine) (held : Option Nat) : Op → Option (Nat × Kind)
  | .handle slot c => c.kind?.bind fun k => (m.resolve held slot).map (·, k)
  | .call slot _ k .. | .guard slot _ k .. => (m.resolve held slot).map (·, k)
  | _ => none

def frameSubject? (m : Machine) : Frame → Option (Nat × Kind)
  | .leave e k | .batch e k _ | .detached e k _ | .grace e k .. | .barrier e k
  | .barrierEnd e k => some (e, k)
  | .worker d _ => (m.drain d).work.domain?
  | _ => none

/-- The domain that the next step of a thread is about. -/
def subject? (m : Machine) (t : Nat) : Option (Nat × Kind) :=
  match (m.thread t).control with
  | .eval held op => m.opSubject? held op
  | .back _ => (m.thread t).stack.head?.bind m.frameSubject?

/-- What makes up a domain is as it was, except perhaps the tickets of its drain task: the epoch and
the records, the queue, and how deep threads are inside. -/
structure KeepsDomain (e : Nat) (k : Kind) (m m' : Machine) : Prop where
  domain : m'.domain e k = m.domain e k
  queue : (m'.engine e).queue k = (m.engine e).queue k
  depth : ∀ u, m'.readDepth u e k = m.readDepth u e k

variable {m m₀ m' : Machine} {t d e e' : Nat} {k k' : Kind}

theorem NestsUnique.of_eq (h : m.NestsUnique) (hn : ∀ u, m'.nests u = m.nests u) : m'.NestsUnique :=
  fun u => by rw [hn]; exact h u

namespace KeepsDomain

theorem refl (e : Nat) (k : Kind) (m : Machine) : KeepsDomain e k m m := ⟨rfl, rfl, fun _ => rfl⟩

theorem trans (h : KeepsDomain e k m₀ m) (h' : KeepsDomain e k m m') : KeepsDomain e k m₀ m' :=
  ⟨h'.domain.trans h.domain, h'.queue.trans h.queue, fun u => (h'.depth u).trans (h.depth u)⟩

theorem same (h : KeepsDomain e k m₀ m) (he : m'.engine e = m.engine e) (hn : ∀ u, m'.nests u = m.nests u) :
    KeepsDomain e k m₀ m' :=
  h.trans ⟨congrArg (Engine.domain · k) he, congrArg (Engine.queue · k) he,
    fun u => congrArg (Nests.depth · e k) (hn u)⟩

theorem thread (h : KeepsDomain e k m₀ m) {f : Thread → Thread} (hf : ∀ x, (f x).nests = x.nests) :
    KeepsDomain e k m₀ (m.modifyThread t f) :=
  h.same rfl fun u => part_modifyThread Thread.nests m t u hf

theorem back (h : KeepsDomain e k m₀ m) (o : Outcome) : KeepsDomain e k m₀ (m.back t o) :=
  h.thread fun _ => rfl

theorem done (h : KeepsDomain e k m₀ m) : KeepsDomain e k m₀ (m.done t) := h.back _

theorem fail (h : KeepsDomain e k m₀ m) (f : Fault) : KeepsDomain e k m₀ (m.fail t f) := h.back _

theorem refuse (h : KeepsDomain e k m₀ m) (r : Refusal) : KeepsDomain e k m₀ (m.refuse t r) := h.back _

theorem eval (h : KeepsDomain e k m₀ m) (held : Option Nat) (op : Op) :
    KeepsDomain e k m₀ (m.eval t held op) :=
  h.thread fun _ => rfl

theorem push (h : KeepsDomain e k m₀ m) (f : Frame) : KeepsDomain e k m₀ (m.push t f) := h.thread fun _ => rfl

theorem answer {α : Type} (h : KeepsDomain e k m₀ m) (f : α → Result) (r : Except Fault α) :
    KeepsDomain e k m₀ (m.answer t f r) := by
  cases r <;> exact h.back _

theorem emit (h : KeepsDomain e k m₀ m) (v : Event) : KeepsDomain e k m₀ (m.emit t v) :=
  h.same rfl fun _ => rfl

theorem log (h : KeepsDomain e k m₀ m) (l : Log) : KeepsDomain e k m₀ (m.log t l) := h.emit _

theorem mark (h : KeepsDomain e k m₀ m) (e' : Nat) (k' : Kind) (v : Mark) :
    KeepsDomain e k m₀ (m.mark t e' k' v) := h.emit _

theorem served (h : KeepsDomain e k m₀ m) (hs : Served m m') : KeepsDomain e k m₀ m' :=
  h.same (hs.engine e) hs.nests

theorem keepsEngines (h : KeepsDomain e k m₀ m) (ha : KeepsEngines m m') : KeepsDomain e k m₀ m' :=
  h.same (congrArg (Table.get · e) ha.engines) ha.nests

theorem batchMoves (h : KeepsDomain e k m₀ m) (ht : BatchMoves t m m') : KeepsDomain e k m₀ m' :=
  h.same (congrArg (Table.get · e) ht.tables.2.1) ht.nests

theorem notify (h : KeepsDomain e k m₀ m) (d : Nat) : KeepsDomain e k m₀ (m.notify d) :=
  h.same (by rw [notify_eq]; rfl) (part_notify Thread.nests (fun _ _ => rfl) m d)

theorem modifyDrain (h : KeepsDomain e k m₀ m) (d : Nat) (f : Drain → Drain) :
    KeepsDomain e k m₀ (m.modifyDrain d f) := h.same rfl fun _ => rfl

theorem modifyScheduler (h : KeepsDomain e k m₀ m) (s : Nat) (f : Scheduler → Scheduler) :
    KeepsDomain e k m₀ (m.modifyScheduler s f) := h.same rfl fun _ => rfl

theorem tables (h : KeepsDomain e k m₀ m) (slots : Table Slot) (keys : List (String × UInt32))
    (task : Option Nat) : KeepsDomain e k m₀ { m with slots, keys, bareTask := task } :=
  h.same rfl fun _ => rfl

theorem park (h : KeepsDomain e k m₀ m) (p : Park) : KeepsDomain e k m₀ (m.park t p) :=
  h.done.keepsEngines (.stop ..)

theorem modifyEngine (h : KeepsDomain e k m₀ m) (e' : Nat) {f : Engine → Engine}
    (hf : ∀ x, (f x).domain k = x.domain k ∧ (f x).queue k = x.queue k) :
    KeepsDomain e k m₀ (m.modifyEngine e' f) :=
  h.trans ⟨part_modifyEngine (Engine.domain · k) m e' e fun x => (hf x).1,
    part_modifyEngine (Engine.queue · k) m e' e fun x => (hf x).2, fun _ => rfl⟩

theorem retain (h : KeepsDomain e k m₀ m) (e' : Nat) : KeepsDomain e k m₀ (m.retain e') :=
  h.modifyEngine e' fun _ => ⟨rfl, rfl⟩

theorem setDomain (h : KeepsDomain e k m₀ m) (hne : ¬(e = e' ∧ k = k')) (x : Domain) :
    KeepsDomain e k m₀ (m.setDomain e' k' x) :=
  h.trans ⟨(domain_setDomain ..).trans (if_neg hne),
    part_modifyEngine (Engine.queue · k) m e' e fun _ => rfl, fun _ => rfl⟩

theorem setQueue (h : KeepsDomain e k m₀ m) (hne : ¬(e = e' ∧ k = k')) (f : Engine → List Callback) :
    KeepsDomain e k m₀ (m.modifyEngine e' fun x => x.setQueue k' (f x)) := by
  refine h.trans ⟨part_modifyEngine (Engine.domain · k) m e' e fun _ => rfl, ?_, fun _ => rfl⟩
  rw [engine_modifyEngine]
  split
  · rename_i he
    exact (PerKind.get_set ..).trans (if_neg fun hk => hne ⟨he, hk⟩)
  · rfl

theorem openSection (h : KeepsDomain e k m₀ m) (hu : (m.nests t).Unique) (hne : ¬(e = e' ∧ k = k')) :
    KeepsDomain e k m₀ (m.openSection t e' k').1 := by
  refine h.trans ⟨(openSection_ne hu hne).domain, ?_, fun u =>
    Elsewhere.openSection hu u e k fun hc => hne hc.2⟩
  obtain ⟨ds, hd⟩ := (Inside.openSection m t e' k').engine e
  rw [hd]
  rfl

theorem closeSection (h : KeepsDomain e k m₀ m) (hu : (m.nests t).Unique) (hne : ¬(e = e' ∧ k = k')) :
    KeepsDomain e k m₀ (m.closeSection t e' k').1 := by
  refine h.trans ⟨(closeSection_ne hu hne).domain, ?_, fun u =>
    Elsewhere.closeSection hu u e k fun hc => hne hc.2⟩
  obtain ⟨ds, hd⟩ := (Inside.closeSection m t e' k').engine e
  rw [hd]
  rfl

theorem readLock (h : KeepsDomain e k m₀ m) (hn : m.NestsUnique) (hne : ¬(e = e' ∧ k = k')) :
    KeepsDomain e k m₀ (m.readLock t e' k').1 := by
  unfold Machine.readLock
  split
  · exact h.mark ..
  · exact (h.served (.pin ..)).openSection (unique_pin hn ..) hne

theorem readUnlock (h : KeepsDomain e k m₀ m) (hn : m.NestsUnique) (hne : ¬(e = e' ∧ k = k')) :
    KeepsDomain e k m₀ (m.readUnlock t e' k').1 := by
  have hc := h.closeSection (hn t) hne
  unfold Machine.readUnlock
  split
  · exact h.mark ..
  · dsimp only
    split
    · exact hc
    · exact hc.served (.unpin ..)

theorem startSynchronize (h : KeepsDomain e k m₀ m) (hne : ¬(e = e' ∧ k = k')) :
    KeepsDomain e k m₀ (m.startSynchronize t e' k') := by
  unfold Machine.startSynchronize
  split
  · exact (h.mark ..).done
  · split
    · exact h.fail _
    · refine done (push (log (mark (setDomain ?_ hne _) ..) _) _)
      exact ((((h.mark ..).served (.enroll ..)).served (.unbind ..)).served (.setPinDepth ..)).served
        (.bind ..)

theorem requestPass (h : KeepsDomain e k m₀ m) (d : Nat) : KeepsDomain e k m₀ (m.requestPass d) :=
  (h.modifyDrain d _).notify d

theorem enqueue (h : KeepsDomain e k m₀ m) (hne : ¬(e = e' ∧ k = k')) (c : Callback) :
    KeepsDomain e k m₀ (m.enqueue t e' k' c) := by
  unfold Machine.enqueue
  dsimp only
  split
  · exact (((h.retain e').setQueue hne _).mark ..).requestPass _
  · exact ((h.setQueue hne _).mark ..).requestPass _

theorem startDrain (h : KeepsDomain e k m₀ m) (d : Nat) : KeepsDomain e k m₀ (m.startDrain t d) := by
  unfold Machine.startDrain
  split
  · exact h.fail _
  · exact (h.push _).done

theorem startBarrier (h : KeepsDomain e k m₀ m) (hne : ¬(e = e' ∧ k = k')) :
    KeepsDomain e k m₀ (m.startBarrier t e' k') := by
  unfold Machine.startBarrier
  split
  · exact h.fail _
  · exact ((h.mark ..).push _).startSynchronize hne

theorem register (h : KeepsDomain e k m₀ m) (hne : ¬(e = e' ∧ k = k')) (w : Nat) :
    KeepsDomain e k m₀ (m.register t e' k' w) := by
  have hr := h.setDomain hne (((m.engine e').domain k').register w).1
  unfold Machine.register
  dsimp only
  split
  · exact h.fail _
  · split
    · exact (hr.log _).back _
    · exact hr.back _

theorem srcuLock (h : KeepsDomain e k m₀ m) (hn : m.NestsUnique) (hne : ¬(e = e' ∧ k = .sleepable))
    (key : String) : KeepsDomain e k m₀ (m.srcuLock t e' key) := by
  have hl := h.readLock (t := t) hn hne
  unfold Machine.srcuLock
  dsimp only
  split
  · exact hl.fail _
  · exact (hl.tables ..).back _

theorem srcuUnlock (h : KeepsDomain e k m₀ m) (hn : m.NestsUnique) (hne : ¬(e = e' ∧ k = .sleepable))
    (key : String) : KeepsDomain e k m₀ (m.srcuUnlock t e' key) := by
  unfold Machine.srcuUnlock
  split
  · exact h.back _
  · split
    · exact (h.readUnlock hn hne).answer _ _
    · exact h.fail _

theorem runGuardBody (h : KeepsDomain e k m₀ m) (held : Option Nat) (k' : Kind) (done : List Result)
    (ops : List Op) : KeepsDomain e k m₀ (m.runGuardBody t held k' done ops) := by
  cases ops with
  | nil => exact h.back _
  | cons op rest => exact (h.push _).eval held op

theorem startGuard (h : KeepsDomain e k m₀ m) (hn : m.NestsUnique) (hne : ¬(e = e' ∧ k = k'))
    (held : Option Nat) (body : List Op) : KeepsDomain e k m₀ (m.startGuard t e' held k' body) := by
  have hl := h.readLock (t := t) hn hne
  unfold Machine.startGuard
  dsimp only
  split
  · exact hl.fail _
  · exact (hl.push _).runGuardBody ..

theorem callHandle (h : KeepsDomain e k m₀ m) (hn : m.NestsUnique) (c : HandleCall)
    (hc : ∀ k', c.kind? = some k' → ¬(e = e' ∧ k = k')) : KeepsDomain e k m₀ (m.callHandle t e' c) := by
  cases c with
  | register k' w => exact h.register (hc _ rfl) w
  | readLock k' => exact (h.readLock hn (hc _ rfl)).answer _ _
  | readUnlock k' => exact (h.readUnlock hn (hc _ rfl)).answer _ _
  | synchronize k' => exact h.startSynchronize (hc _ rfl)
  | barrier k' => exact h.startBarrier (hc _ rfl)
  | deferDrop k' id size => exact (h.enqueue (hc _ rfl) _).done
  | deferContainer k' id size offset =>
    unfold Machine.callHandle
    dsimp only
    split
    · exact h.fail _
    · exact (h.enqueue (hc _ rfl) _).done
  | srcuLock key => exact h.srcuLock hn (hc _ rfl) key
  | srcuUnlock key => exact h.srcuUnlock hn (hc _ rfl) key
  | srcuSynchronize => exact h.startSynchronize (hc _ rfl)
  | srcuBarrier => exact h.startBarrier (hc _ rfl)
  | isRegistered k' w | activeReaders k' w => exact h.answer _ _
  | readDepth k' | currentEpoch k' | pending k' | numWorkers | srcuDepth => exact h.back _

theorem yield (h : KeepsDomain e k m₀ m) (p : Access) : KeepsDomain e k m₀ (m.yield t p) := by
  unfold Machine.yield
  split
  · exact (h.emit _).park _
  · exact h.done

theorem pause (h : KeepsDomain e k m₀ m) (p : Access) (micros : Nat) :
    KeepsDomain e k m₀ (m.pause t p micros) := by
  unfold Machine.pause
  split
  · exact (((h.emit _).served (.changeTask ..)).push _).park _
  · exact (h.served (.sleep ..)).done

theorem callScheduler (h : KeepsDomain e k m₀ m) (p : Access) (c : SchedulerCall) :
    KeepsDomain e k m₀ (m.callScheduler t p c) := by
  have he : KeepsDomain e k m₀ (m.enroll t p.scheduler) := h.served (.enroll ..)
  cases c with
  | yield => exact h.yield p
  | pause micros => exact h.pause p micros
  | pin => exact (h.served (.pin m t p)).done
  | unpin => exact (h.served (.unpin m t p)).answer _ _
  | setPinDepth n => exact (h.served (.setPinDepth m t p n)).done
  | bind w => exact (h.served (.bind m t p w)).answer _ _
  | unbind => exact (h.served (.unbind m t p)).done
  | setPriority q => exact (h.served (.setPriority m t p q)).done
  | taskPriority id | taskIsInhibited id =>
    exact (h.served (StepEffect.served_orSelf m t p.scheduler id)).answer _ _
  | numWorkers | isHalted => exact h.back _
  | currentTask | currentWorker | pinDepth | isBound | priority | dump => exact he.back _

theorem callLogical (h : KeepsDomain e k m₀ m) (s : Nat) (c : LogicalCall) :
    KeepsDomain e k m₀ (m.callLogical t s c) := by
  have he : KeepsDomain e k m₀ (m.enroll t s) := h.served (.enroll ..)
  cases c with
  | setHalted b => exact (h.modifyScheduler ..).done
  | migrate w =>
    refine answer ?_ _ _
    unfold Machine.migrate
    split
    · exact h
    · dsimp only
      split
      · exact he.modifyScheduler ..
      · exact he
  | sleep => exact (h.served (.sleep ..)).done
  | workerOf id => exact (h.served (StepEffect.served_orSelf m t s id)).answer _ _
  | setInhibited id b =>
    exact ((h.served (StepEffect.served_orSelf m t s id)).modifyScheduler ..).done

theorem shutdown (h : KeepsDomain e k m₀ m) (ds : List Nat) (saved : Outcome) :
    KeepsDomain e k m₀ (m.shutdown t ds saved) := by
  cases ds with
  | nil => exact h.back _
  | cons d rest =>
    have hc :
        KeepsDomain e k m₀ ((m.modifyDrain d fun x => { x with tickets := x.tickets.close }).notify d) :=
      (h.modifyDrain ..).notify d
    unfold Machine.shutdown
    dsimp only
    split
    · exact (hc.push _).done
    · exact (hc.push _).done.keepsEngines (.join ..)

theorem releaseHandle (h : KeepsDomain e k m₀ m) (e' : Nat) (o : Outcome) :
    KeepsDomain e k m₀ (m.releaseHandle t e' o) := by
  have hn := h.modifyEngine e' (f := fun x => { x with handles := (m.engine e').handles - 1 })
    fun _ => ⟨rfl, rfl⟩
  unfold Machine.releaseHandle
  dsimp only
  split
  · exact (hn.log _).shutdown _ o
  · exact hn.back o

theorem releaseTask (h : KeepsDomain e k m₀ m) (d : Nat) (o : Outcome) :
    KeepsDomain e k m₀ (m.releaseTask t d o) := by
  have hn := h.modifyDrain d fun x => { x with holders := (m.drain d).holders - 1 }
  unfold Machine.releaseTask
  dsimp only
  split
  · exact hn.shutdown _ o
  · exact hn.back o

theorem startEngine (h : KeepsDomain e k m₀ m) (he : e < m.engines.size) (slot : Option Nat) (c : Config)
    (p : Access) : KeepsDomain e k m₀ (m.startEngine slot c p).2 :=
  h.same ((Table.get_push ..).trans (if_neg (Nat.ne_of_lt he)))
    (part_startEngine Thread.nests (fun _ _ _ => rfl) m slot c p)

theorem buildEngine {slot : Option Nat} {c : Config} {n : Nat} (h : KeepsDomain e k m₀ m)
    (he : e < m.engines.size) (hb : m.buildEngine t slot c = .ok (e', n, m')) : KeepsDomain e k m₀ m' := by
  unfold Machine.buildEngine at hb
  cases hn : c.workerCount (m.offered c) m.hostWorkers with
  | error f =>
    rw [hn] at hb
    cases hb
  | ok n' =>
    rw [hn] at hb
    simp only [Except.map, Except.ok.injEq, Prod.mk.injEq] at hb
    obtain ⟨-, -, rfl⟩ := hb
    have ha : (m.accessFor c n').1.engines = m.engines ∧ KeepsDomain e k m₀ (m.accessFor c n').1 := by
      unfold Machine.accessFor
      split <;> exact ⟨rfl, h.same rfl fun _ => rfl⟩
    exact (ha.2.startEngine (ha.1 ▸ he) slot c (m.accessFor c n').2).log _

theorem build (h : KeepsDomain e k m₀ m) (he : e < m.engines.size) (slot : Nat) (c : Config) :
    KeepsDomain e k m₀ (m.build t slot c) := by
  have hs := h.tables (m.slots.modify slot id) m.keys m.bareTask
  unfold Machine.build
  dsimp only
  split
  · exact hs.refuse _
  · split
    · exact hs.refuse _
    · split
      · exact hs.back _
      · rename_i n m' hb
        exact ((hs.buildEngine he hb).tables ..).back _

theorem buildDefault (h : KeepsDomain e k m₀ m) (he : e < m.engines.size) (k' : Kind) :
    KeepsDomain e k m₀ (m.buildDefault t k') := by
  unfold Machine.buildDefault
  split
  · exact h.back _
  · rename_i hb
    exact (h.buildEngine he hb).releaseHandle _ _

theorem clone (h : KeepsDomain e k m₀ m) (held : Option Nat) (slot : Nat) :
    KeepsDomain e k m₀ (m.clone t held slot) := by
  unfold Machine.clone
  split
  · exact h.refuse _
  · exact ((h.retain _).tables ..).back _

theorem dropHandle (h : KeepsDomain e k m₀ m) (slot : Nat) : KeepsDomain e k m₀ (m.dropHandle t slot) := by
  unfold Machine.dropHandle
  split
  · exact h.refuse _
  · exact (h.tables ..).releaseHandle _ _

theorem callTask (h : KeepsDomain e k m₀ m) (c : TaskCall) : KeepsDomain e k m₀ (m.callTask t c) := by
  unfold Machine.callTask
  cases c with
  | spawn name passes =>
    dsimp only
    split
    · exact h.refuse _
    · have hs : KeepsDomain e k m₀ (m.spawnDrain .bare name { work := .scripted passes, holders := 1 }).2 :=
        h.same rfl (part_spawnDrain Thread.nests m _ _ _ rfl)
      exact (hs.tables ..).done
  | enqueue =>
    cases m.bareTask with
    | none => exact h.refuse _
    | some d => exact (h.requestPass d).done
  | drain =>
    cases m.bareTask with
    | none => exact h.refuse _
    | some d => exact ((h.modifyDrain ..).push _).startDrain d
  | isWorker =>
    cases m.bareTask with
    | none => exact h.refuse _
    | some d => exact h.back _
  | drop =>
    cases m.bareTask with
    | none => exact h.refuse _
    | some d => exact (h.tables m.slots m.keys none).releaseTask d _

theorem withScheduler (h : KeepsDomain e k m₀ m) (s : Nat) (hm : KeepsDomain e k m₀ m') :
    KeepsDomain e k m₀ (m.withScheduler t s m') := by
  unfold Machine.withScheduler
  split
  · exact hm
  · exact h.refuse _

theorem withEngine (h : KeepsDomain e k m₀ m) (hn : m.NestsUnique) (held : Option Nat) (slot : Nat)
    {f : Machine → Nat → Machine} (hf : ∀ n e', m.resolve held slot = some e' → n.NestsUnique →
      KeepsDomain e k m₀ n → KeepsDomain e k m₀ (f n e')) :
        KeepsDomain e k m₀ (m.withEngine t held slot f) := by
  unfold Machine.withEngine
  split
  · exact h.refuse _
  · rename_i e' he'
    exact hf _ e' he' (hn.of_eq fun u => part_modifyThread Thread.nests (m.retain e') t u fun _ => rfl)
      ((h.retain e').push _)

theorem startOp (h : KeepsDomain e k m₀ m) (hn : m.NestsUnique) (he : e < m.engines.size)
    (held : Option Nat) {op : Op} (hs : m.opSubject? held op ≠ some (e, k)) :
    KeepsDomain e k m₀ (m.startOp t held op) := by
  cases op with
  | build slot c => exact h.build he slot c
  | buildDefault k' => exact h.buildDefault he k'
  | clone slot => exact h.clone held slot
  | dropHandle slot => exact h.dropHandle slot
  | handle slot c =>
    refine h.withEngine hn held slot (f := fun m e => m.callHandle t e c)
      fun n e' he' hn' h' => h'.callHandle hn' c fun k' hk hc => hs ?_
    obtain ⟨rfl, rfl⟩ := hc
    rw [opSubject?, hk, he']
    rfl
  | call slot srcu k' id hold body =>
    refine h.withEngine hn held slot (f := fun m e => (m.enqueue t e k' (.call id hold body)).done t)
      fun n e' he' hn' h' => (h'.enqueue (fun hc => hs ?_) _).done
    obtain ⟨rfl, rfl⟩ := hc
    rw [opSubject?, he']
    rfl
  | guard slot srcu k' caught body =>
    refine h.withEngine hn held slot (f := fun m e => m.startGuard t e held k' body)
      fun n e' he' hn' h' => h'.startGuard hn' (fun hc => hs ?_) held body
    obtain ⟨rfl, rfl⟩ := hc
    rw [opSubject?, he']
    rfl
  | engineScheduler slot c =>
    exact h.withEngine hn held slot (f := fun m e => m.callScheduler t (m.engine e).access c)
      fun n e' _ _ h' => h'.callScheduler (n.engine e').access c
  | scheduler s c => exact h.withScheduler s (h.callScheduler _ c)
  | logical s c => exact h.withScheduler s (h.callLogical s c)
  | task c => exact h.callTask c
  | panic p | note text | threadName | unknown name => exact h.back _
  | gate => exact h.park _

theorem start (h : KeepsDomain e k m₀ m) (hn : m.NestsUnique) (he : e < m.engines.size)
    (held : Option Nat) {op : Op} (hs : m.opSubject? held op ≠ some (e, k)) :
    KeepsDomain e k m₀ (m.start t held op) := by
  unfold Machine.start
  split
  · refine (h.push .attempt).startOp ?_ he held hs
    exact hn.of_eq fun u => part_modifyThread Thread.nests m t u fun _ => rfl
  · exact h.startOp hn he held hs

theorem abortSynchronize (h : KeepsDomain e k m₀ m) (e' : Nat) (k' : Kind) (c : Snapshot) (p : Payload) :
    KeepsDomain e k m₀ (m.abortSynchronize t e' k' c p) := ((h.served (.restore ..)).mark ..).back _

theorem locateBlocker (h : KeepsDomain e k m₀ m) (e' : Nat) (k' : Kind) (c : Snapshot) (target : UInt32) :
    KeepsDomain e k m₀ (m.locateBlocker t e' k' c target) := by
  unfold Machine.locateBlocker
  dsimp only
  split
  · exact (((h.log _).served (.restore ..)).mark ..).done
  · split
    · split
      · exact h.abortSynchronize ..
      · split
        · exact ((h.push _).log _).pause ..
        · exact ((h.push _).served (.setPriority ..)).yield _
    · have hb := ((h.log (t := t) (.graceMoving k' ‹_›)).served
        (.setPriority _ t (m.engine e').access .highest)).served (.bind _ t (m.engine e').access ‹_›)
      split
      · exact hb.abortSynchronize ..
      · exact (hb.push _).done

theorem resumeAwait (h : KeepsDomain e k m₀ m) (d ticket : Nat) :
    KeepsDomain e k m₀ (m.resumeAwait t d ticket) := by
  unfold Machine.resumeAwait
  split
  · exact h.done
  · exact (h.push _).keepsEngines (.waitFor ..)

theorem resumeJoined (h : KeepsDomain e k m₀ m) (d : Nat) (ds : List Nat) (saved : Outcome) :
    KeepsDomain e k m₀ (m.resumeJoined t d ds saved) := by
  unfold Machine.resumeJoined
  dsimp only
  split
  · exact ((h.log _).push _).done
  · exact (h.push _).done

theorem runScripted (h : KeepsDomain e k m₀ m) (d i : Nat) (word : String) :
    KeepsDomain e k m₀ (m.runScripted t d i word) := by
  have hp : KeepsDomain e k m₀ (m.emit t (.pass i)) := h.emit _
  unfold Machine.runScripted
  dsimp only
  split
  · exact hp.park _
  · exact hp.fail _
  · exact hp.startDrain d
  · exact (hp.requestPass d).done
  · exact (hp.emit _).done
  · exact hp.done

theorem runCallbacks (h : KeepsDomain e k m₀ m) (hne : ¬(e = e' ∧ k = k')) :
    KeepsDomain e k m₀ (m.runCallbacks t e' k') := by
  unfold Machine.runCallbacks
  split
  · exact h.done
  · exact ((h.setQueue hne _).push _).startSynchronize hne

theorem startPass (h : KeepsDomain e k m₀ m) (hs : (m.drain d).work.domain? ≠ some (e, k)) :
    KeepsDomain e k m₀ (m.startPass t d) := by
  have hp := h.modifyDrain d fun x => { x with passes := (m.drain d).passes + 1 }
  cases hw : (m.drain d).work with
  | callbacks e' k' =>
    rw [startPass_callbacks t hw]
    refine hp.runCallbacks fun hc => hs ?_
    rw [hw, hc.1, hc.2]
    rfl
  | scripted words =>
    rw [startPass_scripted t hw]
    exact hp.runScripted ..

theorem workerLoop (h : KeepsDomain e k m₀ m) (hs : (m.drain d).work.domain? ≠ some (e, k)) :
    KeepsDomain e k m₀ (m.workerLoop t d) := by
  unfold Machine.workerLoop
  split
  · exact h.keepsEngines (.endThread ..)
  · exact (h.push _).keepsEngines (.waitFor ..)
  · exact (h.push _).startPass hs

theorem resumeWorker (h : KeepsDomain e k m₀ m) (hs : (m.drain d).work.domain? ≠ some (e, k))
    (ticket : Option Nat) (o : Outcome) : KeepsDomain e k m₀ (m.resumeWorker t d ticket o) := by
  cases o with
  | error p => exact h.keepsEngines (.endThread ..)
  | ok r =>
    cases ticket with
    | none => exact h.workerLoop hs
    | some n =>
      refine ((h.modifyDrain d fun x => { x with tickets := x.tickets.complete n }).notify d).workerLoop ?_
      rw [part_drain_notify Drain.work (fun _ _ => rfl), part_modifyDrain Drain.work m d d
        (f := fun x => { x with tickets := x.tickets.complete n }) fun _ => rfl]
      exact hs

theorem resume (h : KeepsDomain e k m₀ m) (hn : m.NestsUnique) (o : Outcome) {f : Frame}
    (hs : m.frameSubject? f ≠ some (e, k)) : KeepsDomain e k m₀ (m.resume t o f) := by
  cases f with
  | attempt => cases o <;> exact h.back _
  | release e' => exact h.releaseHandle e' o
  | releaseTask d => exact h.releaseTask d o
  | leave e' k' =>
    have hne : ¬(e = e' ∧ k = k') := fun hc => hs (by rw [hc.1, hc.2]; rfl)
    have hu := h.readUnlock (t := t) hn hne
    unfold Machine.resume
    dsimp only
    split
    · exact hu.fail _
    · exact hu.back _
  | guardBody held k' done rest =>
    cases o with
    | error p => exact h.back _
    | ok r => exact h.runGuardBody ..
  | callbackBody held name rest =>
    cases o with
    | error p => exact h.back _
    | ok r => exact (h.emit _).batchMoves (.runCallbackBody .refl held rest)
  | batch e' k' rest =>
    cases o with
    | error p => exact ((h.log _).mark ..).batchMoves (.runBatch ..)
    | ok r => exact (h.mark ..).batchMoves (.runBatch ..)
  | detached e' k' batch =>
    cases o with
    | error p => exact h.batchMoves (.discardBatch ..)
    | ok r => exact (h.log _).batchMoves (.runBatch ..)
  | grace e' k' c target =>
    cases o with
    | error p => exact h.abortSynchronize ..
    | ok r => exact h.locateBlocker ..
  | barrier e' k' =>
    cases o with
    | error p => exact h.back _
    | ok r => exact (h.push _).startDrain _
  | barrierEnd e' k' =>
    cases o with
    | error p => exact h.back _
    | ok r => exact (h.mark ..).back _
  | await d ticket =>
    cases o with
    | error p => exact h.back _
    | ok r => exact h.resumeAwait d ticket
  | wake s id => exact (h.modifyScheduler ..).back _
  | worker d ticket => exact h.resumeWorker hs ticket o
  | shutdown drains saved => exact h.shutdown drains saved
  | joined d drains saved => exact h.resumeJoined d drains saved

/-- A step that is about another domain, or about none. -/
theorem advance (hn : m.NestsUnique) (he : e < m.engines.size) (hs : m.subject? t ≠ some (e, k)) :
    KeepsDomain e k m (m.advance t) := by
  unfold Machine.advance
  dsimp only
  rw [subject?] at hs
  cases hc : (m.thread t).control with
  | eval held op =>
    rw [hc] at hs
    exact (refl e k m).start hn he held hs
  | back o =>
    rw [hc] at hs
    cases hst : (m.thread t).stack with
    | nil => exact ((refl e k m).emit _).keepsEngines (.stop ..)
    | cons f rest =>
      rw [hst] at hs
      have hpop := (refl e k m).thread (t := t) (f := fun x => { x with stack := rest }) fun _ => rfl
      refine hpop.resume ?_ o hs
      exact hn.of_eq fun u => part_modifyThread Thread.nests m t u fun _ => rfl

end KeepsDomain

theorem hands_eq (hr : Rooted m) (hd : m.Serves d e k) {held : Option Nat} {slot : Nat}
    (h : m.hands held slot k' d = true) : (m.resolve held slot).map (·, k') = some (e, k) := by
  obtain ⟨e', he', hde⟩ := (Option.any_eq_true ..).1 h
  obtain rfl := of_decide_eq_true hde
  have hwork : Work.callbacks e' k' = .callbacks e k :=
    (hr.serves e' k' (known_of_resolve he')).symm.trans hd
  cases hwork
  rw [he']
  rfl

theorem enqueues_eq_false (hr : Rooted m) (hd : m.Serves d e k) {held : Option Nat} {op : Op}
    (hs : m.opSubject? held op ≠ some (e, k)) : m.enqueues held d op = false := by
  refine Bool.eq_false_iff.2 fun h => ?_
  cases op with
  | handle slot c =>
    cases c with
    | deferDrop k' id size => exact hs (hands_eq hr hd h)
    | deferContainer k' id size offset => exact hs (hands_eq hr hd (Bool.and_eq_true_iff.1 h).2)
    | _ => cases h
  | call slot srcu k' id hold body => exact hs (hands_eq hr hd h)
  | task c =>
    cases c with
    | enqueue =>
      have hbare := (hr.bare d (of_decide_eq_true h)).2
      rw [hd] at hbare
      cases hbare
    | _ => cases h
  | _ => cases h

theorem advance_tally (hr : Rooted m) (hlt : t < m.threads.size) (hd : m.Serves d e k)
    (hs : m.subject? t ≠ some (e, k)) : (m.advance t).tally d = m.tally d := by
  unfold advance
  dsimp only
  rw [subject?] at hs
  cases hc : (m.thread t).control with
  | eval held op =>
    rw [hc] at hs
    have h := (start_asks m t held op).sums d
    rw [enqueues_eq_false hr hd hs] at h
    exact h
  | back o =>
    rw [hc] at hs
    cases hst : (m.thread t).stack with
    | nil => rfl
    | cons f rest =>
      rw [hst] at hs
      let n := m.modifyThread t fun x => { x with stack := rest }
      by_cases hf : f.isLoop = true
      · cases f with
        | worker d' ticket =>
          have hne : d ≠ d' := by
            rintro rfl
            refine hs ?_
            show (m.drain d).work.domain? = some (e, k)
            rw [hd]
            rfl
          have hnlt : t < n.threads.size := Nat.lt_of_lt_of_le hlt (Table.size_le_modify ..)
          cases resumeWorker_loopStep n hnlt d' ticket o with
          | dies p ho hs hm => exact hm.same d
          | rests r ho hr hs hm | serves r ho hr gs hg hs hm => exact (hm d).trans (if_neg hne)
        | _ => cases hf
      · refine (KeepsCounts.resume n t o fun d' i hw => hf ?_).same d
        rw [hw]
        rfl

/-- A domain with drain task `d` is as it was, tickets and all. -/
structure Untouched (d e : Nat) (k : Kind) (m m' : Machine) : Prop extends KeepsDomain e k m m' where
  serves : m'.Serves d e k
  tickets : m'.tally d = m.tally d

theorem Reachable.untouched (h : Reachable m) (hb : m.BuildsIdle) (ht : m.turn = some t)
    (hd : m.Serves d e k) (hs : m.subject? t ≠ some (e, k)) : Untouched d e k m (m.advance t) where
  toKeepsDomain := .advance h.visited.nestsUnique (h.visited.drainsAssigned.engine d e k hd) hs
  serves := ((advance_changes hb ht).kept.same d hd.lt_size).1.trans hd
  tickets := by
    refine advance_tally h.rooted (lt_size_of_isLive ?_) hd hs
    rw [isLive, (h.visited.orderly.turn t ht).1]

end Machine

end GracePeriod
