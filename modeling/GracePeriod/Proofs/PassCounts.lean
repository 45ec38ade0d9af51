import GracePeriod.Proofs.Wakeup

namespace GracePeriod.Machine

variable {m m' m'' : Machine} {t d e : Nat} {k : Kind}

/-- How often passes have been requested, up to which ticket they have been completed, and how many
have been started. -/
def tally (m : Machine) (d : Nat) : Nat × Nat × Nat :=
  ((m.drain d).tickets.requested, (m.drain d).tickets.completed, (m.drain d).passes)

structure KeepsCounts (m m' : Machine) : Prop where
  same : ∀ d, m'.tally d = m.tally d

/-- Drain tasks `d` where `a d` holds are asked for one pass more, and else all counts stay. -/
structure Asks (a : Nat → Bool) (m m' : Machine) : Prop where
  sums : ∀ d, m'.tally d = ((m.tally d).1 + (a d).toNat, (m.tally d).2)

theorem tally_modifyDrain (m : Machine) (d' d : Nat) (f : Drain → Drain) :
    (m.modifyDrain d' f).tally d = if d = d' then
      ((f (m.drain d)).tickets.requested, (f (m.drain d)).tickets.completed, (f (m.drain d)).passes)
      else m.tally d := by
  rw [tally, drain_modifyDrain]
  split <;> rfl

namespace KeepsCounts

theorem refl (m : Machine) : KeepsCounts m m := ⟨fun _ => rfl⟩

theorem trans (h : KeepsCounts m m') (h' : KeepsCounts m' m'') : KeepsCounts m m'' :=
  ⟨fun d => (h'.same d).trans (h.same d)⟩

theorem of_drains (h : m'.drains = m.drains) : KeepsCounts m m' :=
  ⟨fun d => by rw [tally, tally, drain, h, drain]⟩

theorem head (h : KeepsCounts m' m'') (hd : m'.drains = m.drains) : KeepsCounts m m'' :=
  (of_drains hd).trans h

theorem tail (h : KeepsCounts m m') (hd : m''.drains = m'.drains) : KeepsCounts m m'' :=
  h.trans (of_drains hd)

theorem keepsStacks (h : KeepsStacks t m m') : KeepsCounts m m' := of_drains h.drains

theorem served (h : Served m m') : KeepsCounts m m' :=
  keepsStacks (t := 0) (KeepsNests.served h).toKeepsStacks

theorem batchMoves (h : BatchMoves t m m') : KeepsCounts m m' := of_drains h.tables.1

theorem modifyDrain (m : Machine) (d : Nat) {f : Drain → Drain}
    (hf : ∀ x, (f x).tickets.requested = x.tickets.requested ∧
      (f x).tickets.completed = x.tickets.completed ∧ (f x).passes = x.passes) :
    KeepsCounts m (m.modifyDrain d f) := by
  refine ⟨fun d' => ?_⟩
  rw [tally_modifyDrain]
  split
  · obtain ⟨hr, hc, hp⟩ := hf (m.drain d')
    rw [hr, hc, hp, tally]
  · rfl

theorem notify (m : Machine) (d : Nat) : KeepsCounts m (m.notify d) := by
  rw [notify_eq]
  exact (modifyDrain m d (f := fun x => { x with waiters := [] }) fun _ => ⟨rfl, rfl, rfl⟩).trans
    (of_drains rfl)

theorem spawnDrain (m : Machine) (name : ThreadName) (systemName : String) {x : Drain}
    (hx : x.tickets = {} ∧ x.passes = 0) : KeepsCounts m (m.spawnDrain name systemName x).2 := by
  refine ⟨fun d => ?_⟩
  rw [tally, drain_spawnDrain]
  split
  · rename_i hd
    have hnew : m.drain d = default := Table.get_of_size_le (Nat.le_of_eq hd.symm)
    obtain ⟨ht, hp⟩ := hx
    rw [tally, hnew]
    dsimp only
    rw [ht, hp]
    rfl
  · rfl

theorem waitFor (m : Machine) (t d : Nat) : KeepsCounts m (m.waitFor t d) :=
  tail (modifyDrain m d (f := fun x => { x with waiters := x.waiters ++ [t] })
    fun _ => ⟨rfl, rfl, rfl⟩) rfl

theorem join (m : Machine) (t u : Nat) : KeepsCounts m (m.join t u) := of_drains (drains_join m t u)

theorem endThread (m : Machine) (t : Nat) (p : Option Payload) : KeepsCounts m (m.endThread t p) :=
  of_drains (drains_endThread m t p)

theorem answer {α : Type} (m : Machine) (t : Nat) (f : α → Result) (r : Except Fault α) :
    KeepsCounts m (m.answer t f r) := by
  cases r <;> exact of_drains rfl

theorem shutdown (m : Machine) (t : Nat) (ds : List Nat) (saved : Outcome) :
    KeepsCounts m (m.shutdown t ds saved) := by
  cases ds with
  | nil => exact of_drains rfl
  | cons d rest =>
    have hc : KeepsCounts m ((m.modifyDrain d fun x => { x with tickets := x.tickets.close }).notify d) :=
      (modifyDrain m d (f := fun x => { x with tickets := x.tickets.close })
        fun _ => ⟨rfl, rfl, rfl⟩).trans (notify ..)
    unfold Machine.shutdown
    dsimp only
    split
    · exact hc.tail rfl
    · exact hc.trans (head (join ..) rfl)

theorem releaseHandle (m : Machine) (t e : Nat) (o : Outcome) : KeepsCounts m (m.releaseHandle t e o) := by
  unfold Machine.releaseHandle
  dsimp only
  split
  · exact head (shutdown ..) rfl
  · exact of_drains rfl

theorem releaseTask (m : Machine) (t d : Nat) (o : Outcome) : KeepsCounts m (m.releaseTask t d o) := by
  have hh : KeepsCounts m (m.modifyDrain d fun x => { x with holders := (m.drain d).holders - 1 }) :=
    modifyDrain m d fun _ => ⟨rfl, rfl, rfl⟩
  unfold Machine.releaseTask
  dsimp only
  split
  · exact hh.trans (shutdown ..)
  · exact hh.tail rfl

theorem startEngine (m : Machine) (slot : Option Nat) (c : Config) (p : Access) :
    KeepsCounts m (m.startEngine slot c p).2 := by
  have h1 : KeepsCounts m (m.startFirst slot c) := spawnDrain m _ _ ⟨rfl, rfl⟩
  have h2 : KeepsCounts (m.startFirst slot c) (m.startSecond slot c) := spawnDrain _ _ _ ⟨rfl, rfl⟩
  rw [startEngine_eq]
  exact (h1.trans h2).tail rfl

theorem buildEngine {slot : Option Nat} {c : Config} {n : Nat}
    (h : m.buildEngine t slot c = .ok (e, n, m')) : KeepsCounts m m' := by
  unfold Machine.buildEngine at h
  cases hn : c.workerCount (m.offered c) m.hostWorkers with
  | error f =>
    rw [hn] at h
    cases h
  | ok n' =>
    rw [hn] at h
    simp only [Except.map, Except.ok.injEq, Prod.mk.injEq] at h
    obtain ⟨-, -, rfl⟩ := h
    have ha : KeepsCounts m (m.accessFor c n').1 := by
      unfold Machine.accessFor
      split <;> exact of_drains rfl
    exact ha.trans ((startEngine _ slot c (m.accessFor c n').2).tail rfl)

theorem build (m : Machine) (t slot : Nat) (c : Config) : KeepsCounts m (m.build t slot c) := by
  unfold Machine.build
  dsimp only
  split
  · exact of_drains rfl
  · split
    · exact of_drains rfl
    · split
      · exact of_drains rfl
      · rename_i hb
        exact head ((buildEngine hb).tail rfl) rfl

theorem buildDefault (m : Machine) (t : Nat) (k : Kind) : KeepsCounts m (m.buildDefault t k) := by
  unfold Machine.buildDefault
  split
  · exact of_drains rfl
  · rename_i hb
    exact (buildEngine hb).trans (releaseHandle ..)

theorem clone (m : Machine) (t : Nat) (held : Option Nat) (slot : Nat) :
    KeepsCounts m (m.clone t held slot) := by
  unfold Machine.clone
  split <;> exact of_drains rfl

theorem dropHandle (m : Machine) (t slot : Nat) : KeepsCounts m (m.dropHandle t slot) := by
  unfold Machine.dropHandle
  split
  · exact of_drains rfl
  · exact head (releaseHandle ..) rfl

theorem register (m : Machine) (t e : Nat) (k : Kind) (w : Nat) : KeepsCounts m (m.register t e k w) := by
  unfold Machine.register
  dsimp only
  split
  · exact of_drains rfl
  · split <;> exact of_drains rfl

theorem srcuLock (m : Machine) (t e : Nat) (key : String) : KeepsCounts m (m.srcuLock t e key) := by
  have hl : KeepsCounts m (m.readLock t e .sleepable).1 := keepsStacks (.readLock ..)
  unfold Machine.srcuLock
  dsimp only
  split
  · exact hl.tail rfl
  · exact hl.tail rfl

theorem srcuUnlock (m : Machine) (t e : Nat) (key : String) : KeepsCounts m (m.srcuUnlock t e key) := by
  unfold Machine.srcuUnlock
  split
  · exact of_drains rfl
  · split
    · exact (keepsStacks (.readUnlock ..)).trans (answer ..)
    · exact of_drains rfl

theorem startSynchronize (m : Machine) (t e : Nat) (k : Kind) :
    KeepsCounts m (m.startSynchronize t e k) := by
  unfold Machine.startSynchronize
  split
  · exact of_drains rfl
  · split
    · exact of_drains rfl
    · dsimp only
      generalize snapshot _ t _ = c
      -- What follows the calls of the scheduler, whatever they have done.
      have hend (n : Machine) (d : Domain) : (((((n.setDomain e k d).mark t e k (.advanced d.epoch)).log t
          (.graceStarted k d.epoch)).push t (.grace e k c d.epoch)).done t).drains = n.drains := rfl
      have he : KeepsCounts m ((m.mark t e k .synchronizeCalled).enroll t (m.engine e).access.scheduler) :=
        head (served (.enroll ..)) rfl
      have hs := ((Served.unbind ((m.mark t e k .synchronizeCalled).enroll t
        (m.engine e).access.scheduler) t (m.engine e).access).trans
        (.setPinDepth _ t (m.engine e).access 0)).trans (.bind _ t (m.engine e).access c.worker)
      exact (he.trans (served hs)).tail (hend ..)

theorem startDrain (m : Machine) (t d : Nat) : KeepsCounts m (m.startDrain t d) := by
  unfold Machine.startDrain
  split <;> exact of_drains rfl

theorem startBarrier (m : Machine) (t e : Nat) (k : Kind) : KeepsCounts m (m.startBarrier t e k) := by
  unfold Machine.startBarrier
  split
  · exact of_drains rfl
  · exact head (startSynchronize ..) rfl

theorem yield (m : Machine) (t : Nat) (p : Access) : KeepsCounts m (m.yield t p) := by
  unfold Machine.yield
  split <;> exact of_drains rfl

theorem pause (m : Machine) (t : Nat) (p : Access) (micros : Nat) : KeepsCounts m (m.pause t p micros) := by
  unfold Machine.pause
  split
  · have hs : KeepsCounts m ((m.emit t (.pause micros)).changeTask t p.scheduler
        fun x => { x with paused := true }) := head (served (.changeTask ..)) rfl
    exact hs.tail rfl
  · exact (served (.sleep m t p.scheduler)).tail rfl

theorem callScheduler (m : Machine) (t : Nat) (p : Access) (c : SchedulerCall) :
    KeepsCounts m (m.callScheduler t p c) := by
  have he : KeepsCounts m (m.enroll t p.scheduler) := served (.enroll ..)
  cases c with
  | yield => exact yield ..
  | pause micros => exact pause ..
  | pin => exact (served (.pin m t p)).tail rfl
  | unpin => exact (served (.unpin m t p)).trans (answer ..)
  | setPinDepth n => exact (served (.setPinDepth m t p n)).tail rfl
  | bind w => exact (served (.bind m t p w)).trans (answer ..)
  | unbind => exact (served (.unbind m t p)).tail rfl
  | setPriority q => exact (served (.setPriority m t p q)).tail rfl
  | taskPriority id | taskIsInhibited id =>
    exact (served (StepEffect.served_orSelf m t p.scheduler id)).trans (answer ..)
  | numWorkers | isHalted => exact of_drains rfl
  | _ => exact he.tail rfl

theorem callLogical (m : Machine) (t s : Nat) (c : LogicalCall) : KeepsCounts m (m.callLogical t s c) := by
  cases c with
  | setHalted b => exact of_drains rfl
  | migrate w =>
    refine KeepsCounts.trans ?_ (answer ..)
    unfold Machine.migrate
    split
    · exact refl m
    · dsimp only
      split
      · exact (served (.enroll ..)).tail rfl
      · exact served (.enroll ..)
  | sleep => exact (served (.sleep ..)).tail rfl
  | workerOf id => exact (served (StepEffect.served_orSelf m t s id)).trans (answer ..)
  | setInhibited id b => exact (served (StepEffect.served_orSelf m t s id)).tail rfl

theorem runGuardBody (m : Machine) (t : Nat) (held : Option Nat) (k : Kind) (done : List Result)
    (ops : List Op) : KeepsCounts m (m.runGuardBody t held k done ops) := by
  cases ops <;> exact of_drains rfl

theorem startGuard (m : Machine) (t e : Nat) (held : Option Nat) (k : Kind) (body : List Op) :
    KeepsCounts m (m.startGuard t e held k body) := by
  have hl : KeepsCounts m (m.readLock t e k).1 := keepsStacks (.readLock ..)
  unfold Machine.startGuard
  dsimp only
  split
  · exact hl.tail rfl
  · exact hl.trans (head (runGuardBody ..) rfl)

end KeepsCounts

namespace Asks

theorem keepsCounts (h : KeepsCounts m m') : Asks (fun _ => false) m m' := ⟨h.same⟩

variable {a b : Nat → Bool}

theorem head (h : Asks a m' m'') (hd : m'.drains = m.drains) : Asks a m m'' :=
  ⟨fun d => by rw [h.sums, (KeepsCounts.of_drains hd).same]⟩

theorem tail (h : Asks a m m') (hd : m''.drains = m'.drains) : Asks a m m'' :=
  ⟨fun d => ((KeepsCounts.of_drains hd).same d).trans (h.sums d)⟩

theorem congr (h : Asks a m m') (hab : ∀ d, b d = a d) : Asks b m m' :=
  ⟨fun d => by rw [h.sums, hab]⟩

theorem requestPass (m : Machine) (d : Nat) : Asks (fun d' => decide (d' = d)) m (m.requestPass d) := by
  refine ⟨fun d' => ((KeepsCounts.notify _ d).same d').trans ?_⟩
  rw [tally_modifyDrain]
  split
  · rename_i hd
    rw [decide_eq_true hd]
    rfl
  · rename_i hd
    rw [decide_eq_false hd]
    rfl

theorem enqueue (m : Machine) (t e : Nat) (k : Kind) (c : Callback) :
    Asks (fun d => decide (d = (m.engine e).drains.get k)) m (m.enqueue t e k c) := by
  have hd (n : Machine) : ((n.modifyEngine e fun x => x.setQueue k (x.queue k ++ [c])).engine e).drains =
      (n.engine e).drains := part_modifyEngine Engine.drains n e e fun _ => rfl
  have hr : ((m.retain e).engine e).drains = (m.engine e).drains :=
    part_modifyEngine Engine.drains m e e fun _ => rfl
  unfold Machine.enqueue
  dsimp only
  rw [hd]
  split
  · rw [hr]
    exact (requestPass ..).head rfl
  · exact (requestPass ..).head rfl

end Asks

/-- The engine that a name stands for has its callbacks run by drain task `d`. -/
def hands (m : Machine) (held : Option Nat) (slot : Nat) (k : Kind) (d : Nat) : Bool :=
  (m.resolve held slot).any fun e => d = (m.engine e).drains.get k

/-- The operation calls `enqueue` on drain task `d`. -/
def enqueues (m : Machine) (held : Option Nat) (d : Nat) : Op → Bool
  | .handle slot (.deferDrop k ..) | .call slot _ k .. => m.hands held slot k d
  | .handle slot (.deferContainer k _ size offset) =>
    decide (offset < max (Callback.valueSize size) 1) && m.hands held slot k d
  | .task .enqueue => m.bareTask = some d
  | _ => false

theorem withEngine_asks (m : Machine) (t : Nat) (held : Option Nat) (slot : Nat)
    {f : Machine → Nat → Machine} {a : Nat → Nat → Bool}
    (hf : ∀ n e, (∀ e, (n.engine e).drains = (m.engine e).drains) → Asks (a e) n (f n e)) :
    Asks (fun d => (m.resolve held slot).any fun e => a e d) m (m.withEngine t held slot f) := by
  unfold withEngine
  cases m.resolve held slot with
  | none => exact .keepsCounts (.of_drains rfl)
  | some e =>
    have h := hf ((m.retain e).push t (.release e)) e fun e' =>
      part_modifyEngine Engine.drains m e e' fun _ => rfl
    exact h.head rfl

theorem callHandle_asks (m : Machine) (t : Nat) (c : HandleCall)
    {n : Machine} (hn : ∀ e, (n.engine e).drains = (m.engine e).drains) (e : Nat) :
    Asks (fun d =>
      match c with
      | .deferDrop k .. => decide (d = (m.engine e).drains.get k)
      | .deferContainer k _ size offset =>
        decide (offset < max (Callback.valueSize size) 1) && decide (d = (m.engine e).drains.get k)
      | _ => false) n (n.callHandle t e c) := by
  have hq (k : Kind) (b : Callback) :
      Asks (fun d => decide (d = (m.engine e).drains.get k)) n ((n.enqueue t e k b).done t) := by
    rw [← hn]
    exact (Asks.enqueue ..).tail rfl
  cases c with
  | deferDrop k id size => exact hq k _
  | deferContainer k id size offset =>
    unfold callHandle
    dsimp only
    split
    · rename_i h
      rw [decide_eq_false (Nat.not_lt.2 h)]
      exact .keepsCounts (.of_drains rfl)
    · rename_i h
      rw [decide_eq_true (Nat.not_le.1 h)]
      exact hq k _
  | register k w => exact .keepsCounts (.register ..)
  | isRegistered k w | activeReaders k w => exact .keepsCounts (.answer ..)
  | readLock k => exact .keepsCounts ((KeepsCounts.keepsStacks (.readLock ..)).trans (.answer ..))
  | readUnlock k => exact .keepsCounts ((KeepsCounts.keepsStacks (.readUnlock ..)).trans (.answer ..))
  | synchronize k | srcuSynchronize => exact .keepsCounts (.startSynchronize ..)
  | barrier k | srcuBarrier => exact .keepsCounts (.startBarrier ..)
  | srcuLock key => exact .keepsCounts (.srcuLock ..)
  | srcuUnlock key => exact .keepsCounts (.srcuUnlock ..)
  | readDepth k | currentEpoch k | pending k | numWorkers | srcuDepth => exact .keepsCounts (.of_drains rfl)

theorem callTask_asks (m : Machine) (t : Nat) (c : TaskCall) (held : Option Nat) :
    Asks (fun d => m.enqueues held d (.task c)) m (m.callTask t c) := by
  unfold callTask
  cases c with
  | spawn name passes =>
    refine .keepsCounts ?_
    dsimp only
    split
    · exact .of_drains rfl
    · exact (KeepsCounts.spawnDrain m _ _ ⟨rfl, rfl⟩).trans (.of_drains rfl)
  | enqueue =>
    cases hb : m.bareTask with
    | none =>
      have h : Asks (fun _ => false) m (m.refuse t .noTask) := .keepsCounts (.of_drains rfl)
      exact h.congr fun d => by simp [enqueues, hb]
    | some d =>
      have h : Asks (fun d' => decide (d' = d)) m ((m.requestPass d).done t) :=
        (Asks.requestPass m d).tail rfl
      exact h.congr fun d' => by simp [enqueues, hb, eq_comm]
  | drain =>
    cases m.bareTask with
    | none => exact .keepsCounts (.of_drains rfl)
    | some d =>
      have hd : KeepsCounts m (m.modifyDrain d fun x => { x with holders := x.holders + 1 }) :=
        .modifyDrain m d fun _ => ⟨rfl, rfl, rfl⟩
      exact .keepsCounts (hd.trans (KeepsCounts.head (.startDrain ..) rfl))
  | isWorker => cases m.bareTask <;> exact .keepsCounts (.of_drains rfl)
  | drop =>
    cases m.bareTask with
    | none => exact .keepsCounts (.of_drains rfl)
    | some d => exact .keepsCounts (KeepsCounts.head (.releaseTask ..) rfl)

theorem startOp_asks (m : Machine) (t : Nat) (held : Option Nat) (op : Op) :
    Asks (fun d => m.enqueues held d op) m (m.startOp t held op) := by
  cases op with
  | build slot c => exact .keepsCounts (.build ..)
  | buildDefault k => exact .keepsCounts (.buildDefault ..)
  | clone slot => exact .keepsCounts (.clone ..)
  | dropHandle slot => exact .keepsCounts (.dropHandle ..)
  | handle slot c =>
    refine (withEngine_asks m t held slot fun n e hn => callHandle_asks m t c hn e).congr fun d => ?_
    cases c <;> cases hr : m.resolve held slot <;> simp [enqueues, hands, hr]
  | call slot srcu k id hold body =>
    refine withEngine_asks m t held slot (f := fun m e => (m.enqueue t e k _).done t)
      (a := fun e d => d = (m.engine e).drains.get k) fun n e hn => ?_
    rw [← hn]
    exact (Asks.enqueue ..).tail rfl
  | guard slot srcu k caught body =>
    refine (withEngine_asks m t held slot (f := fun m e => m.startGuard t e held k body)
      fun n e _ => .keepsCounts (.startGuard ..)).congr fun d => ?_
    simp [enqueues]
  | engineScheduler slot c =>
    refine (withEngine_asks m t held slot
      (f := fun m e => m.callScheduler t (m.engine e).access c)
      fun n e _ => .keepsCounts (.callScheduler ..)).congr fun d => ?_
    simp [enqueues]
  | scheduler s c =>
    refine .keepsCounts ?_
    show KeepsCounts m (m.withScheduler t s _)
    unfold withScheduler
    split
    · exact .callScheduler ..
    · exact .of_drains rfl
  | logical s c =>
    refine .keepsCounts ?_
    show KeepsCounts m (m.withScheduler t s _)
    unfold withScheduler
    split
    · exact .callLogical ..
    · exact .of_drains rfl
  | task c => exact callTask_asks m t c held
  | panic p | note text | threadName | unknown name | gate => exact .keepsCounts (.of_drains rfl)

theorem start_asks (m : Machine) (t : Nat) (held : Option Nat) (op : Op) :
    Asks (fun d => m.enqueues held d op) m (m.start t held op) := by
  unfold start
  split
  · have h : Asks (fun d => (m.push t .attempt).enqueues held d op) m
        ((m.push t .attempt).startOp t held op) := (startOp_asks ..).head rfl
    refine h.congr fun d => ?_
    cases op with
    | handle slot c | task c => cases c <;> rfl
    | _ => rfl
  · exact startOp_asks ..

namespace KeepsCounts

theorem abortSynchronize (m : Machine) (t e : Nat) (k : Kind) (c : Snapshot) (p : Payload) :
    KeepsCounts m (m.abortSynchronize t e k c p) := (served (.restore ..)).tail rfl

theorem locateBlocker (m : Machine) (t e : Nat) (k : Kind) (c : Snapshot) (target : UInt32) :
    KeepsCounts m (m.locateBlocker t e k c target) := by
  unfold Machine.locateBlocker
  dsimp only
  split
  · exact (served ((Served.log m t (.graceCompleted k)).trans (.restore ..))).tail rfl
  · split
    · split
      · exact abortSynchronize ..
      · split
        · exact head (pause ..) rfl
        · exact head ((served (.setPriority ..)).trans (yield ..)) rfl
    · rename_i w _ _
      have hb : KeepsCounts m (((m.log t (.graceMoving k w)).setPriority t (m.engine e).access
          .highest).bind t (m.engine e).access w).1 :=
        served (((Served.log ..).trans (.setPriority ..)).trans (.bind ..))
      split
      · exact hb.trans (abortSynchronize ..)
      · exact hb.tail rfl

theorem resumeAwait (m : Machine) (t d ticket : Nat) : KeepsCounts m (m.resumeAwait t d ticket) := by
  unfold Machine.resumeAwait
  split
  · exact of_drains rfl
  · exact head (waitFor ..) rfl

theorem resumeJoined (m : Machine) (t d : Nat) (ds : List Nat) (saved : Outcome) :
    KeepsCounts m (m.resumeJoined t d ds saved) := by
  obtain ⟨n, hq, heq⟩ := resumeJoined_eq m t d ds saved
  rw [heq]
  exact (keepsStacks hq.toKeepsStacks).tail rfl

theorem resume (m : Machine) (t : Nat) (o : Outcome) {f : Frame} (hf : ∀ d i, f ≠ .worker d i) :
    KeepsCounts m (m.resume t o f) := by
  cases f with
  | attempt => cases o <;> exact of_drains rfl
  | release e => exact releaseHandle ..
  | releaseTask d => exact releaseTask ..
  | leave e k => exact keepsStacks (.leave ..)
  | guardBody held k done rest =>
    cases o with
    | error p => exact of_drains rfl
    | ok r => exact runGuardBody ..
  | callbackBody held name rest =>
    cases o with
    | error p => exact of_drains rfl
    | ok r => exact head (batchMoves (.runCallbackBody .refl held rest)) rfl
  | batch e k rest =>
    cases o with
    | error p | ok r => exact head (batchMoves (.runBatch ..)) rfl
  | detached e k batch =>
    cases o with
    | error p => exact batchMoves (.discardBatch ..)
    | ok r => exact head (batchMoves (.runBatch ..)) rfl
  | grace e k c target =>
    cases o with
    | error p => exact abortSynchronize ..
    | ok r => exact locateBlocker ..
  | barrier e k =>
    cases o with
    | error p => exact of_drains rfl
    | ok r => exact head (startDrain ..) rfl
  | barrierEnd e k => cases o <;> exact of_drains rfl
  | await d ticket =>
    cases o with
    | error p => exact of_drains rfl
    | ok r => exact resumeAwait ..
  | wake s id => exact of_drains rfl
  | worker d i => exact absurd rfl (hf d i)
  | shutdown drains saved => exact shutdown ..
  | joined d drains saved => exact resumeJoined ..

end KeepsCounts

/-- The next pass of a bare task calls `enqueue` on the task, if it still can. -/
def passEnqueues (m : Machine) (d : Nat) : Bool :=
  match (m.drain d).work with
  | .scripted words => words.getD (m.drain d).passes "" = "enqueue" && (m.drain d).holders != 0
  | .callbacks .. => false

theorem runScripted_asks (m : Machine) (t d i : Nat) (word : String) :
    Asks (fun d' => d' = d && (word = "enqueue" && (m.drain d).holders != 0)) m
      (m.runScripted t d i word) := by
  have hcounts {n : Machine} {b : Bool} (hb : b = false) (h : KeepsCounts m n) :
      Asks (fun d' => d' = d && b) m n := (Asks.keepsCounts h).congr fun d' => by rw [hb, Bool.and_false]
  unfold runScripted
  dsimp only
  split
  · exact hcounts (by simp) (.of_drains rfl)
  · exact hcounts (by simp) (.of_drains rfl)
  · exact hcounts (by simp) (KeepsCounts.head (.startDrain ..) rfl)
  · rename_i n hn
    replace hn : (m.drain d).holders = n + 1 := hn
    have h : Asks (fun d' => decide (d' = d)) m ((m.emit t (.pass i)).requestPass d) :=
      (Asks.requestPass ..).head rfl
    have hd : Asks (fun d' => decide (d' = d)) m (((m.emit t (.pass i)).requestPass d).done t) :=
      h.tail rfl
    exact hd.congr fun d' => by simp [hn]
  · exact hcounts (by simp) (.of_drains rfl)
  · rename_i word _ _ _ _ _ hne _
    refine hcounts ?_ (.of_drains rfl)
    rw [Bool.and_eq_false_iff]
    by_cases hw : word = "enqueue"
    · refine .inr ?_
      cases hh : (m.drain d).holders with
      | zero => rfl
      | succ n => exact absurd hh (hne n hw)
    · exact .inl (decide_eq_false hw)

theorem startPass_callbacks (t : Nat) (hw : (m.drain d).work = .callbacks e k) :
    m.startPass t d =
      (m.modifyDrain d fun x => { x with passes := (m.drain d).passes + 1 }).runCallbacks t e k := by
  have hn : ((m.modifyDrain d fun x => { x with passes := (m.drain d).passes + 1 }).drain d).work =
      (m.drain d).work := part_modifyDrain Drain.work m d d fun _ => rfl
  rw [startPass, hn, hw]

theorem startPass_scripted {words : List String} (t : Nat) (hw : (m.drain d).work = .scripted words) :
    m.startPass t d = (m.modifyDrain d fun x => { x with passes := (m.drain d).passes + 1 }).runScripted
      t d (m.drain d).passes (words.getD (m.drain d).passes "") := by
  have hn : ((m.modifyDrain d fun x => { x with passes := (m.drain d).passes + 1 }).drain d).work =
      (m.drain d).work := part_modifyDrain Drain.work m d d fun _ => rfl
  rw [startPass, hn, hw]

theorem startPass_tally (m : Machine) (t d d' : Nat) : (m.startPass t d).tally d' =
    if d' = d then ((m.tally d).1 + (m.passEnqueues d).toNat, (m.tally d).2.1, (m.drain d).passes + 1)
      else m.tally d' := by
  let n := m.modifyDrain d fun x => { x with passes := (m.drain d).passes + 1 }
  have hn (d' : Nat) : n.tally d' = if d' = d then
      ((m.tally d).1, (m.tally d).2.1, (m.drain d).passes + 1) else m.tally d' := by
    rw [tally_modifyDrain]
    split
    · rename_i hd
      rw [hd]
      rfl
    · rfl
  have hholders : (n.drain d).holders = (m.drain d).holders :=
    part_modifyDrain Drain.holders m d d fun _ => rfl
  rw [passEnqueues]
  cases hw : (m.drain d).work with
  | callbacks e k =>
    rw [startPass_callbacks t hw]
    have hm : KeepsCounts n (n.runCallbacks t e k) := by
      unfold runCallbacks
      split
      · exact .of_drains rfl
      · exact KeepsCounts.head (.startSynchronize ..) rfl
    exact (hm.same d').trans (hn d')
  | scripted words =>
    rw [startPass_scripted t hw]
    have ha := (runScripted_asks n t d (m.drain d).passes (words.getD (m.drain d).passes "")).sums d'
    rw [hholders] at ha
    refine ha.trans ?_
    rw [hn]
    split
    · rename_i hd
      rw [decide_eq_true hd, Bool.true_and]
    · rename_i hd
      rw [decide_eq_false hd, Bool.false_and]
      rfl

theorem complete_tally (m : Machine) (d n d' : Nat) :
    (((m.modifyDrain d fun x => { x with tickets := x.tickets.complete n }).notify d).tally d') =
      if d' = d then ((m.tally d).1, n, (m.tally d).2.2) else m.tally d' := by
  rw [(KeepsCounts.notify _ d).same, tally_modifyDrain]
  split
  · rename_i hd
    rw [hd]
    rfl
  · rfl

end GracePeriod.Machine
