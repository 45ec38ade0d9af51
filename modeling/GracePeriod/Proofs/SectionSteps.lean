import GracePeriod.Proofs.KeptPins

namespace GracePeriod.Machine

variable {b : Bool} {t s e d : Nat} {k : Kind} {m m₀ m' n : Machine} {f : Frame} {p : Access}

/-- A step of thread `t` that neither enters nor leaves a section. -/
inductive Doing (b : Bool) (t s : Nat) (m m' : Machine) : Prop
  | deals (h : KeepsPins b t s m m')
  | calls (n : Machine) (h : Approach t m n) (d e : Nat) (k : Kind) (hd : n.Serves d e k)
      (hm : m' = n.startSynchronize t e k)
  | looks (o : Outcome) (e : Nat) (k : Kind) (c : Snapshot) (target : UInt32) (rest : List Frame)
      (hc : (m.thread t).control = .back o) (hs : (m.thread t).stack = .grace e k c target :: rest)
  | ends (h : m'.Ended t)

theorem Approach.keepsPins (h : Approach t m₀ m) : KeepsPins b t s m₀ m := .single (.still h.toUnasked)

namespace KeepsPins

theorem setPinDepth (h : KeepsPins b t s m₀ m) (hne : p.scheduler ≠ s) (n : UInt32) :
    KeepsPins b t s m₀ (m.setPinDepth t p n) :=
  (h.record p _).tail (.change _ _ _ (fun _ => rfl) fun hs => absurd hs hne)

theorem restore (h : KeepsPins b t s m₀ m) (hne : p.scheduler ≠ s) (c : Snapshot) :
    KeepsPins b t s m₀ (m.restore t p c) := by
  have hb {m : Machine} (h : KeepsPins b t s m₀ m) : KeepsPins b t s m₀ (m.bind t p c.worker).1 :=
    h.bind (fun hs => absurd hs hne) _
  have hm : KeepsPins b t s m₀ (if c.bound then (m.bind t p c.worker).1
      else (if c.pinDepth = 0 then m else (m.bind t p c.worker).1).unbind t p) := by
    split
    · exact hb h
    · split
      · exact h.unbind p
      · exact (hb h).unbind p
  exact (hm.setPinDepth hne _).setPriority p _

theorem startSynchronize (h : KeepsPins b t s m₀ m) (he : e < m.engines.size)
    (hne : (m.engine e).access.scheduler ≠ s) : KeepsPins b t s m₀ (m.startSynchronize t e k) := by
  unfold Machine.startSynchronize
  split
  · exact (h.mark ..).done
  · split
    · exact h.fail _
    · let p := (m.engine e).access
      let o := (m.mark t e k .synchronizeCalled).enroll t p.scheduler
      let c := o.snapshot t p.scheduler
      let q := (((o.unbind t p).setPinDepth t p 0).bind t p c.worker).1
      have hq : KeepsPins b t s m₀ q :=
        ((((h.mark ..).enroll _).unbind p).setPinDepth hne 0).bind (fun hs => absurd hs hne) _
      have hserved : Served (m.mark t e k .synchronizeCalled) q :=
        ((Served.enroll ..).trans (.unbind ..)).trans ((Served.setPinDepth ..).trans (.bind ..))
      have hengines : q.engines = m.engines := (congrArg engines hserved.eq :)
      let v := ((q.engine e).domain k).advance
      have hd : KeepsPins b t s m₀ (q.setDomain e k v) := hq.modifyEngine e fun _ => ⟨rfl, rfl⟩
      have hr := (hd.mark e k (.advanced v.epoch)).log (.graceStarted k v.epoch)
      refine done (hr.tail (.wait _ e k c v.epoch ?_ ?_))
      · exact Nat.lt_of_lt_of_le he (hengines ▸ Table.size_le_modify q.engines e _)
      · have ha : ((q.setDomain e k v).engine e).access = (q.engine e).access :=
          part_modifyEngine Engine.access q e e fun _ => rfl
        have hqa : (q.engine e).access = (m.engine e).access := by rw [engine, hengines, engine]
        exact fun hc => hne ((congrArg Access.scheduler (ha.trans hqa)).symm.trans hc)

theorem abortSynchronize (h : KeepsPins b t s m₀ m) (hne : (m.engine e).access.scheduler ≠ s) (k : Kind)
    (c : Snapshot) (q : Payload) : KeepsPins b t s m₀ (m.abortSynchronize t e k c q) :=
  ((h.restore hne c).mark ..).back _

theorem locateBlocker (h : KeepsPins b t s m₀ m) (he : e < m.engines.size)
    (hne : (m.engine e).access.scheduler ≠ s) (k : Kind) (c : Snapshot) (target : UInt32) :
    KeepsPins b t s m₀ (m.locateBlocker t e k c target) := by
  have hpush {n : Machine} (h : KeepsPins b t s m₀ n) (hn : n.engines = m.engines) :
      KeepsPins b t s m₀ (n.push t (.grace e k c target)) :=
    h.tail (.wait n e k c target (hn ▸ he) (by rwa [engine, hn]))
  unfold Machine.locateBlocker
  dsimp only
  split
  · exact (((h.log _).restore hne c).mark ..).done
  · split
    · split
      · exact h.abortSynchronize hne ..
      · split
        · exact ((hpush h rfl).log _).pause ..
        · exact ((hpush h rfl).setPriority ..).yield _
    · rename_i w _ _
      have hq : KeepsPins b t s m₀ (((m.log t (.graceMoving k w)).setPriority t (m.engine e).access
          .highest).bind t (m.engine e).access w).1 :=
        ((h.log _).setPriority ..).bind (fun hs => absurd hs hne) w
      have hengines : (((m.log t (.graceMoving k w)).setPriority t (m.engine e).access
          .highest).bind t (m.engine e).access w).1.engines = m.engines :=
        (congrArg engines (((Served.log ..).trans (.setPriority ..)).trans (.bind ..) :
          Served m _).eq :)
      split
      · exact hq.abortSynchronize (by rwa [engine, hengines]) ..
      · exact (hpush hq hengines).done

theorem resumeGrace (h : KeepsPins b t s m₀ m) (he : e < m.engines.size)
    (hne : (m.engine e).access.scheduler ≠ s) (o : Outcome) (k : Kind) (c : Snapshot)
    (target : UInt32) : KeepsPins b t s m₀ (m.resume t o (.grace e k c target)) := by
  cases o with
  | error q => exact h.abortSynchronize hne k c q
  | ok r => exact h.locateBlocker he hne k c target

end KeepsPins

/-- The thread enters a section after getting ready for it, and then goes on. -/
structure Locks (t e : Nat) (k : Kind) (m n m' : Machine) : Prop where
  before : Approach t m n
  after : Approach t (n.readLock t e k).1 m'

/-- The thread leaves a section after getting ready for it, and then goes on. -/
structure Unlocks (t e : Nat) (k : Kind) (m n m' : Machine) : Prop where
  before : Approach t m n
  after : Approach t (n.readUnlock t e k).1 m'

theorem callHandle_locks (h : Approach t m₀ m) {c : HandleCall} (hc : c.locks? = some k) :
    Locks t e k m₀ m (m.callHandle t e c) := by
  refine ⟨h, ?_⟩
  cases c with
  | readLock k' =>
    obtain rfl := Option.some.inj hc
    exact .answer (.refl ..) _ _
  | srcuLock key =>
    obtain rfl := Option.some.inj hc
    have hq : Approach t (m.readLock t e .sleepable).1 (m.readLock t e .sleepable).1 := .refl ..
    show Approach t _ (m.srcuLock t e key)
    unfold Machine.srcuLock
    dsimp only
    split
    · exact hq.fail _
    · exact (hq.keys _).back _
  | _ => cases hc

theorem startGuard_locks (h : Approach t m₀ m) (held : Option Nat) (body : List Op) :
    Locks t e k m₀ m (m.startGuard t e held k body) := by
  have hq : Approach t (m.readLock t e k).1 (m.readLock t e k).1 := .refl ..
  refine ⟨h, ?_⟩
  unfold Machine.startGuard
  dsimp only
  split
  · exact hq.fail _
  · exact (hq.push rfl).runGuardBody ..

theorem srcuUnlock_of_fits {key : String} (h : m.fits t e key = true) : m.srcuUnlock t e key =
    (m.readUnlock t e .sleepable).1.answer t (fun _ => .unit) (m.readUnlock t e .sleepable).2 := by
  unfold fits at h
  unfold srcuUnlock
  cases hkey : m.keys.lookup key with
  | none =>
    rw [hkey] at h
    cases h
  | some n =>
    rw [hkey] at h
    exact if_pos h

theorem srcuUnlock_of_not_fits {key : String} (h : m.fits t e key = false) :
    ∃ o, m.srcuUnlock t e key = m.back t o := by
  unfold fits at h
  unfold srcuUnlock
  cases hkey : m.keys.lookup key with
  | none => exact ⟨_, rfl⟩
  | some n =>
    rw [hkey] at h
    exact ⟨_, if_neg (Bool.eq_false_iff.1 h)⟩

theorem callHandle_unlocks (h : Approach t m₀ m) {c : HandleCall} (hc : m.callUnlocks? t e c = some k) :
    Unlocks t e k m₀ m (m.callHandle t e c) := by
  refine ⟨h, ?_⟩
  cases c with
  | readUnlock k' =>
    obtain rfl := Option.some.inj hc
    exact .answer (.refl ..) _ _
  | srcuUnlock key =>
    obtain ⟨hfits, hk⟩ := Option.ite_none_right_eq_some.1 hc
    obtain rfl := Option.some.inj hk
    show Approach t _ (m.srcuUnlock t e key)
    rw [srcuUnlock_of_fits hfits]
    exact .answer (.refl ..) _ _
  | _ => cases hc

theorem withEngine_of_resolve {held : Option Nat} {slot : Nat} (h : m.resolve held slot = some e)
    (g : Machine → Nat → Machine) :
    m.withEngine t held slot g = g ((m.retain e).push t (.release e)) e := by
  rw [withEngine, h]

theorem startOp_locks (h : Approach t m₀ m) {held : Option Nat} {op : Op}
    (hl : m.opLocks? held op = some (e, k)) : ∃ n, Locks t e k m₀ n (m.startOp t held op) := by
  cases op with
  | handle slot c =>
    obtain ⟨k', hc, he⟩ := Option.bind_eq_some_iff.1 hl
    obtain ⟨e', hr, heq⟩ := Option.map_eq_some_iff.1 he
    cases heq
    refine ⟨(m.retain e).push t (.release e), ?_⟩
    rw [startOp, withEngine_of_resolve hr]
    exact callHandle_locks (h.visit e) hc
  | guard slot srcu k' caught body =>
    obtain ⟨e', hr, heq⟩ := Option.map_eq_some_iff.1 hl
    cases heq
    refine ⟨(m.retain e).push t (.release e), ?_⟩
    rw [startOp, withEngine_of_resolve hr]
    exact startGuard_locks (h.visit e) held body
  | _ => cases hl

theorem callUnlocks?_eq (hn : m'.nests t = m.nests t) (hk : m'.keys = m.keys) (e : Nat) (c : HandleCall) :
    m'.callUnlocks? t e c = m.callUnlocks? t e c := by
  have hfits (key : String) : m'.fits t e key = m.fits t e key := by
    rw [fits, fits, hk, readDepth, hn, readDepth]
  cases c with
  | srcuUnlock key => rw [callUnlocks?, hfits, callUnlocks?]
  | _ => rfl

theorem nests_visit (m : Machine) (t e : Nat) :
    ((m.retain e).push t (.release e)).nests t = m.nests t :=
  part_modifyThread Thread.nests (m.retain e) t t fun _ => rfl

theorem startOp_unlocks (h : Approach t m₀ m) {held : Option Nat} {op : Op}
    (hl : m.opUnlocks? t held op = some (e, k)) : ∃ n, Unlocks t e k m₀ n (m.startOp t held op) := by
  cases op with
  | handle slot c =>
    obtain ⟨e', hr, he⟩ := Option.bind_eq_some_iff.1 hl
    obtain ⟨k', hc, heq⟩ := Option.map_eq_some_iff.1 he
    cases heq
    refine ⟨(m.retain e).push t (.release e), ?_⟩
    rw [startOp, withEngine_of_resolve hr]
    exact callHandle_unlocks (h.visit e) ((callUnlocks?_eq (nests_visit m t e) rfl e c).trans hc)
  | _ => cases hl

theorem resolve_eq (he : m'.engines = m.engines) (hs : m'.slots = m.slots) (held : Option Nat)
    (slot : Nat) : m'.resolve held slot = m.resolve held slot := by
  unfold resolve tableEngine engine
  rw [he, hs]

/-- What operations look at of the machine before they act on an engine. -/
structure SameSight (t : Nat) (m m' : Machine) : Prop where
  engines : m'.engines = m.engines
  slots : m'.slots = m.slots
  keys : m'.keys = m.keys
  nests : m'.nests t = m.nests t

theorem SameSight.opLocks? (h : SameSight t m m') (held : Option Nat) (op : Op) :
    m'.opLocks? held op = m.opLocks? held op := by
  cases op with
  | handle slot c => simp only [Machine.opLocks?, resolve_eq h.engines h.slots]
  | guard slot srcu k caught body => simp only [Machine.opLocks?, resolve_eq h.engines h.slots]
  | _ => rfl

theorem SameSight.opUnlocks? (h : SameSight t m m') (held : Option Nat) (op : Op) :
    m'.opUnlocks? t held op = m.opUnlocks? t held op := by
  cases op with
  | handle slot c =>
    simp only [Machine.opUnlocks?, resolve_eq h.engines h.slots, callUnlocks?_eq h.nests h.keys]
  | _ => rfl

theorem start_cases (m : Machine) (t : Nat) (held : Option Nat) (op : Op) :
    ∃ n, Approach t m n ∧ SameSight t m n ∧ m.start t held op = n.startOp t held op := by
  unfold Machine.start
  split
  · exact ⟨_, (Approach.refl t m).push rfl,
      ⟨rfl, rfl, rfl, part_modifyThread Thread.nests m t t fun _ => rfl⟩, rfl⟩
  · exact ⟨m, .refl t m, ⟨rfl, rfl, rfl, rfl⟩, rfl⟩

theorem advance_locks (h : m.locks? t = some (e, k)) : ∃ n, Locks t e k m n (m.advance t) := by
  unfold locks? at h
  unfold advance
  dsimp only
  cases hc : (m.thread t).control with
  | eval held op =>
    rw [hc] at h
    obtain ⟨n, hn, hsight, hs⟩ := start_cases m t held op
    dsimp only
    rw [hs]
    exact startOp_locks hn ((hsight.opLocks? held op).trans h)
  | back o =>
    rw [hc] at h
    cases h

theorem advance_unlocks (h : m.unlocks? t = some (e, k)) : ∃ n, Unlocks t e k m n (m.advance t) := by
  unfold unlocks? at h
  unfold advance
  dsimp only
  cases hc : (m.thread t).control with
  | eval held op =>
    rw [hc] at h
    obtain ⟨n, hn, hsight, hs⟩ := start_cases m t held op
    dsimp only
    rw [hs]
    exact startOp_unlocks hn ((hsight.opUnlocks? held op).trans h)
  | back o =>
    rw [hc] at h
    cases hst : (m.thread t).stack with
    | nil =>
      rw [hst] at h
      cases h
    | cons f rest =>
      rw [hst] at h
      cases f with
      | leave e' k' =>
        cases h
        have hpop := (Approach.refl t m).pop hst
        refine ⟨_, hpop, ?_⟩
        have hq := Approach.refl t ((m.modifyThread t fun x => { x with stack := rest }).readUnlock t e k).1
        dsimp only
        unfold Machine.resume
        dsimp only
        split
        · exact hq.fail _
        · exact hq.back _
      | _ => cases h

namespace Doing

theorem startSynchronize (h : Approach t m₀ m) (hd : ∃ d, m.Serves d e k) :
    Doing b t s m₀ (m.startSynchronize t e k) := by
  obtain ⟨d, hd⟩ := hd
  exact .calls m h d e k hd rfl

theorem startBarrier (h : Approach t m₀ m) (hd : ∃ d, m.Serves d e k) :
    Doing b t s m₀ (m.startBarrier t e k) := by
  unfold Machine.startBarrier
  split
  · exact .deals (h.fail _).keepsPins
  · exact startSynchronize ((h.mark e k rfl).push rfl) hd

theorem askRecord {α : Type} (h : Approach t m₀ m) (k : Kind) (w : Nat) (g : α → Result)
    (g' : WorkerRecord → α) : Doing b t s m₀ (m.askRecord t e k w g g') :=
  .deals (h.answer _ _).keepsPins

theorem callHandle (h : Approach t m₀ m) (hs : ∀ k, ∃ d, m.Serves d e k) {c : HandleCall}
    (hl : c.locks? = none) (hu : m.callUnlocks? t e c = none) : Doing b t s m₀ (m.callHandle t e c) := by
  have hd : KeepsPins b t s m₀ m := h.keepsPins
  cases c with
  | register k w => exact .deals (hd.register e k w)
  | readLock k | srcuLock key => cases hl
  | readUnlock k => cases hu
  | srcuUnlock key =>
    have hfits : m.fits t e key = false := by
      cases hf : m.fits t e key with
      | false => rfl
      | true =>
        rw [callUnlocks?, hf] at hu
        cases hu
    obtain ⟨o, ho⟩ := srcuUnlock_of_not_fits hfits
    show Doing b t s m₀ (m.srcuUnlock t e key)
    rw [ho]
    exact .deals (hd.back o)
  | synchronize k | srcuSynchronize => exact startSynchronize h (hs _)
  | barrier k | srcuBarrier => exact startBarrier h (hs _)
  | deferDrop k id size => exact .deals (hd.enqueue e k _).done
  | deferContainer k id size offset =>
    unfold Machine.callHandle
    dsimp only
    split
    · exact .deals (hd.fail _)
    · exact .deals (hd.enqueue e k _).done
  | isRegistered k w | activeReaders k w => exact askRecord h ..
  | readDepth k | currentEpoch k | pending k | numWorkers | srcuDepth => exact .deals (hd.back _)

theorem withEngine (h : Approach t m₀ m) (held : Option Nat) (slot : Nat) {g : Machine → Nat → Machine}
    (hg : ∀ e, m.resolve held slot = some e → Approach t m₀ ((m.retain e).push t (.release e)) →
      Doing b t s m₀ (g ((m.retain e).push t (.release e)) e)) :
    Doing b t s m₀ (m.withEngine t held slot g) := by
  cases hr : m.resolve held slot with
  | none =>
    rw [Machine.withEngine, hr]
    exact .deals (h.keepsPins.refuse _)
  | some e =>
    rw [withEngine_of_resolve hr]
    exact hg e hr (h.visit e)

theorem startOp (h : Approach t m₀ m) (held : Option Nat)
    (hs : ∀ slot e, m.resolve held slot = some e → ∀ k, ∃ d, m.Serves d e k) {op : Op}
    (hc : op.schedulerCall?.any SchedulerCall.repins = false)
    (hb : op.schedulerCall?.any SchedulerCall.binds = true → b = true)
    (hl : m.opLocks? held op = none) (hu : m.opUnlocks? t held op = none) :
    Doing b t s m₀ (m.startOp t held op) := by
  have hd : KeepsPins b t s m₀ m := h.keepsPins
  cases op with
  | build slot c => exact .deals (hd.build slot c)
  | buildDefault k => exact .deals (hd.buildDefault k)
  | clone slot => exact .deals (hd.clone held slot)
  | dropHandle slot => exact .deals (hd.dropHandle slot)
  | handle slot c =>
    refine withEngine h held slot (g := fun m e => m.callHandle t e c) fun e hr ha => ?_
    refine callHandle ha (hs slot e hr) ?_ ((callUnlocks?_eq (nests_visit m t e) rfl e c).trans ?_)
    · cases hk : c.locks? with
      | none => rfl
      | some k =>
        rw [opLocks?, hk, hr] at hl
        cases hl
    · rw [opUnlocks?, hr] at hu
      exact Option.map_eq_none_iff.1 hu
  | call slot srcu k id hold body =>
    exact withEngine h held slot (g := fun m e => (m.enqueue t e k (.call id hold body)).done t)
      fun e _ ha => .deals (ha.keepsPins.enqueue e k _).done
  | guard slot srcu k caught body =>
    refine withEngine h held slot (g := fun m e => m.startGuard t e held k body) fun e hr _ => ?_
    rw [opLocks?, hr] at hl
    cases hl
  | engineScheduler slot c =>
    exact withEngine h held slot (g := fun m e => m.callScheduler t (m.engine e).access c)
      fun e _ ha => .deals (ha.keepsPins.callScheduler _ hc hb)
  | scheduler c l => exact .deals (hd.withScheduler c (hd.callScheduler _ hc hb))
  | logical c l => exact .deals (hd.withScheduler c (hd.callLogical c l))
  | task c => exact .deals (hd.callTask c)
  | panic q | note text | threadName | unknown name => exact .deals (hd.back _)
  | gate => exact .deals (hd.park _)

theorem runCallbacks (h : Approach t m₀ m) (hd : m.Serves d e k) :
    Doing b t s m₀ (m.runCallbacks t e k) := by
  unfold Machine.runCallbacks
  split
  · exact .deals h.keepsPins.done
  · exact startSynchronize ((h.detach e k).push rfl) ⟨d, hd⟩

theorem startPass (h : Approach t m₀ m) (d : Nat) : Doing b t s m₀ (m.startPass t d) := by
  have hp : Approach t m₀ (m.modifyDrain d fun x => { x with passes := (m.drain d).passes + 1 }) :=
    h.modifyDrain d fun _ => ⟨rfl, rfl, rfl⟩
  cases hw : (m.drain d).work with
  | callbacks e k =>
    rw [startPass_callbacks t hw]
    refine runCallbacks (d := d) hp (Eq.trans ?_ hw)
    exact part_modifyDrain Drain.work m d d (f := fun x => { x with passes := (m.drain d).passes + 1 })
      fun _ => rfl
  | scripted words =>
    rw [startPass_scripted t hw]
    exact .deals (hp.keepsPins.runScripted ..)

theorem workerLoop (h : Approach t m₀ m) (d : Nat) : Doing b t s m₀ (m.workerLoop t d) := by
  unfold Machine.workerLoop
  split
  · exact .ends (ended_endThread ..)
  · exact .deals ((h.keepsPins.push rfl).still (.waitFor ..))
  · exact startPass (h.push rfl) d

theorem resumeWorker (h : Approach t m₀ m) (d : Nat) (ticket : Option Nat) (o : Outcome) :
    Doing b t s m₀ (m.resumeWorker t d ticket o) := by
  cases o with
  | error q => exact .ends (ended_endThread ..)
  | ok r =>
    cases ticket with
    | none => exact workerLoop h d
    | some n =>
      have hc : Approach t m₀ (m.modifyDrain d fun x => { x with tickets := x.tickets.complete n }) :=
        h.modifyDrain d fun _ => ⟨rfl, rfl, rfl⟩
      exact workerLoop (hc.notify d) d

theorem resume (h : Approach t m₀ m) (o : Outcome) (hl : ∀ e k, f ≠ .leave e k)
    (hg : f.isGrace = false) : Doing b t s m₀ (m.resume t o f) := by
  have hd : KeepsPins b t s m₀ m := h.keepsPins
  cases f with
  | attempt => cases o <;> exact .deals (hd.back _)
  | release e => exact .deals (hd.releaseHandle e o)
  | releaseTask d => exact .deals (hd.releaseTask d o)
  | leave e k => exact absurd rfl (hl e k)
  | guardBody held k done rest =>
    cases o with
    | error q => exact .deals (hd.back _)
    | ok r => exact .deals (h.runGuardBody ..).keepsPins
  | callbackBody held name rest =>
    cases o with
    | error q => exact .deals (hd.back _)
    | ok r => exact .deals ((hd.emit _).still (.batchMoves (.runCallbackBody .refl held rest)))
  | batch e k rest =>
    cases o with
    | error q => exact .deals (((hd.log _).mark ..).still (.batchMoves (.runBatch ..)))
    | ok r => exact .deals ((hd.mark ..).still (.batchMoves (.runBatch ..)))
  | detached e k batch =>
    cases o with
    | error q => exact .deals (hd.still (.batchMoves (.discardBatch ..)))
    | ok r => exact .deals ((hd.log _).still (.batchMoves (.runBatch ..)))
  | grace e k c target => cases hg
  | barrier e k =>
    cases o with
    | error q => exact .deals (hd.back _)
    | ok r => exact .deals ((hd.push rfl).startDrain _)
  | barrierEnd e k =>
    cases o with
    | error q => exact .deals (hd.back _)
    | ok r => exact .deals ((hd.mark ..).back _)
  | await d ticket =>
    cases o with
    | error q => exact .deals (hd.back _)
    | ok r => exact .deals (hd.resumeAwait d ticket)
  | wake c id => exact .deals (KeepsPins.back (hd.tail (.endPause m c id)) o)
  | worker d ticket => exact resumeWorker h d ticket o
  | shutdown drains saved => exact .deals (hd.shutdown drains saved)
  | joined d drains saved => exact .deals (hd.resumeJoined d drains saved)

end Doing

/-- A step that neither enters nor leaves a section, and makes no call that changes how deep the thread is
pinned, or, unless `b`, where it is. -/
theorem advance_doing (hr : Rooted m) (hc : m.makesCall t SchedulerCall.repins = false)
    (hb : m.makesCall t SchedulerCall.binds = true → b = true) (hl : m.locks? t = none)
    (hu : m.unlocks? t = none) : Doing b t s m (m.advance t) := by
  unfold makesCall at hc hb
  unfold locks? at hl
  unfold unlocks? at hu
  cases hx : (m.thread t).control with
  | eval held op =>
    rw [hx] at hc hb hl hu
    obtain ⟨n, hn, hsight, hs⟩ := start_cases m t held op
    rw [advance, hx]
    dsimp only
    rw [hs]
    refine .startOp hn held (fun slot e he k => ?_) hc hb ((hsight.opLocks? held op).trans hl)
      ((hsight.opUnlocks? held op).trans hu)
    have hres := resolve_eq hsight.engines hsight.slots held slot
    have hd := hr.serves e k (known_of_resolve (hres.symm.trans he))
    exact ⟨_, (hn.moves.kept.same _ hd.lt_size).1.trans hd⟩
  | back o =>
    rw [hx] at hu
    cases hst : (m.thread t).stack with
    | nil =>
      rw [advance, hx, hst]
      exact .deals ((KeepsPins.emit .refl _).still (.stop ..))
    | cons f rest =>
      rw [hst] at hu
      cases hf : f.isGrace with
      | true =>
        cases f with
        | grace e k c target => exact .looks o e k c target rest hx hst
        | _ => cases hf
      | false =>
        rw [advance_back hx hst]
        refine .resume ((Approach.refl t m).pop hst) o ?_ hf
        rintro e k rfl
        cases hu

end GracePeriod.Machine
