import GracePeriod.Proofs.Actions

namespace GracePeriod

theorem Config.workerCount_pos {c : Config} {offered : Option Nat} {host n : Nat}
    (h : c.workerCount offered host = .ok n) : 0 < n := by
  unfold workerCount at h
  dsimp only at h
  split at h
  · split at h
    · split at h
      · cases h
      · obtain rfl := Except.ok.inj h
        omega
    · cases h
  · split at h
    · cases h
    · obtain rfl := Except.ok.inj h
      omega

namespace Machine

variable {scope : Scope} {top : Option Frame} {t : Nat} {m₀ m : Machine}

/-- The frame belongs to a pass of a drain task over its domain, or to an operation. -/
def Runs (m : Machine) (d : Nat) (own : Option (Nat × Kind)) : Frame → Prop
  | .worker d' _ => d' = d ∧ (m.drain d').work.domain? = own
  | .detached e k _ | .batch e k _ => own = some (e, k)
  | .grace .. => False
  | _ => True

theorem exists_runs (m : Machine) {f : Frame} (hf : f.isGrace = false) :
    ∃ d own, m.Runs d own f := by
  cases f with
  | worker d ticket => exact ⟨d, _, rfl, rfl⟩
  | detached e k batch | batch e k rest => exact ⟨0, _, rfl⟩
  | grace => cases hf
  | _ => exact ⟨0, none, trivial⟩

def StartsIdle (m : Machine) (op : Op) : Prop :=
  ∀ slot c n, op = .build slot c → c.workerCount (m.offered c) m.hostWorkers = .ok n →
    c.StartsIdle n

namespace Actions

theorem buildEngine (h : Actions scope t m₀ m) {slot : Option Nat} {c : Config}
    (hc : ∀ n, c.workerCount (m.offered c) m.hostWorkers = .ok n → c.StartsIdle n)
    (hs : ∀ s, c.scheduler = some s → s < m.named)
    {e n : Nat} {m' : Machine} (hb : m.buildEngine t slot c = .ok (e, n, m')) :
    Actions scope t m₀ m' ∧ (m'.engine e).slot = slot := by
  unfold Machine.buildEngine at hb
  cases hn : c.workerCount (m.offered c) m.hostWorkers with
  | error f => rw [hn] at hb; cases hb
  | ok n' =>
    rw [hn] at hb
    simp only [Except.map, Except.ok.injEq, Prod.mk.injEq] at hb
    obtain ⟨rfl, -, rfl⟩ := hb
    have hpos := Config.workerCount_pos hn
    have ha : Actions scope t m₀ (m.accessFor c n').1 ∧ (m.accessFor c n').2.workers = n' ∧
        ((m.accessFor c n').2.scheduler < (m.accessFor c n').1.named ∨
          0 < ((m.accessFor c n').1.scheduler (m.accessFor c n').2.scheduler).workers) := by
      unfold Machine.accessFor
      cases hcs : c.scheduler with
      | none =>
        refine ⟨h.tail (.addScheduler m n' hpos), rfl, .inr ?_⟩
        rw [scheduler, Table.get_push, if_pos rfl]
        exact hpos
      | some s => exact ⟨h, rfl, .inl (hs s hcs)⟩
    obtain ⟨hd, hw, hr⟩ := ha
    have hi : c.StartsIdle (m.accessFor c n').2.workers := by
      rw [hw]
      exact hc n' hn
    refine ⟨Actions.log (hd.tail (.startEngine _ slot c _ hi hr)) _, ?_⟩
    exact congrArg Engine.slot ((Table.get_push ..).trans (if_pos rfl))

theorem setSlot (h : Actions scope t m₀ m) {e : Nat} (he : m.Known e) (slot n : Nat) :
    Actions scope t m₀ { m with slots := m.slots.set slot { engine := e, handles := n } } := by
  refine h.slots _ fun s e' he' => ?_
  unfold tableEngine at he'
  rw [Table.get_set] at he'
  split at he'
  · dsimp only at he'
    split at he'
    · cases he'
    · obtain rfl := Option.some.inj he'
      exact he
  · exact .inr ⟨s, he'⟩

theorem build (h : Actions scope t m₀ m) (slot : Nat) {c : Config}
    (hc : ∀ n, c.workerCount (m.offered c) m.hostWorkers = .ok n → c.StartsIdle n) :
    Actions scope t m₀ (m.build t slot c) := by
  have htable (s : Nat) : tableEngine { m with slots := m.slots.modify slot id } s =
      m.tableEngine s := by
    have hg : (m.slots.modify slot id).get s = m.slots.get s := by
      rw [Table.get_modify]
      split
      · rename_i hs
        rw [hs]
        rfl
      · rfl
    unfold tableEngine
    rw [hg]
  have hs := h.slots (m.slots.modify slot id) fun s e he => .inr ⟨s, (htable s).symm.trans he⟩
  unfold Machine.build
  dsimp only
  split
  · exact hs.refuse _
  · split
    · exact hs.refuse _
    · rename_i hnamed
      split
      · exact hs.back _
      · rename_i e n m' hb
        obtain ⟨hd, hslot⟩ := hs.buildEngine hc (fun s hcs => by simpa [hcs] using hnamed) hb
        have hk : m'.Known e := .inl (by rw [hslot]; exact Option.some_ne_none _)
        exact (hd.setSlot hk slot 1).back _

theorem buildDefault (h : Actions scope t m₀ m) (k : Kind) :
    ThreadTurn scope top t m₀ (m.buildDefault t k) := by
  unfold Machine.buildDefault
  split
  · exact .actions (h.back _)
  · rename_i hb
    exact (h.buildEngine (fun n _ => Config.startsIdle_of_length_le (c := {}) (by decide) n)
      nofun hb).1.releaseHandle _ _

theorem clone (h : Actions scope t m₀ m) (held : Option Nat) (slot : Nat) :
    Actions scope t m₀ (m.clone t held slot) := by
  unfold Machine.clone
  split
  · exact h.refuse _
  · rename_i e he
    exact ((h.retain e).setSlot ((known_of_resolve he).retain e) slot _).back _

theorem dropHandle (h : Actions scope t m₀ m) (slot : Nat) :
    ThreadTurn scope top t m₀ (m.dropHandle t slot) := by
  unfold Machine.dropHandle
  split
  · exact .actions (h.refuse _)
  · rename_i e he
    exact (h.setSlot (.inr ⟨slot, he⟩) slot _).releaseHandle _ _

theorem register (h : Actions scope t m₀ m) (e : Nat) (k : Kind) (w : Nat) :
    Actions scope t m₀ (m.register t e k w) := by
  have hr : Actions scope t m₀ (m.setDomain e k (((m.engine e).domain k).register w).1) :=
    h.tail (.register m e k w)
  unfold Machine.register
  dsimp only
  split
  · exact h.fail _
  · split
    · exact (hr.log _).back _
    · exact hr.back _

theorem srcuLock (h : Actions scope t m₀ m) (e : Nat) (key : String) :
    Actions scope t m₀ (m.srcuLock t e key) := by
  have hl := h.readLock e .sleepable
  unfold Machine.srcuLock
  dsimp only
  split
  · exact hl.fail _
  · exact (hl.keys _).back _

theorem srcuUnlock (h : Actions scope t m₀ m) (e : Nat) (key : String) :
    Actions scope t m₀ (m.srcuUnlock t e key) := by
  unfold Machine.srcuUnlock
  split
  · exact h.back _
  · split
    · exact (h.readUnlock e .sleepable).answer _ _
    · exact h.fail _

theorem callHandle (h : Actions scope t m₀ m) {e : Nat} (he : m.Known e) (c : HandleCall) :
    ThreadTurn scope top t m₀ (m.callHandle t e c) := by
  cases c with
  | register k w => exact .actions (h.register e k w)
  | isRegistered k w | activeReaders k w => exact .actions (h.answer _ _)
  | readLock k => exact .actions ((h.readLock e k).answer _ _)
  | readUnlock k => exact .actions ((h.readUnlock e k).answer _ _)
  | readDepth k | currentEpoch k | pending k | numWorkers | srcuDepth => exact .actions (h.back _)
  | synchronize k => exact .synchronize h e k
  | barrier k => exact .barrier h e k he
  | deferDrop k id size => exact .actions (h.enqueue he k _).done
  | deferContainer k id size offset =>
    unfold Machine.callHandle
    dsimp only
    split
    · exact .actions (h.fail _)
    · exact .actions (h.enqueue he k _).done
  | srcuLock key => exact .actions (h.srcuLock e key)
  | srcuUnlock key => exact .actions (h.srcuUnlock e key)
  | srcuSynchronize => exact .synchronize h e .sleepable
  | srcuBarrier => exact .barrier h e .sleepable he

theorem runGuardBody (h : Actions scope t m₀ m) (held : Option Nat) (k : Kind)
    (done : List Result) (ops : List Op) :
    Actions scope t m₀ (m.runGuardBody t held k done ops) := by
  cases ops with
  | nil => exact h.back _
  | cons op rest => exact (h.pushPlain rfl rfl).eval held op

theorem startGuard (h : Actions scope t m₀ m) (e : Nat) (held : Option Nat) (k : Kind)
    (body : List Op) : Actions scope t m₀ (m.startGuard t e held k body) := by
  have hl := h.readLock e k
  unfold Machine.startGuard
  generalize m.readLock t e k = q at hl
  dsimp only
  cases q.2 with
  | error f => exact hl.fail f
  | ok u => exact (hl.pushPlain rfl rfl).runGuardBody held k [] body

theorem callTask (h : Actions scope t m₀ m) (c : TaskCall) :
    ThreadTurn scope top t m₀ (m.callTask t c) := by
  unfold Machine.callTask
  cases c with
  | spawn name passes =>
    dsimp only
    split
    · exact .actions (h.refuse _)
    · exact .actions (Actions.done (h.tail (.spawnTask m name passes)))
  | enqueue =>
    cases hb : m.bareTask with
    | none => exact .actions (h.refuse _)
    | some d => exact .actions (h.requestPass (.inl hb)).done
  | drain =>
    cases m.bareTask with
    | none => exact .actions (h.refuse _)
    | some d =>
      have hd := h.count d (f := fun x => { x with holders := x.holders + 1 })
        (fun _ => ⟨rfl, rfl, rfl, rfl⟩) fun _ => rfl
      exact .actions ((hd.pushPlain rfl rfl).startDrain d)
  | isWorker =>
    cases m.bareTask with
    | none => exact .actions (h.refuse _)
    | some d => exact .actions (h.back _)
  | drop =>
    cases m.bareTask with
    | none => exact .actions (h.refuse _)
    | some d => exact Actions.releaseTask (h.tail (.dropTask m)) d _

theorem withEngine (h : Actions scope t m₀ m) (held : Option Nat) (slot : Nat)
    {f : Machine → Nat → Machine}
    (hf : ∀ m e, Actions scope t m₀ m → m.Known e → ThreadTurn scope top t m₀ (f m e)) :
    ThreadTurn scope top t m₀ (m.withEngine t held slot f) := by
  unfold Machine.withEngine
  split
  · exact .actions (h.refuse _)
  · rename_i e he
    refine hf _ _ ((h.retain e).pushPlain rfl rfl) ?_
    exact ((known_of_resolve he).retain e).of_eq rfl rfl

theorem withScheduler (h : Actions scope t m₀ m) (s : Nat) {m' : Machine}
    (hm : ThreadTurn scope top t m₀ m') : ThreadTurn scope top t m₀ (m.withScheduler t s m') := by
  unfold Machine.withScheduler
  split
  · exact hm
  · exact .actions (h.refuse _)

theorem startOp (h : Actions scope t m₀ m) (held : Option Nat) {op : Op} (hop : m.StartsIdle op) :
    ThreadTurn scope top t m₀ (m.startOp t held op) := by
  cases op with
  | build slot c => exact .actions (h.build slot fun n => hop slot c n rfl)
  | buildDefault k => exact h.buildDefault k
  | clone slot => exact .actions (h.clone held slot)
  | dropHandle slot => exact h.dropHandle slot
  | handle slot c => exact h.withEngine held slot fun _ e hm he => hm.callHandle he c
  | call slot srcu k id hold body =>
    exact h.withEngine held slot fun _ e hm he => .actions (hm.enqueue he k _).done
  | guard slot srcu k caught body =>
    exact h.withEngine held slot fun _ e hm _ => .actions (hm.startGuard e held k body)
  | engineScheduler slot c =>
    exact h.withEngine held slot fun m e hm _ => hm.callScheduler (m.engine e).access c
  | scheduler s c => exact h.withScheduler s (h.callScheduler _ c)
  | logical s c => exact h.withScheduler s (.actions (h.callLogical s c))
  | task c => exact h.callTask c
  | panic p | note text | threadName | unknown name => exact .actions (h.back _)
  | gate => exact h.park .gate

theorem start (h : Actions scope t m₀ m) (held : Option Nat) {op : Op} (hop : m.StartsIdle op) :
    ThreadTurn scope top t m₀ (m.start t held op) := by
  unfold Machine.start
  split
  · exact (h.pushPlain rfl rfl).startOp held hop
  · exact h.startOp held hop

theorem resumePlain (h : Actions scope t m₀ m) (o : Outcome) {f : Frame} (hf : f.isPlain = true) :
    ThreadTurn scope (some f) t m₀ (m.resume t o f) := by
  cases f with
  | attempt =>
    cases o with
    | ok r | error p => exact .actions (h.back _)
  | release e => exact h.releaseHandle e o
  | releaseTask d => exact h.releaseTask d o
  | leave e k =>
    have hu := h.readUnlock e k
    unfold Machine.resume
    dsimp only
    split
    · exact .actions (hu.fail _)
    · exact .actions (hu.back _)
  | guardBody held k done rest =>
    cases o with
    | error p => exact .actions (h.back _)
    | ok r => exact .actions (h.runGuardBody held k _ rest)
  | callbackBody held name rest =>
    cases o with
    | error p => exact .actions (h.back _)
    | ok r => exact .actions ((h.emit (.opEnded name r) rfl).runCallbackBody held rest)
  | barrier e k =>
    cases o with
    | error p => exact .actions (h.back _)
    | ok r => exact .drain h e k rfl
  | barrierEnd e k =>
    cases o with
    | error p => exact .actions (h.back _)
    | ok r => exact .returned h e k _ rfl
  | await d ticket =>
    cases o with
    | error p => exact .actions (h.back _)
    | ok r => exact h.resumeAwait d ticket
  | wake s id => exact .actions ((h.endPause s id).back o)
  | shutdown drains saved => exact h.shutdown drains saved
  | joined d drains saved => exact .actions (h.resumeJoined d drains saved)
  | grace | detached | batch | worker => cases hf

variable {d : Nat} {own : Option (Nat × Kind)} {e : Nat} {k : Kind}

theorem runBatch (h : Actions (.pass d (some (e, k))) t m₀ m) (batch : List Callback) :
    Actions (.pass d (some (e, k))) t m₀ (m.runBatch t e k batch) := by
  cases batch with
  | nil => exact h.done
  | cons c rest =>
    have hc : Actions (.pass d (some (e, k))) t m₀ (m.mark t e k (.callbackStarted c)) :=
      h.mark (decide_eq_true rfl) rfl
    exact (hc.push (f := .batch e k rest) (decide_eq_true rfl) rfl).runCallback e c

theorem endCallback (h : Actions (.pass d (some (e, k))) t m₀ m) (rest : List Callback)
    (o : Outcome) : Actions (.pass d (some (e, k))) t m₀ (m.endCallback t e k rest o) := by
  have he {m : Machine} (h : Actions (.pass d (some (e, k))) t m₀ m) :
      Actions (.pass d (some (e, k))) t m₀ (m.mark t e k .callbackEnded) :=
    h.mark (decide_eq_true rfl) rfl
  cases o with
  | ok r => exact (he h).runBatch rest
  | error p => exact (he (h.log _)).runBatch rest

theorem pushReleases (h : Actions scope t m₀ m) (e : Nat) (cs : List Callback) :
    Actions scope t m₀ (cs.foldl (fun m _ => m.push t (.release e)) m) := by
  induction cs generalizing m with
  | nil => exact h
  | cons c rest ih => exact ih (h.pushPlain rfl rfl)

theorem discardBatch (h : Actions scope t m₀ m) (e : Nat) (batch : List Callback) (o : Outcome) :
    Actions scope t m₀ (m.discardBatch t e batch o) := (h.pushReleases e _).back o

theorem resumeDetached (h : Actions (.pass d (some (e, k))) t m₀ m) (batch : List Callback)
    (o : Outcome) :
    Actions (.pass d (some (e, k))) t m₀ (m.resumeDetached t e k batch o) := by
  cases o with
  | error p => exact h.discardBatch e batch _
  | ok r => exact (h.log _).runBatch batch

theorem runCallbacks (h : Actions (.pass d (some (e, k))) t m₀ m) :
    ThreadTurn (.pass d (some (e, k))) top t m₀ (m.runCallbacks t e k) := by
  have hq : Actions (.pass d (some (e, k))) t m₀ (m.modifyEngine e fun x => x.setQueue k []) :=
    h.tail (.detach m e k (decide_eq_true rfl))
  unfold Machine.runCallbacks
  split
  · exact .actions h.done
  · exact .synchronize (hq.push (f := .detached e k _) (decide_eq_true rfl) rfl) e k

theorem startPass (h : Actions (.pass d own) t m₀ m) (hw : (m.drain d).work.domain? = own) :
    ThreadTurn (.pass d own) top t m₀ (m.startPass t d) := by
  have hd : Actions (.pass d own) t m₀
      (m.modifyDrain d fun x => { x with passes := (m.drain d).passes + 1 }) :=
    h.tail (.count m d _ (fun _ => ⟨rfl, rfl, rfl, rfl⟩) (.inr (decide_eq_true rfl)))
  have hwork := part_modifyDrain Drain.work m d d
    (f := fun x => { x with passes := (m.drain d).passes + 1 }) fun _ => rfl
  unfold Machine.startPass
  dsimp only
  rw [← hwork] at hw
  split
  · rename_i e k hcb
    rw [hcb] at hw
    obtain rfl : some (e, k) = own := hw
    exact hd.runCallbacks
  · rename_i words hsc
    exact hd.runScripted (by rw [hsc]; rfl) _ _

theorem workerLoop (h : Actions (.pass d own) t m₀ m) (hw : (m.drain d).work.domain? = own) :
    ThreadTurn (.pass d own) top t m₀ (m.workerLoop t d) := by
  have hpush (ticket : Option Nat) := h.push (f := .worker d ticket) (decide_eq_true rfl) rfl
  unfold Machine.workerLoop
  split
  · exact .ended h rfl none
  · exact (hpush none).waitFor d
  · exact (hpush _).startPass hw

theorem resumeWorker (h : Actions (.pass d own) t m₀ m) (hw : (m.drain d).work.domain? = own)
    (ticket : Option Nat) (o : Outcome) :
    ThreadTurn (.pass d own) top t m₀ (m.resumeWorker t d ticket o) := by
  cases o with
  | error p => exact .ended h rfl _
  | ok r =>
    cases ticket with
    | none => exact h.workerLoop hw
    | some n =>
      have hs (e : Nat) (k : Kind) (hd : (m.drain d).work.domain? = some (e, k)) :
          (Scope.pass d own).serves e k = true := decide_eq_true (hw.symm.trans hd)
      refine Actions.workerLoop (h.tail (.complete m d n hs (decide_eq_true rfl))) ?_
      rw [part_drain_notify Drain.work fun _ _ => rfl]
      exact (congrArg Work.domain? (part_modifyDrain Drain.work m d d
        (f := fun x => { x with tickets := x.tickets.complete n }) fun _ => rfl)).trans hw

theorem resumePass (h : Actions (.pass d own) t m₀ m) (o : Outcome) {f : Frame}
    (hf : m.Runs d own f) : ThreadTurn (.pass d own) (some f) t m₀ (m.resume t o f) := by
  by_cases hp : f.isPlain = true
  · exact h.resumePlain o hp
  cases f with
  | detached e k batch =>
    obtain rfl : own = some (e, k) := hf
    exact .actions (h.resumeDetached batch o)
  | batch e k rest =>
    obtain rfl : own = some (e, k) := hf
    exact .actions (h.endCallback rest o)
  | worker d' ticket =>
    obtain ⟨rfl, hw⟩ := hf
    exact h.resumeWorker hw ticket o
  | grace => exact hf.elim
  | _ => exact absurd rfl hp

theorem restore (h : Actions scope t m₀ m) (p : Access) (c : Snapshot) :
    Actions scope t m₀ (m.restore t p c) := by
  unfold Machine.restore
  split
  · exact ((h.bind p c.worker).setPinDepth p c.pinDepth).setPriority p c.priority
  · split
    · exact ((h.unbind p).setPinDepth p c.pinDepth).setPriority p c.priority
    · exact (((h.bind p c.worker).unbind p).setPinDepth p c.pinDepth).setPriority p c.priority

theorem advance (h : Actions .grace t m₀ m) (e : Nat) (k : Kind) :
    Actions .grace t m₀ ((m.setDomain e k ((m.engine e).domain k).advance).mark t e k
      (.advanced ((m.engine e).domain k).advance.epoch)) := h.tail (.advance m e k rfl)

theorem startSynchronize (h : Actions .grace t m₀ m) (e : Nat) (k : Kind) :
    Actions .grace t m₀ (m.startSynchronize t e k) := by
  unfold Machine.startSynchronize
  split
  · exact (h.skipped e k).done
  · split
    · exact h.fail _
    · have hm : Actions .grace t m₀ (m.mark t e k .synchronizeCalled) := h.mark rfl rfl
      have hu := (hm.enroll (m.engine e).access.scheduler).unbind (m.engine e).access
      have ha := ((hu.setPinDepth (m.engine e).access 0).bind (m.engine e).access
        ((m.mark t e k .synchronizeCalled).enroll t (m.engine e).access.scheduler |>.snapshot t
          (m.engine e).access.scheduler).worker).advance e k
      exact ((ha.log _).push rfl rfl).done

theorem endSynchronize (h : Actions .grace t m₀ m) (e : Nat) (k : Kind) (c : Snapshot) :
    Actions .grace t m₀ (m.endSynchronize t e k c) := by
  have hr := (h.log (.graceCompleted k)).restore (m.engine e).access c
  exact (hr.mark rfl rfl).done

theorem abortSynchronize (h : Actions .grace t m₀ m) (e : Nat) (k : Kind) (c : Snapshot)
    (p : Payload) : Actions .grace t m₀ (m.abortSynchronize t e k c p) := by
  have hr := h.restore (m.engine e).access c
  exact (hr.mark rfl rfl).back _

theorem locateBlocker (h : Actions .grace t m₀ m) (e : Nat) (k : Kind) (c : Snapshot)
    (target : UInt32) : ThreadTurn .grace top t m₀ (m.locateBlocker t e k c target) := by
  unfold Machine.locateBlocker
  dsimp only
  split
  · exact .actions (h.endSynchronize e k c)
  · split
    · have hp := h.push (f := .grace e k c target) rfl rfl
      split
      · exact .actions (h.abortSynchronize e k c _)
      · split
        · exact (hp.log _).pause _ _
        · exact (hp.setPriority _ _).yield _
    · rename_i w _ _
      have hb := ((h.log (.graceMoving k w)).setPriority (m.engine e).access .highest).bind
        (m.engine e).access w
      split
      · exact .actions (hb.abortSynchronize e k c _)
      · exact .actions (hb.push (f := .grace e k c target) rfl rfl).done

theorem resumeGrace (h : Actions .grace t m₀ m) (o : Outcome) (e : Nat) (k : Kind) (c : Snapshot)
    (target : UInt32) :
    ThreadTurn .grace (some (.grace e k c target)) t m₀ (m.resume t o (.grace e k c target)) := by
  cases o with
  | error p => exact .actions (h.abortSynchronize e k c p)
  | ok r => exact h.locateBlocker e k c target

end Actions

theorem Moves.startSynchronize (m : Machine) (t e : Nat) (k : Kind) :
    Moves .grace t m (m.startSynchronize t e k) :=
  Actions.moves (Actions.startSynchronize .refl e k)

/-- What actions preserve, and the marks and frames of barriers, is preserved by a turn; at its end, the
turn may be given away. -/
theorem ThreadTurn.preserves {P Q : Machine → Prop}
    (action : ∀ scope' n n', scope' = scope ∨ scope' = .plain ∨ scope' = .grace →
      Action scope' t n n' → P n → P n')
    (push : ∀ n f, f.isBarrier = true → P n → P (n.push t f))
    (mark : ∀ n e k v, v.isBarrier = true → P n → P (n.mark t e k v))
    (rest : ∀ n, P n → Q n) (leave : ∀ n n', Leave t n n' → P n → Q n')
    (h : ThreadTurn scope top t m₀ m) (hp : P m₀) : Q m := by
  have hactions {scope' : Scope} {n n' : Machine}
      (hs : scope' = scope ∨ scope' = .plain ∨ scope' = .grace) (h : Actions scope' t n n')
      (hp : P n) : P n' := by
    induction h with
    | refl => exact hp
    | tail _ hd ih => exact action _ _ _ hs hd ih
  have hown {n : Machine} (h : Actions scope t m₀ n) : P n := hactions (.inl rfl) h hp
  have hback {n : Machine} (o : Outcome) (hp : P n) : P (n.back t o) :=
    hactions (.inl rfl) (Actions.back .refl o) hp
  have hsync {n : Machine} (e : Nat) (k : Kind) (hp : P n) : P (n.startSynchronize t e k) :=
    hactions (.inr (.inr rfl)) (Actions.startSynchronize .refl e k) hp
  cases h with
  | actions h => exact rest _ (hown h)
  | leave h hl _ => exact leave _ _ hl (hown h)
  | ended h _ p => exact leave _ _ (.endThread _ p) (hown h)
  | synchronize h e k => exact rest _ (hsync e k (hown h))
  | barrier h e k _ =>
    refine rest _ ?_
    unfold Machine.startBarrier
    split
    · exact hback _ (hown h)
    · exact hsync e k (push _ _ rfl (mark _ e k _ rfl (hown h)))
  | drain h e k _ =>
    exact rest _ (hactions (.inr (.inl rfl)) (Actions.startDrain .refl _) (push _ _ rfl (hown h)))
  | returned h e k o _ => exact rest _ (hback o (mark _ e k _ rfl (hown h)))

theorem Move.mono (h : Move scope t m₀ m) : Move .all t m₀ m := by
  cases h with
  | control c => exact .control ..
  | push f hf => exact .push _ f (Scope.pushes_all f)
  | stack fs hs => exact .stack _ fs rfl
  | emit v hv => exact .emit _ v hv
  | mark e k v hv => exact .mark _ e k v (Scope.marks_all hv)
  | enroll s => exact .enroll ..
  | scheduler s f hf => exact .scheduler _ s f hf
  | addScheduler n => exact .addScheduler ..
  | handles e n => exact .handles ..
  | drain d f hf => exact .drain _ d f hf
  | notify d => exact .notify ..
  | tables slots keys task => exact .tables ..
  | register e k w => exact .register ..
  | openSection e k hs => exact .openSection _ e k hs
  | closeSection e k => exact .closeSection ..
  | advance e k => exact .advance ..
  | enqueue e k c => exact .enqueue ..
  | detach e k hs => exact .detach _ e k rfl
  | startEngine slot c p hc => exact .startEngine _ slot c p hc
  | spawnTask name passes => exact .spawnTask ..

theorem Moves.mono (h : Moves scope t m₀ m) : Moves .all t m₀ m :=
  Relation.ReflTransGen.mono (fun _ _ => Move.mono) _ _ h

theorem ThreadTurn.moves_or_leave (h : ThreadTurn scope top t m₀ m) :
    Moves .all t m₀ m ∨ ∃ n, Moves .all t m₀ n ∧ Leave t n m := by
  have hmoves {n : Machine} (h : Actions scope t m₀ n) : Moves .all t m₀ n := h.moves.mono
  cases h with
  | actions h => exact .inl (hmoves h)
  | leave h hl hs => exact .inr ⟨_, hmoves h, hl⟩
  | ended h hs p => exact .inr ⟨_, hmoves h, .endThread _ p⟩
  | synchronize h e k => exact .inl ((hmoves h).trans (Moves.startSynchronize _ t e k).mono)
  | barrier h e k hk =>
    unfold Machine.startBarrier
    split
    · exact .inl ((hmoves h).back _)
    · exact .inl ((((hmoves h).neutral e k rfl).pushPlain rfl).trans
        (Moves.startSynchronize _ t e k).mono)
  | drain h e k _ => exact .inl (((hmoves h).pushPlain rfl).startDrain _)
  | returned h e k o _ => exact .inl (((hmoves h).neutral e k rfl).back o)

/-- Whatever engine the next operation builds, its records start without readers. -/
def BuildsIdle (m : Machine) : Prop :=
  ∀ t held slot c n, m.turn = some t → (m.thread t).control = .eval held (.build slot c) →
    c.workerCount (m.offered c) m.hostWorkers = .ok n → c.StartsIdle n

theorem BuildsIdle.op (hb : m.BuildsIdle) (ht : m.turn = some t) {held : Option Nat} {op : Op}
    (hc : (m.thread t).control = .eval held op) : m.StartsIdle op :=
  fun slot c n hop => hb t held slot c n ht (hop ▸ hc)

theorem resume_turn (m : Machine) (t : Nat) (o : Outcome) (f : Frame) :
    Moves .all t m (m.resume t o f) ∨ ∃ n, Moves .all t m n ∧ Leave t n (m.resume t o f) := by
  by_cases hf : f.isGrace = true
  · cases f with
    | grace e k c target => exact (Actions.resumeGrace .refl o e k c target).moves_or_leave
    | _ => cases hf
  · obtain ⟨d, own, hr⟩ := m.exists_runs (Bool.eq_false_iff.2 hf)
    exact (Actions.resumePass .refl o hr).moves_or_leave

/-- What the thread that has the turn can do. -/
theorem advance_turn (hb : m.BuildsIdle) (ht : m.turn = some t) :
    Moves .all t m (m.advance t) ∨ ∃ n, Moves .all t m n ∧ Leave t n (m.advance t) := by
  have h : Moves .all t m m := .refl
  unfold Machine.advance
  dsimp only
  split
  · rename_i held op hx
    have hs : ThreadTurn .plain none t m (m.start t held op) := Actions.start .refl held (hb.op ht hx)
    exact hs.moves_or_leave
  · rename_i o hx hs
    exact .inr ⟨_, h.tail (.emit m (.finished _) rfl), .idle _ (by simpa [thread, emit] using hs)⟩
  · rename_i o f rest hx hs
    have hp : Moves .all t m (m.modifyThread t fun x => { x with stack := rest }) :=
      h.tail (.stack m rest rfl)
    rcases (resume_turn (m.modifyThread t fun x => { x with stack := rest }) t o f) with hr | ⟨n, hr, hl⟩
    · exact .inl (hp.trans hr)
    · exact .inr ⟨n, hp.trans hr, hl⟩

end Machine

end GracePeriod
