import GracePeriod.Proofs.Past
import GracePeriod.Proofs.Pins
import GracePeriod.Proofs.Rounds

namespace GracePeriod.Machine

variable {m : Machine} {t s e w : Nat} {k : Kind} {f : Fault} {held : Option Nat} {op : Op}

def unlockMisuse? (m : Machine) (t e : Nat) (k : Kind) : Option Fault :=
  if m.skips e = false ∧ m.readDepth t e k = 0 then some (.unlockOutside k) else none

def synchronizeMisuse? (m : Machine) (t e : Nat) (k : Kind) : Option Fault :=
  if m.skips e = false ∧ m.readDepth t e k ≠ 0 then some (.synchronizeInside k) else none

def barrierMisuse? (m : Machine) (t e : Nat) (k : Kind) : Option Fault :=
  if m.isWorkerThread t ((m.engine e).drains.get k) then some (.barrierFromCallback k)
  else m.synchronizeMisuse? t e k

def recordMisuse? (m : Machine) (e : Nat) (k : Kind) (w : Nat) : Option Fault :=
  if w < ((m.engine e).domain k).workers then none
  else some (.noRecord w ((m.engine e).domain k).workers)

/-- A key is for the innermost section, or from a time of halt. -/
def keyMisuse? (m : Machine) (t e : Nat) (key : String) : Option Fault :=
  (m.keys.lookup key).bind fun n =>
    if n = 0 ∨ n = m.readDepth t e .sleepable then m.unlockMisuse? t e .sleepable
    else some .keyOutOfOrder

def workerMisuse? (m : Machine) (s w : Nat) : Option Fault :=
  if w < (m.scheduler s).workers then none else some (.noSuchWorker w (m.scheduler s).workers)

def handleMisuse? (m : Machine) (t e : Nat) : HandleCall → Option Fault
  | .readUnlock k => m.unlockMisuse? t e k
  | .synchronize k => m.synchronizeMisuse? t e k
  | .srcuSynchronize => m.synchronizeMisuse? t e .sleepable
  | .barrier k => m.barrierMisuse? t e k
  | .srcuBarrier => m.barrierMisuse? t e .sleepable
  | .register k w | .isRegistered k w | .activeReaders k w => m.recordMisuse? e k w
  | .srcuUnlock key => m.keyMisuse? t e key
  | .deferContainer _ _ size offset =>
    let n := Callback.valueSize size
    if max n 1 ≤ offset then some (.offsetOutside offset n) else none
  | _ => none

/-- The fault of an operation of thread `t`, if it is misuse. -/
def misuse? (m : Machine) (t : Nat) (held : Option Nat) : Op → Option Fault
  | .handle slot c => (m.resolve held slot).bind fun e => m.handleMisuse? t e c
  | .engineScheduler slot (.bind w) =>
    (m.resolve held slot).bind fun e => m.workerMisuse? (m.engine e).access.scheduler w
  | .scheduler s (.bind w) | .logical s (.migrate w) =>
    if s < m.named then m.workerMisuse? s w else none
  | _ => none

theorem modifyThread_modifyThread (m : Machine) (t : Nat) (f g : Thread → Thread) :
    (m.modifyThread t f).modifyThread t g = m.modifyThread t fun x => g (f x) := by
  have h : (m.threads.modify t f).modify t g = m.threads.modify t fun x => g (f x) := by
    rw [Table.modify, Table.get_modify, if_pos rfl]
    exact Table.set_set ..
  exact congrArg (fun x => { m with threads := x }) h

theorem modifyThread_congr {f g : Thread → Thread} (h : f (m.thread t) = g (m.thread t)) :
    m.modifyThread t f = m.modifyThread t g :=
  congrArg (fun x => { m with threads := m.threads.set t x }) h

theorem back_back (m : Machine) (t : Nat) (o o' : Outcome) : (m.back t o).back t o' = m.back t o' :=
  modifyThread_modifyThread ..

theorem advance_push (m : Machine) (t : Nat) (g : Frame) (o : Outcome) :
    ((m.push t g).back t o).advance t = (m.back t o).resume t o g := by
  have hx : ((m.push t g).back t o).thread t =
      { m.thread t with stack := g :: (m.thread t).stack, control := .back o } :=
    (thread_modifyThread_self ..).trans (congrArg (fun x : Thread => { x with control := .back o })
      (thread_modifyThread_self ..))
  rw [advance_back (congrArg Thread.control hx) (congrArg Thread.stack hx)]
  refine congrArg (resume · t o g) ?_
  rw [back, push, modifyThread_modifyThread, modifyThread_modifyThread]
  exact modifyThread_congr rfl

theorem releaseHandle_retain (hh : 0 < (m.engine e).handles) (o : Outcome) :
    ((m.retain e).back t o).releaseHandle t e o = m.back t o := by
  have hlt : e < m.engines.size := by
    by_contra hge
    rw [engine, Table.get_of_size_le (Nat.le_of_not_lt hge)] at hh
    exact absurd hh (Nat.lt_irrefl 0)
  have hn : (((m.retain e).back t o).engine e).handles - 1 = (m.engine e).handles := by
    rw [show ((m.retain e).back t o).engine = (m.retain e).engine from rfl, handles_retain, if_pos rfl]
    rfl
  have hset : ((m.engines.modify e fun x => { x with handles := x.handles + 1 }).modify e
      fun x => { x with handles := (m.engine e).handles }) = m.engines := by
    rw [Table.modify, Table.get_modify, if_pos rfl]
    exact (Table.set_set ..).trans (Table.set_get hlt)
  rw [releaseHandle, hn, if_neg (Nat.ne_of_gt hh)]
  refine (back_back ({ m with engines := _ } : Machine) ..).trans ?_
  exact congrArg (fun x => { m with engines := x }.back t o) hset

/-- The operation starts, with the frame that catches its panic. -/
def attempting (m : Machine) (t : Nat) : Machine := m.push t .attempt

/-- It has got the handle that it works with. -/
def visiting (m : Machine) (t e : Nat) : Machine := ((m.attempting t).retain e).push t (.release e)

theorem run_push (ht : m.turn = some t) (g : Frame) (f : Fault) (j : Nat) :
    ((m.push t g).fail t f).run (j + 1) = ((m.fail t f).resume t (.error (.fault f)) g).run j := by
  rw [GraceWait.run_turn (m := (m.push t g).fail t f) ht]
  exact congrArg (run j) (advance_push m t g _)

theorem run_attempting (ht : m.turn = some t) (f : Fault) :
    ((m.attempting t).fail t f).run 1 = m.back t (.ok (.panicked (.fault f))) :=
  (run_push ht .attempt f 0).trans (back_back ..)

theorem run_visiting (ht : m.turn = some t) (hh : 0 < (m.engine e).handles) (f : Fault) :
    ((m.visiting t e).fail t f).run 2 = m.back t (.ok (.panicked (.fault f))) :=
  calc ((m.visiting t e).fail t f).run 2
    _ = ((((m.attempting t).retain e).fail t f).releaseHandle t e (.error (.fault f))).run 1 :=
      run_push (m := (m.attempting t).retain e) ht (.release e) f 1
    _ = ((m.attempting t).fail t f).run 1 :=
      congrArg (run 1) (releaseHandle_retain (m := m.attempting t) hh _)
    _ = m.back t (.ok (.panicked (.fault f))) := run_attempting ht f

theorem run_barrier (ht : m.turn = some t) (hh : 0 < (m.engine e).handles) (k : Kind) (f : Fault) :
    (((m.visiting t e).push t (.barrier e k)).fail t f).run 3 = m.back t (.ok (.panicked (.fault f))) :=
  calc (((m.visiting t e).push t (.barrier e k)).fail t f).run 3
    _ = (((m.visiting t e).fail t f).back t (.error (.fault f))).run 2 :=
      run_push (m := m.visiting t e) ht (.barrier e k) f 2
    _ = ((m.visiting t e).fail t f).run 2 := congrArg (run 2) (back_back ..)
    _ = m.back t (.ok (.panicked (.fault f))) := run_visiting ht hh f

theorem engine_visiting (m : Machine) (t e : Nat) :
    (m.visiting t e).engine e = { m.engine e with handles := (m.engine e).handles + 1 } :=
  (engine_modifyEngine ..).trans (if_pos rfl)

theorem nests_visiting (m : Machine) (t e u : Nat) : (m.visiting t e).nests u = m.nests u :=
  calc (m.visiting t e).nests u
    _ = (m.attempting t).nests u :=
      part_modifyThread Thread.nests ((m.attempting t).retain e) t u fun _ => rfl
    _ = m.nests u := part_modifyThread Thread.nests m t u fun _ => rfl

theorem skips_visiting (m : Machine) (t e : Nat) : (m.visiting t e).skips e = m.skips e := by
  rw [skips, engine_visiting]
  rfl

theorem readDepth_visiting (m : Machine) (t e : Nat) (k : Kind) :
    (m.visiting t e).readDepth t e k = m.readDepth t e k :=
  congrArg (Nests.depth · e k) (nests_visiting m t e t)

theorem handleMisuse?_visiting (m : Machine) (t e : Nat) (c : HandleCall) :
    (m.visiting t e).handleMisuse? t e c = m.handleMisuse? t e c := by
  have hd (k : Kind) : ((m.visiting t e).engine e).domain k = (m.engine e).domain k := by
    rw [engine_visiting]
    rfl
  have hw (k : Kind) : ((m.visiting t e).engine e).drains.get k = (m.engine e).drains.get k := by
    rw [engine_visiting]
  cases c <;> simp only [handleMisuse?, unlockMisuse?, synchronizeMisuse?, barrierMisuse?, recordMisuse?,
    keyMisuse?, skips_visiting, readDepth_visiting, hd, hw] <;> rfl

variable {n : Machine}

theorem readUnlock_of_misuse (hn : n.NestsUnique) (hf : n.unlockMisuse? t e k = some f) :
    n.readUnlock t e k = (n, .error f) := by
  obtain ⟨⟨hs, hd⟩, heq⟩ := Option.ite_none_right_eq_some.1 hf
  obtain rfl := Option.some.inj heq
  exact readUnlock_outside hs hd hn

theorem startSynchronize_of_misuse (hf : n.synchronizeMisuse? t e k = some f) :
    n.startSynchronize t e k = n.fail t f := by
  obtain ⟨⟨hs, hd⟩, heq⟩ := Option.ite_none_right_eq_some.1 hf
  obtain rfl := Option.some.inj heq
  simp [startSynchronize, hs, hd]

theorem startBarrier_of_misuse (hf : n.barrierMisuse? t e k = some f) :
    n.startBarrier t e k = n.fail t f ∨
      n.startBarrier t e k = ((n.mark t e k .barrierCalled).push t (.barrier e k)).fail t f := by
  unfold barrierMisuse? at hf
  unfold startBarrier
  split at hf
  · rename_i hw
    obtain rfl := Option.some.inj hf
    exact .inl (if_pos hw)
  · rename_i hw
    rw [if_neg hw]
    refine .inr (startSynchronize_of_misuse ?_)
    unfold synchronizeMisuse? at hf ⊢
    rw [← hf]
    refine if_congr (and_congr .rfl (not_congr (Eq.congr_left ?_))) rfl rfl
    exact congrArg (Nests.depth · e k)
      (part_modifyThread Thread.nests (n.mark t e k .barrierCalled) t t fun _ => rfl)

theorem record_of_misuse (hf : n.recordMisuse? e k w = some f) :
    ((n.engine e).domain k).record w = .error f := by
  obtain ⟨hw, heq⟩ := Option.ite_none_left_eq_some.1 hf
  rw [Domain.record, if_neg hw, ← Option.some.inj heq]

theorem checkWorker_of_misuse (hf : n.workerMisuse? s w = some f) :
    (n.scheduler s).checkWorker w = .error f := by
  obtain ⟨hw, heq⟩ := Option.ite_none_left_eq_some.1 hf
  rw [Scheduler.checkWorker, if_neg hw, ← Option.some.inj heq]

theorem callHandle_of_misuse (hn : n.NestsUnique) {c : HandleCall} (hf : n.handleMisuse? t e c = some f) :
    n.callHandle t e c = n.fail t f ∨
      ∃ k, n.callHandle t e c = ((n.mark t e k .barrierCalled).push t (.barrier e k)).fail t f := by
  cases c with
  | readUnlock k =>
    left
    simp only [callHandle, readUnlock_of_misuse hn hf]
    rfl
  | synchronize k => exact .inl (startSynchronize_of_misuse hf)
  | srcuSynchronize => exact .inl (startSynchronize_of_misuse hf)
  | barrier k => exact (startBarrier_of_misuse hf).imp_right fun h => ⟨k, h⟩
  | srcuBarrier => exact (startBarrier_of_misuse hf).imp_right fun h => ⟨.sleepable, h⟩
  | register k w =>
    left
    simp only [callHandle, register, Domain.register, Domain.onRecord, record_of_misuse hf]
  | isRegistered k w =>
    left
    simp only [callHandle, askRecord, record_of_misuse hf]
    rfl
  | activeReaders k w =>
    left
    simp only [callHandle, askRecord, record_of_misuse hf]
    rfl
  | srcuUnlock key =>
    left
    obtain ⟨d, hkey, hd⟩ := Option.bind_eq_some_iff.1 hf
    simp only [callHandle, srcuUnlock, hkey]
    split at hd
    · rename_i hfit
      rw [if_pos (by simpa using hfit), readUnlock_of_misuse hn hd]
      rfl
    · rename_i hfit
      rw [if_neg (by simpa using hfit), ← Option.some.inj hd]
  | deferContainer k id size offset =>
    left
    obtain ⟨ho, heq⟩ := Option.ite_none_right_eq_some.1 hf
    rw [callHandle, if_pos ho, ← Option.some.inj heq]
  | _ => cases hf

theorem bind_of_misuse {p : Access} (hf : n.workerMisuse? p.scheduler w = some f) :
    n.callScheduler t p (.bind w) = (n.record t p (.bind w)).fail t f := by
  have hc : ((n.record t p (.bind w)).scheduler p.scheduler).checkWorker w = .error f := by
    rw [← checkWorker_of_misuse hf]
    unfold record
    split <;> rfl
  simp only [callScheduler, bind, hc]
  rfl

theorem migrate_of_misuse (hf : n.workerMisuse? s w = some f) :
    n.callLogical t s (.migrate w) = n.fail t f := by
  simp only [callLogical, migrate, checkWorker_of_misuse hf]
  rfl

theorem advance_eval (hc : (m.thread t).control = .eval held op) : m.advance t = m.start t held op := by
  unfold advance
  simp only [hc]

/-- After at most four steps the failed call is over. -/
def Undone (m : Machine) (t : Nat) (f : Fault) (n : Nat) (vs : List (Nat × Event)) : Prop :=
  n ≤ 4 ∧ (∀ v ∈ vs, v.1 = t) ∧
    m.run n = { m with trace := vs ++ m.trace }.back t (.ok (.panicked (.fault f)))

theorem record_undone (m : Machine) (t : Nat) (p : Access) (v : Event) :
    ∃ vs : List (Nat × Event), (∀ x ∈ vs, x.1 = t) ∧ m.record t p v = { m with trace := vs ++ m.trace } := by
  unfold record
  split
  · exact ⟨[(t, v)], by simp, rfl⟩
  · exact ⟨[], by simp, rfl⟩

theorem handle_undone (hn : m.NestsUnique) (hh : 0 < (m.engine e).handles) (ht : m.turn = some t)
    {c : HandleCall} (ha : m.advance t = (m.visiting t e).callHandle t e c)
    (hf : m.handleMisuse? t e c = some f) : ∃ n vs, m.Undone t f n vs := by
  have hnv : (m.visiting t e).NestsUnique := fun u => by
    rw [nests_visiting]
    exact hn u
  rw [← handleMisuse?_visiting] at hf
  rcases callHandle_of_misuse hnv hf with hcall | ⟨k, hcall⟩
  · refine ⟨3, [], by decide, by simp, ?_⟩
    rw [GraceWait.run_turn ht, ha, hcall]
    exact run_visiting ht hh f
  · refine ⟨4, [(t, .mark e k .barrierCalled)], by decide, by simp, ?_⟩
    rw [GraceWait.run_turn ht, ha, hcall]
    exact run_barrier (m := m.mark t e k .barrierCalled) ht hh k f

theorem engineBind_undone (hh : 0 < (m.engine e).handles) (ht : m.turn = some t) {p : Access}
    (ha : m.advance t = (m.visiting t e).callScheduler t p (.bind w))
    (hf : m.workerMisuse? p.scheduler w = some f) : ∃ n vs, m.Undone t f n vs := by
  obtain ⟨vs, hvs, hr⟩ := record_undone (m.visiting t e) t p (.bind w)
  refine ⟨3, vs, by decide, hvs, ?_⟩
  rw [GraceWait.run_turn ht, ha, bind_of_misuse (n := m.visiting t e) hf, hr]
  exact run_visiting (m := { m with trace := vs ++ m.trace }) ht hh f

theorem bind_undone (ht : m.turn = some t) {p : Access}
    (ha : m.advance t = (m.attempting t).callScheduler t p (.bind w))
    (hf : m.workerMisuse? p.scheduler w = some f) : ∃ n vs, m.Undone t f n vs := by
  obtain ⟨vs, hvs, hr⟩ := record_undone (m.attempting t) t p (.bind w)
  refine ⟨2, vs, by decide, hvs, ?_⟩
  rw [GraceWait.run_turn ht, ha, bind_of_misuse (n := m.attempting t) hf, hr]
  exact run_attempting (m := { m with trace := vs ++ m.trace }) ht f

theorem migrate_undone (ht : m.turn = some t)
    (ha : m.advance t = (m.attempting t).callLogical t s (.migrate w))
    (hf : m.workerMisuse? s w = some f) : ∃ n vs, m.Undone t f n vs := by
  refine ⟨2, [], by decide, by simp, ?_⟩
  rw [GraceWait.run_turn ht, ha, migrate_of_misuse (n := m.attempting t) hf]
  exact run_attempting ht f

theorem Reachable.undone (h : Reachable m) (ht : m.turn = some t)
    (hc : (m.thread t).control = .eval held op) (hf : m.misuse? t held op = some f) :
    ∃ n vs, m.Undone t f n vs := by
  have hl := isLive_of_active (h.visited.orderly.turn t ht).1
  have hfinds := (h.handleInvariant.prepared (h.framesFit t) h.rooted hl).finds held op hc
  have ha := advance_eval hc
  have hengine {slot e : Nat} (hr : m.resolve held slot = some e) (g : Machine → Nat → Machine) :
      (m.attempting t).withEngine t held slot g = g (m.visiting t e) e :=
    withEngine_of_resolve (m := m.attempting t) hr g
  have hnamed {s : Nat} (hs : s < m.named) (n : Machine) : (m.attempting t).withScheduler t s n = n :=
    if_pos hs
  cases op with
  | handle slot c =>
    obtain ⟨e, hr, hf⟩ := Option.bind_eq_some_iff.1 hf
    have hcall := ha.trans (hengine hr fun m e => m.callHandle t e c)
    exact handle_undone h.visited.nestsUnique (hfinds slot e hr).1 ht hcall hf
  | engineScheduler slot c =>
    cases c with
    | bind w =>
      obtain ⟨e, hr, hf⟩ := Option.bind_eq_some_iff.1 hf
      have hcall := ha.trans (hengine hr fun m e => m.callScheduler t (m.engine e).access (.bind w))
      rw [engine_visiting] at hcall
      exact engineBind_undone (hfinds slot e hr).1 ht hcall hf
    | _ => cases hf
  | scheduler s c =>
    cases c with
    | bind w =>
      obtain ⟨hs, hf⟩ := Option.ite_none_right_eq_some.1 hf
      exact bind_undone ht (ha.trans (hnamed hs _)) hf
    | _ => cases hf
  | logical s c =>
    cases c with
    | migrate w =>
      obtain ⟨hs, hf⟩ := Option.ite_none_right_eq_some.1 hf
      exact migrate_undone ht (ha.trans (hnamed hs _)) hf
    | _ => cases hf
  | _ => cases hf

theorem run_add (m : Machine) (i j : Nat) : m.run (i + j) = (m.run i).run j := by
  induction i generalizing m with
  | zero => rw [Nat.zero_add, run]
  | succ i ih =>
    rw [Nat.succ_add, run, run]
    cases hs : m.step with
    | none => cases j <;> simp [run, hs]
    | some n => exact ih n

/-- A call that is misuse panics and changes nothing: after a few steps of its thread the machine is
the one before the call, up to what was reported and with the panic as the answer. However it goes
on from there, it goes on as it would if the call had answered so without having been made, with the
same events and the same reports. -/
theorem misuse_changes_nothing (h : Reachable m) (ht : m.turn = some t)
    (hc : (m.thread t).control = .eval held op) (hf : m.misuse? t held op = some f) :
    ∃ n vs, m.Undone t f n vs ∧ ∀ fuel steps, ∃ x : Machine,
      (m.run (n + fuel)).play steps = x.withPast (vs ++ m.trace) ∧
      ((m.back t (.ok (.panicked (.fault f)))).run fuel).play steps = x.withPast m.trace ∧
      ∀ log rest, Script.run log ((m.run (n + fuel)).play steps) rest =
        Script.run log (((m.back t (.ok (.panicked (.fault f)))).run fuel).play steps) rest := by
  obtain ⟨n, vs, hu⟩ := h.undone ht hc hf
  refine ⟨n, vs, hu, fun fuel steps => ?_⟩
  -- The machine that remembers nothing yet, which goes on in both ways of telling the past.
  obtain ⟨y, hy⟩ : ∃ y : Machine, y = { m with trace := [] }.back t (.ok (.panicked (.fault f))) := ⟨_, rfl⟩
  have hgoes (l : List (Nat × Event)) : ((y.withPast l).run fuel).play steps =
      ((y.run fuel).play steps).withPast l := by
    rw [run_withPast, play_withPast]
  have hcalled : m.run n = y.withPast (vs ++ m.trace) := hu.2.2.trans (hy ▸ rfl)
  have hskipped : m.back t (.ok (.panicked (.fault f))) = y.withPast m.trace := hy ▸ rfl
  rw [run_add, hcalled, hskipped, hgoes, hgoes]
  exact ⟨_, rfl, rfl, fun log rest => (script_withPast ..).trans (script_withPast ..).symm⟩

/-- A thread inside a section is about to ask for a barrier. -/
def trapped : Machine :=
  ((sample.perform (.act 0 (.handle 0 (.readLock .regular)))).1.begin
    (.act 0 (.handle 0 (.barrier .regular)))).1.run 1

theorem reachable_trapped : Reachable trapped :=
  ((reachable_sample.perform (.act 0 (.handle 0 (.readLock .regular))) (by decide +kernel)).begin
    (.act 0 (.handle 0 (.barrier .regular)))).run (by decide +kernel)

theorem trapped_barrier_changes_nothing :
    trapped.misuse? 0 none (.handle 0 (.barrier .regular)) = some (.synchronizeInside .regular) ∧
    ∃ n vs, trapped.Undone 0 (.synchronizeInside .regular) n vs ∧ ∀ fuel steps, ∃ x : Machine,
      (trapped.run (n + fuel)).play steps = x.withPast (vs ++ trapped.trace) ∧
      ((trapped.back 0 (.ok (.panicked (.fault (.synchronizeInside .regular))))).run fuel).play steps =
        x.withPast trapped.trace ∧
      ∀ log rest, Script.run log ((trapped.run (n + fuel)).play steps) rest = Script.run log
        (((trapped.back 0 (.ok (.panicked (.fault (.synchronizeInside .regular))))).run fuel).play steps)
          rest :=
  have hm : trapped.misuse? 0 none (.handle 0 (.barrier .regular)) = some (.synchronizeInside .regular) := by
    decide +kernel
  ⟨hm, misuse_changes_nothing reachable_trapped (by decide +kernel) rfl hm⟩

end GracePeriod.Machine
