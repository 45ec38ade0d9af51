import GracePeriod.Script

namespace GracePeriod.Machine

/-- The machine with more events before those of its trace. -/
def withPast (m : Machine) (l : List (Nat × Event)) : Machine := { m with trace := m.trace ++ l }

def afterPast {α : Type} (l : List (Nat × Event)) (q : Machine × α) : Machine × α :=
  (q.1.withPast l, q.2)

variable (m : Machine) (l : List (Nat × Event)) (t s e d : Nat) (k : Kind) (p : Access)

@[simp] theorem afterPast_fst {α : Type} (q : Machine × α) : (afterPast l q).1 = q.1.withPast l := rfl

@[simp] theorem afterPast_snd {α : Type} (q : Machine × α) : (afterPast l q).2 = q.2 := rfl

@[simp] theorem thread_withPast : (m.withPast l).thread t = m.thread t := rfl

@[simp] theorem engine_withPast : (m.withPast l).engine e = m.engine e := rfl

@[simp] theorem drain_withPast : (m.withPast l).drain d = m.drain d := rfl

@[simp] theorem scheduler_withPast : (m.withPast l).scheduler s = m.scheduler s := rfl

@[simp] theorem isLive_withPast : (m.withPast l).isLive t = m.isLive t := rfl

@[simp] theorem task?_withPast : (m.withPast l).task? t s = m.task? t s := rfl

@[simp] theorem taskId_withPast : (m.withPast l).taskId t s = m.taskId t s := rfl

@[simp] theorem task_withPast : (m.withPast l).task t s = m.task t s := rfl

@[simp] theorem skips_withPast : (m.withPast l).skips e = m.skips e := rfl

@[simp] theorem nests_withPast : (m.withPast l).nests t = m.nests t := rfl

@[simp] theorem readDepth_withPast : (m.withPast l).readDepth t e k = m.readDepth t e k := rfl

@[simp] theorem snapshot_withPast : (m.withPast l).snapshot t s = m.snapshot t s := rfl

@[simp] theorem isWorkerThread_withPast : (m.withPast l).isWorkerThread t d = m.isWorkerThread t d := rfl

@[simp] theorem isInhibited_withPast : (m.withPast l).isInhibited p s = m.isInhibited p s := rfl

@[simp] theorem tableEngine_withPast : (m.withPast l).tableEngine s = m.tableEngine s := rfl

@[simp] theorem resolve_withPast (o : Option Nat) : (m.withPast l).resolve o s = m.resolve o s := rfl

@[simp] theorem liveThread?_withPast (n : ThreadName) :
    (m.withPast l).liveThread? n = m.liveThread? n := rfl

@[simp] theorem slotInUse_withPast : (m.withPast l).slotInUse s = m.slotInUse s := rfl

@[simp] theorem offered_withPast (c : Config) : (m.withPast l).offered c = m.offered c := rfl

@[simp] theorem surveyEngine_withPast : (m.withPast l).surveyEngine e k = m.surveyEngine e k := rfl

@[simp] theorem isIdle_withPast : (m.withPast l).isIdle t = m.isIdle t := rfl

@[simp] theorem named_withPast : (m.withPast l).named = m.named := rfl

@[simp] theorem keys_withPast : (m.withPast l).keys = m.keys := rfl

@[simp] theorem bareTask_withPast : (m.withPast l).bareTask = m.bareTask := rfl

@[simp] theorem turn_withPast : (m.withPast l).turn = m.turn := rfl

@[simp] theorem ready_withPast : (m.withPast l).ready = m.ready := rfl

@[simp] theorem hostWorkers_withPast : (m.withPast l).hostWorkers = m.hostWorkers := rfl

@[simp] theorem modifyThread_withPast (f : Thread → Thread) :
    (m.withPast l).modifyThread t f = (m.modifyThread t f).withPast l := rfl

@[simp] theorem modifyEngine_withPast (f : Engine → Engine) :
    (m.withPast l).modifyEngine e f = (m.modifyEngine e f).withPast l := rfl

@[simp] theorem modifyDrain_withPast (f : Drain → Drain) :
    (m.withPast l).modifyDrain d f = (m.modifyDrain d f).withPast l := rfl

@[simp] theorem modifyScheduler_withPast (f : Scheduler → Scheduler) :
    (m.withPast l).modifyScheduler s f = (m.modifyScheduler s f).withPast l := rfl

@[simp] theorem emit_withPast (v : Event) : (m.withPast l).emit t v = (m.emit t v).withPast l := rfl

@[simp] theorem log_withPast (v : Log) : (m.withPast l).log t v = (m.log t v).withPast l := rfl

@[simp] theorem mark_withPast (v : Mark) :
    (m.withPast l).mark t e k v = (m.mark t e k v).withPast l := rfl

@[simp] theorem push_withPast (f : Frame) : (m.withPast l).push t f = (m.push t f).withPast l := rfl

@[simp] theorem eval_withPast (held : Option Nat) (op : Op) :
    (m.withPast l).eval t held op = (m.eval t held op).withPast l := rfl

@[simp] theorem back_withPast (o : Outcome) : (m.withPast l).back t o = (m.back t o).withPast l := rfl

@[simp] theorem done_withPast : (m.withPast l).done t = (m.done t).withPast l := rfl

@[simp] theorem fail_withPast (f : Fault) : (m.withPast l).fail t f = (m.fail t f).withPast l := rfl

@[simp] theorem refuse_withPast (r : Refusal) :
    (m.withPast l).refuse t r = (m.refuse t r).withPast l := rfl

@[simp] theorem stop_withPast (x : Status) : (m.withPast l).stop t x = (m.stop t x).withPast l := rfl

@[simp] theorem park_withPast (x : Park) : (m.withPast l).park t x = (m.park t x).withPast l := rfl

@[simp] theorem wake_withPast : (m.withPast l).wake t = (m.wake t).withPast l := rfl

@[simp] theorem waitFor_withPast : (m.withPast l).waitFor t d = (m.waitFor t d).withPast l := rfl

@[simp] theorem spawn_withPast (x : Thread) :
    (m.withPast l).spawn x = ((m.spawn x).1, (m.spawn x).2.withPast l) := rfl

@[simp] theorem setTask_withPast (x : Task) :
    (m.withPast l).setTask t s x = (m.setTask t s x).withPast l := rfl

@[simp] theorem endPause_withPast (id : Nat) :
    (m.withPast l).endPause s id = (m.endPause s id).withPast l := rfl

@[simp] theorem setNests_withPast (ns : Nests) :
    (m.withPast l).setNests t ns = (m.setNests t ns).withPast l := rfl

@[simp] theorem setDepth_withPast (n : UInt32) :
    (m.withPast l).setDepth t e k n = (m.setDepth t e k n).withPast l := rfl

@[simp] theorem setDomain_withPast (x : Domain) :
    (m.withPast l).setDomain e k x = (m.setDomain e k x).withPast l := rfl

@[simp] theorem retain_withPast : (m.withPast l).retain e = (m.retain e).withPast l := rfl

@[simp] theorem answer_withPast {α : Type} (f : α → Result) (r : Except Fault α) :
    (m.withPast l).answer t f r = (m.answer t f r).withPast l := by
  cases r <;> rfl

@[simp] theorem enroll_withPast : (m.withPast l).enroll t s = (m.enroll t s).withPast l := by
  cases h : m.task? t s with
  | none =>
    simp [enroll, h]
    rfl
  | some _ => simp [enroll, h]

@[simp] theorem record_withPast (v : Event) :
    (m.withPast l).record t p v = (m.record t p v).withPast l := by
  cases h : p.recorded <;> simp [record, h]

@[simp] theorem changeTask_withPast (f : Task → Task) :
    (m.withPast l).changeTask t s f = (m.changeTask t s f).withPast l := by
  simp [changeTask]

@[simp] theorem sleep_withPast : (m.withPast l).sleep t s = (m.sleep t s).withPast l := by simp [sleep]

@[simp] theorem pin_withPast : (m.withPast l).pin t p = (m.pin t p).withPast l := by
  simp [pin]

@[simp] theorem unpin_withPast : (m.withPast l).unpin t p = afterPast l (m.unpin t p) := by
  simp [unpin, afterPast]

@[simp] theorem setPinDepth_withPast (n : UInt32) :
    (m.withPast l).setPinDepth t p n = (m.setPinDepth t p n).withPast l := by
  simp [setPinDepth]

@[simp] theorem bind_withPast (w : Nat) :
    (m.withPast l).bind t p w = afterPast l (m.bind t p w) := by
  cases h : ((m.record t p (.bind w)).scheduler p.scheduler).checkWorker w <;> simp [bind, afterPast, h]

@[simp] theorem unbind_withPast : (m.withPast l).unbind t p = (m.unbind t p).withPast l := by
  simp [unbind]

@[simp] theorem setPriority_withPast (q : Priority) :
    (m.withPast l).setPriority t p q = (m.setPriority t p q).withPast l := by
  simp [setPriority]

@[simp] theorem yield_withPast : (m.withPast l).yield t p = (m.yield t p).withPast l := by
  cases h : p.recorded <;> simp [yield, h]

@[simp] theorem pause_withPast (micros : Nat) :
    (m.withPast l).pause t p micros = (m.pause t p micros).withPast l := by
  cases h : p.recorded <;> simp [pause, h]

@[simp] theorem migrate_withPast (w : Nat) :
    (m.withPast l).migrate t s w = afterPast l (m.migrate t s w) := by
  cases h : (m.scheduler s).checkWorker w with
  | error f => simp [migrate, afterPast, h]
  | ok => cases hx : ((m.enroll t s).task t s).movable <;> simp [migrate, afterPast, h, hx]

@[simp] theorem orSelf_withPast (o : Option Nat) :
    (m.withPast l).orSelf t s o = afterPast l (m.orSelf t s o) := by
  cases o <;> simp [orSelf, afterPast]

@[simp] theorem callScheduler_withPast (c : SchedulerCall) :
    (m.withPast l).callScheduler t p c = (m.callScheduler t p c).withPast l := by
  cases c <;> simp [callScheduler]

@[simp] theorem callLogical_withPast (c : LogicalCall) :
    (m.withPast l).callLogical t s c = (m.callLogical t s c).withPast l := by
  cases c <;> simp [callLogical]

@[simp] theorem enterRecord_withPast :
    (m.withPast l).enterRecord t e k = afterPast l (m.enterRecord t e k) := by
  cases h : ((m.engine e).domain k).registeredRecord k (m.task t (m.engine e).access.scheduler).worker with
  | error f => simp [enterRecord, afterPast, h]
  | ok r =>
    cases hq : (r.enter ((m.engine e).domain k).epoch (m.taskId t (m.engine e).access.scheduler)).2 <;>
      simp [enterRecord, afterPast, h, hq]

@[simp] theorem deepen_withPast : (m.withPast l).deepen t e k = afterPast l (m.deepen t e k) := by
  by_cases hl : m.readDepth t e k = 0xFFFFFFFF
  · simp [deepen, afterPast, hl]
  · by_cases h : m.readDepth t e k = 0
    · simp [deepen, h]
    · simp [deepen, afterPast, hl, h]

@[simp] theorem openSection_withPast :
    (m.withPast l).openSection t e k = afterPast l (m.openSection t e k) := by
  cases h : (m.deepen t e k).2 <;> simp [openSection, afterPast, h]

@[simp] theorem readLock_withPast : (m.withPast l).readLock t e k = afterPast l (m.readLock t e k) := by
  cases h : m.skips e <;> simp [readLock, h]
  rfl

@[simp] theorem leaveRecord_withPast (i : Nat) :
    (m.withPast l).leaveRecord t e k i = afterPast l (m.leaveRecord t e k i) := by
  cases h : (((m.engine e).domain k).onRecord (((m.nests t).getD i default).worker.get k)
    (·.leave (((m.nests t).getD i default).slot.get k))).2 with
  | error f => simp [leaveRecord, afterPast, h, -List.getD_eq_getElem?_getD]
  | ok =>
    cases hi : ((m.nests t).getD i default).isIdle <;>
      simp [leaveRecord, afterPast, h, hi, -List.getD_eq_getElem?_getD]

@[simp] theorem closeSection_withPast :
    (m.withPast l).closeSection t e k = afterPast l (m.closeSection t e k) := by
  cases h : (m.nests t).openPosition e k with
  | none => simp [closeSection, afterPast, h]
  | some i =>
    by_cases hn : ((m.nests t).getD i default).depth.get k - 1 = 0 <;>
      simp [closeSection, afterPast, h, hn, -List.getD_eq_getElem?_getD]

@[simp] theorem readUnlock_withPast :
    (m.withPast l).readUnlock t e k = afterPast l (m.readUnlock t e k) := by
  cases hs : m.skips e with
  | true => simp [readUnlock, afterPast, hs]
  | false => cases h : (m.closeSection t e k).2 <;> simp [readUnlock, afterPast, hs, h]

@[simp] theorem restore_withPast (c : Snapshot) :
    (m.withPast l).restore t p c = (m.restore t p c).withPast l := by
  cases h : c.bound with
  | true => simp [restore, h]
  | false => by_cases hp : c.pinDepth = 0 <;> simp [restore, h, hp]

@[simp] theorem startSynchronize_withPast :
    (m.withPast l).startSynchronize t e k = (m.startSynchronize t e k).withPast l := by
  cases hs : m.skips e with
  | true => simp [startSynchronize, hs]
  | false => by_cases h : m.readDepth t e k = 0 <;> simp [startSynchronize, hs, h]

@[simp] theorem surveyReaders_withPast (ids : List Nat) :
    (m.withPast l).surveyReaders p ids = m.surveyReaders p ids := by
  induction ids with
  | nil => rfl
  | cons id rest ih => simp only [surveyReaders, scheduler_withPast, isInhibited_withPast, ih]

@[simp] theorem endSynchronize_withPast (c : Snapshot) :
    (m.withPast l).endSynchronize t e k c = (m.endSynchronize t e k c).withPast l := by
  simp [endSynchronize]

@[simp] theorem abortSynchronize_withPast (c : Snapshot) (x : Payload) :
    (m.withPast l).abortSynchronize t e k c x = (m.abortSynchronize t e k c x).withPast l := by
  simp [abortSynchronize]

@[simp] theorem locateBlocker_withPast (c : Snapshot) (target : UInt32) :
    (m.withPast l).locateBlocker t e k c target = (m.locateBlocker t e k c target).withPast l := by
  cases h : ((m.engine e).domain k).firstBlocker? target with
  | none => simp [locateBlocker, h]
  | some w =>
    by_cases hw : w = (m.task t (m.engine e).access.scheduler).worker
    · subst hw
      cases hr : m.surveyReaders (m.engine e).access (((m.engine e).domain k).records.get
        (m.task t (m.engine e).access.scheduler).worker).tasks with
      | error f => simp [locateBlocker, h, hr]
      | ok r => cases ha : r.2 <;> simp [locateBlocker, h, hr, ha]
    · cases hb : (((m.log t (.graceMoving k w)).setPriority t (m.engine e).access .highest).bind t
        (m.engine e).access w).2 <;> simp [locateBlocker, h, hw, hb]

@[simp] theorem wakeAll_withPast (ts : List Nat) :
    (m.withPast l).wakeAll ts = (m.wakeAll ts).withPast l := by
  induction ts generalizing m with
  | nil => rfl
  | cons t ts ih => exact ih (m.wake t)

@[simp] theorem notify_withPast : (m.withPast l).notify d = (m.notify d).withPast l := by
  simp [notify]

@[simp] theorem requestPass_withPast : (m.withPast l).requestPass d = (m.requestPass d).withPast l := by
  simp [requestPass]

@[simp] theorem enqueue_withPast (c : Callback) :
    (m.withPast l).enqueue t e k c = (m.enqueue t e k c).withPast l := by
  cases h : c.holdsHandle <;> simp [enqueue, h]

@[simp] theorem startDrain_withPast : (m.withPast l).startDrain t d = (m.startDrain t d).withPast l := by
  cases h : m.isWorkerThread t d <;> simp [startDrain, h]

@[simp] theorem resumeAwait_withPast (n : Nat) :
    (m.withPast l).resumeAwait t d n = (m.resumeAwait t d n).withPast l := by
  cases h : (m.drain d).tickets.covers n <;> simp [resumeAwait, h]

@[simp] theorem startBarrier_withPast :
    (m.withPast l).startBarrier t e k = (m.startBarrier t e k).withPast l := by
  cases h : m.isWorkerThread t ((m.engine e).drains.get k) <;> simp [startBarrier, h]

@[simp] theorem runCallbackBody_withPast (held : Option Nat) (ops : List Op) :
    (m.withPast l).runCallbackBody t held ops = (m.runCallbackBody t held ops).withPast l := by
  cases ops <;> rfl

@[simp] theorem runCallback_withPast (c : Callback) :
    (m.withPast l).runCallback t e c = (m.runCallback t e c).withPast l := by
  cases c with
  | destroy size id => by_cases h : id = some Callback.stubbornId <;> simp [runCallback, h]
  | call id hold body => cases hold <;> simp [runCallback]

@[simp] theorem runBatch_withPast (batch : List Callback) :
    (m.withPast l).runBatch t e k batch = (m.runBatch t e k batch).withPast l := by
  cases batch <;> simp [runBatch]

@[simp] theorem endCallback_withPast (rest : List Callback) (o : Outcome) :
    (m.withPast l).endCallback t e k rest o = (m.endCallback t e k rest o).withPast l := by
  cases o <;> simp [endCallback]

@[simp] theorem discardBatch_withPast (batch : List Callback) (o : Outcome) :
    (m.withPast l).discardBatch t e batch o = (m.discardBatch t e batch o).withPast l := by
  unfold discardBatch
  induction batch.filter Callback.holdsHandle generalizing m with
  | nil => rfl
  | cons _ rest ih => exact ih (m.push t (.release e))

@[simp] theorem resumeDetached_withPast (batch : List Callback) (o : Outcome) :
    (m.withPast l).resumeDetached t e k batch o = (m.resumeDetached t e k batch o).withPast l := by
  cases o <;> simp [resumeDetached]

@[simp] theorem runCallbacks_withPast :
    (m.withPast l).runCallbacks t e k = (m.runCallbacks t e k).withPast l := by
  cases h : (m.engine e).queue k <;> simp [runCallbacks, h]

@[simp] theorem runScripted_withPast (i : Nat) (word : String) :
    (m.withPast l).runScripted t d i word = (m.runScripted t d i word).withPast l := by
  simp only [runScripted, emit_withPast, drain_withPast]
  split <;> simp

@[simp] theorem startPass_withPast : (m.withPast l).startPass t d = (m.startPass t d).withPast l := by
  simp only [startPass, drain_withPast, modifyDrain_withPast]
  split <;> simp

theorem foldl_release_withPast (tasks : List (Nat × Nat)) :
    tasks.foldl (fun m p => m.modifyScheduler p.1 (·.release p.2)) (m.withPast l) =
      (tasks.foldl (fun m p => m.modifyScheduler p.1 (·.release p.2)) m).withPast l := by
  induction tasks generalizing m with
  | nil => rfl
  | cons p rest ih => exact ih (m.modifyScheduler p.1 (·.release p.2))

@[simp] theorem endThread_withPast (panic : Option Payload) :
    (m.withPast l).endThread t panic = (m.endThread t panic).withPast l := by
  simp only [endThread, thread_withPast, foldl_release_withPast, modifyThread_withPast]
  exact congrArg (fun n : Machine => { n with turn := none }) (wakeAll_withPast ..)

@[simp] theorem workerLoop_withPast : (m.withPast l).workerLoop t d = (m.workerLoop t d).withPast l := by
  cases h : (m.drain d).tickets.duty <;> simp [workerLoop, h]

@[simp] theorem resumeWorker_withPast (ticket : Option Nat) (o : Outcome) :
    (m.withPast l).resumeWorker t d ticket o = (m.resumeWorker t d ticket o).withPast l := by
  cases o <;> cases ticket <;> simp [resumeWorker]

@[simp] theorem join_withPast (u : Nat) : (m.withPast l).join t u = (m.join t u).withPast l := by
  cases h : (m.stop t (.joining u)).isLive u <;> simp [join, h]

@[simp] theorem shutdown_withPast (drains : List Nat) (o : Outcome) :
    (m.withPast l).shutdown t drains o = (m.shutdown t drains o).withPast l := by
  cases drains with
  | nil => rfl
  | cons d rest =>
    simp only [shutdown, modifyDrain_withPast, notify_withPast, drain_withPast]
    generalize (m.modifyDrain d _).notify d = n
    by_cases h : (n.drain d).thread = t <;> simp [h]

@[simp] theorem resumeJoined_withPast (rest : List Nat) (o : Outcome) :
    (m.withPast l).resumeJoined t d rest o = (m.resumeJoined t d rest o).withPast l := by
  unfold resumeJoined
  rw [drain_withPast, thread_withPast]
  dsimp only
  split <;> rfl

@[simp] theorem releaseHandle_withPast (o : Outcome) :
    (m.withPast l).releaseHandle t e o = (m.releaseHandle t e o).withPast l := by
  by_cases h : (m.engine e).handles - 1 = 0 <;> simp [releaseHandle, h]

@[simp] theorem releaseTask_withPast (o : Outcome) :
    (m.withPast l).releaseTask t d o = (m.releaseTask t d o).withPast l := by
  by_cases h : (m.drain d).holders - 1 = 0 <;> simp [releaseTask, h]

theorem withEngine_withPast (held : Option Nat) {f : Machine → Nat → Machine}
    (hf : ∀ n e, f (n.withPast l) e = (f n e).withPast l) :
    (m.withPast l).withEngine t held s f = (m.withEngine t held s f).withPast l := by
  cases h : m.resolve held s <;> simp [withEngine, h, hf]

@[simp] theorem withScheduler_withPast (f : Machine) :
    (m.withPast l).withScheduler t s (f.withPast l) = (m.withScheduler t s f).withPast l := by
  by_cases h : s < m.named
  · rw [withScheduler, withScheduler, if_pos h]
    exact if_pos h
  · rw [withScheduler, withScheduler, if_neg h]
    exact if_neg h

@[simp] theorem startEngine_withPast (slot : Option Nat) (c : Config) :
    (m.withPast l).startEngine slot c p =
      ((m.startEngine slot c p).1, (m.startEngine slot c p).2.withPast l) := rfl

@[simp] theorem accessFor_withPast (c : Config) (n : Nat) :
    (m.withPast l).accessFor c n = ((m.accessFor c n).1.withPast l, (m.accessFor c n).2) := by
  unfold accessFor
  cases c.scheduler <;> rfl

@[simp] theorem buildEngine_withPast (slot : Option Nat) (c : Config) :
    (m.withPast l).buildEngine t slot c =
      (m.buildEngine t slot c).map fun q => (q.1, q.2.1, q.2.2.withPast l) := by
  simp only [buildEngine, offered_withPast, accessFor_withPast, startEngine_withPast, log_withPast]
  rw [hostWorkers_withPast]
  cases c.workerCount (m.offered c) m.hostWorkers <;> rfl

theorem build_withPast (c : Config) : (m.withPast l).build t s c = (m.build t s c).withPast l := by
  obtain ⟨n, hn⟩ : ∃ n : Machine, n = { m with slots := m.slots.modify s id } := ⟨_, rfl⟩
  have hp : n.withPast l = { m.withPast l with slots := (m.withPast l).slots.modify s id } := hn ▸ rfl
  simp only [build, ← hn, ← hp]
  rw [named_withPast]
  generalize c.scheduler.any (m.named ≤ ·) = b
  cases hs : n.slotInUse s with
  | true => simp [hs]
  | false =>
    cases b with
    | true => simp [hs]
    | false =>
      cases hb : n.buildEngine t (some s) c <;> simp [hs, hb, Except.map]
      rfl

theorem buildDefault_withPast : (m.withPast l).buildDefault t k = (m.buildDefault t k).withPast l := by
  cases h : m.buildEngine t none {} with
  | error f => simp [buildDefault, h, Except.map]
  | ok q => simp [buildDefault, h, Except.map]

theorem clone_withPast (held : Option Nat) :
    (m.withPast l).clone t held s = (m.clone t held s).withPast l := by
  cases h : m.resolve held s <;> simp [clone, h]
  rfl

theorem dropHandle_withPast : (m.withPast l).dropHandle t s = (m.dropHandle t s).withPast l := by
  cases h : m.tableEngine s with
  | none => simp [dropHandle, h]
  | some e =>
    simp only [dropHandle, tableEngine_withPast, h]
    exact releaseHandle_withPast { m with slots := _ } ..

@[simp] theorem askRecord_withPast {α : Type} (w : Nat) (f : α → Result) (g : WorkerRecord → α) :
    (m.withPast l).askRecord t e k w f g = (m.askRecord t e k w f g).withPast l := by
  simp [askRecord]

@[simp] theorem register_withPast (w : Nat) :
    (m.withPast l).register t e k w = (m.register t e k w).withPast l := by
  cases h : (((m.engine e).domain k).register w).2 with
  | error f => simp [register, h]
  | ok b => cases b <;> simp [register, h]

@[simp] theorem srcuLock_withPast (key : String) :
    (m.withPast l).srcuLock t e key = (m.srcuLock t e key).withPast l := by
  cases h : (m.readLock t e .sleepable).2 <;> simp [srcuLock, h]
  rfl

@[simp] theorem srcuUnlock_withPast (key : String) :
    (m.withPast l).srcuUnlock t e key = (m.srcuUnlock t e key).withPast l := by
  unfold srcuUnlock
  rw [keys_withPast, readDepth_withPast]
  cases m.keys.lookup key with
  | none => rfl
  | some n =>
    by_cases h : (n = 0 || n = m.readDepth t e .sleepable) = true <;> simp [h]

theorem callHandle_withPast (c : HandleCall) :
    (m.withPast l).callHandle t e c = (m.callHandle t e c).withPast l := by
  cases c with
  | deferContainer k id size offset =>
    by_cases h : max (Callback.valueSize size) 1 ≤ offset <;> simp [callHandle, h]
  | _ => simp [callHandle]

@[simp] theorem runGuardBody_withPast (held : Option Nat) (rs : List Result) (body : List Op) :
    (m.withPast l).runGuardBody t held k rs body = (m.runGuardBody t held k rs body).withPast l := by
  cases body <;> rfl

theorem startGuard_withPast (held : Option Nat) (body : List Op) :
    (m.withPast l).startGuard t e held k body = (m.startGuard t e held k body).withPast l := by
  cases h : (m.readLock t e k).2 <;> simp [startGuard, h]

theorem callTask_withPast (c : TaskCall) : (m.withPast l).callTask t c = (m.callTask t c).withPast l := by
  unfold callTask
  rw [bareTask_withPast]
  cases c with
  | spawn name passes =>
    cases h : m.bareTask.isSome || (m.liveThread? .bare).isSome <;> simp [h]
    rfl
  | drop =>
    cases m.bareTask with
    | none => rfl
    | some d => exact releaseTask_withPast { m with bareTask := none } ..
  | _ => cases m.bareTask <;> simp

theorem startOp_withPast (held : Option Nat) (op : Op) :
    (m.withPast l).startOp t held op = (m.startOp t held op).withPast l := by
  cases op with
  | build slot c => exact build_withPast ..
  | buildDefault k => exact buildDefault_withPast ..
  | clone slot => exact clone_withPast ..
  | dropHandle slot => exact dropHandle_withPast ..
  | handle slot c =>
    exact withEngine_withPast m l t slot held (f := fun m e => m.callHandle t e c)
      (callHandle_withPast · l t · c)
  | call slot srcu k id hold body =>
    exact withEngine_withPast m l t slot held (f := fun m e => (m.enqueue t e k (.call id hold body)).done t)
      fun n e => by simp
  | guard slot srcu k caught body =>
    exact withEngine_withPast m l t slot held (f := fun m e => m.startGuard t e held k body)
      (startGuard_withPast · l t · k held body)
  | engineScheduler slot c =>
    exact withEngine_withPast m l t slot held (f := fun m e => m.callScheduler t (m.engine e).access c)
      fun n e => callScheduler_withPast n l t (n.engine e).access c
  | task c => exact callTask_withPast ..
  | _ => simp [startOp]

theorem start_withPast (held : Option Nat) (op : Op) :
    (m.withPast l).start t held op = (m.start t held op).withPast l := by
  cases h : op.isCaught <;> simp [start, h, startOp_withPast]

theorem resume_withPast (o : Outcome) (f : Frame) :
    (m.withPast l).resume t o f = (m.resume t o f).withPast l := by
  cases f with
  | leave e k => cases h : (m.readUnlock t e k).2 <;> simp [resume, h]
  | attempt => cases o <;> simp [resume]
  | guardBody => cases o <;> simp [resume]
  | callbackBody => cases o <;> simp [resume]
  | grace => cases o <;> simp [resume]
  | barrier => cases o <;> simp [resume]
  | barrierEnd => cases o <;> simp [resume]
  | await => cases o <;> simp [resume]
  | shutdown => cases o <;> simp [resume]
  | joined => cases o <;> simp [resume]
  | _ => simp [resume]

theorem advance_withPast : (m.withPast l).advance t = (m.advance t).withPast l := by
  unfold advance
  simp only [thread_withPast]
  split
  · exact start_withPast ..
  · rfl
  · rw [modifyThread_withPast, resume_withPast]

theorem step_withPast : (m.withPast l).step = m.step.map (·.withPast l) := by
  unfold step
  rw [turn_withPast, ready_withPast]
  split
  · exact congrArg some (advance_withPast ..)
  · rfl
  · rfl

theorem run_withPast (fuel : Nat) : (m.withPast l).run fuel = (m.run fuel).withPast l := by
  induction fuel generalizing m with
  | zero => rfl
  | succ fuel ih =>
    simp only [run, step_withPast]
    cases m.step with
    | none => rfl
    | some n => exact ih n

@[simp] theorem parkedThreads_withPast : (m.withPast l).parkedThreads = m.parkedThreads := rfl

@[simp] theorem actor_withPast (i : Nat) :
    (m.withPast l).actor i = ((m.actor i).1, (m.actor i).2.withPast l) := by
  cases h : m.liveThread? (.actor i) <;> simp [actor, h]

theorem begin_withPast (x : Script.Step) : (m.withPast l).begin x = afterPast l (m.begin x) := by
  cases x with
  | resume who panic =>
    have hw : (m.withPast l).parkedThreads.find? (fun t => ((m.withPast l).thread t).name.text = who) =
        m.parkedThreads.find? fun t => (m.thread t).name.text = who := rfl
    simp only [begin, hw]
    cases m.parkedThreads.find? fun t => (m.thread t).name.text = who with
    | none => rfl
    | some t => cases panic <;> rfl
  | resumeAll => simp [begin, afterPast]
  | exit i => cases h : (m.actor i).2.isIdle (m.actor i).1 <;> simp [begin, afterPast, h]
  | act i op => cases h : (m.actor i).2.isIdle (m.actor i).1 <;> simp [begin, afterPast, h]

theorem perform_withPast (x : Script.Step) : (m.withPast l).perform x = afterPast l (m.perform x) := by
  simp only [perform, begin_withPast, settle, afterPast_fst, run_withPast]
  rfl

def play (m : Machine) (steps : List Script.Step) : Machine := steps.foldl (fun n x => (n.perform x).1) m

theorem play_withPast (steps : List Script.Step) : (m.withPast l).play steps = (m.play steps).withPast l := by
  induction steps generalizing m with
  | nil => rfl
  | cons x rest ih =>
    show ((m.withPast l).perform x).1.play rest = ((m.perform x).1.play rest).withPast l
    rw [perform_withPast]
    exact ih _

theorem report_withPast (log : Bool) (m' : Machine) (denied : Option Script.Denial) :
    Script.report log (m.withPast l) (m'.withPast l) denied = Script.report log m m' denied := by
  have hn : (m'.withPast l).trace.take ((m'.withPast l).trace.length - (m.withPast l).trace.length) =
      m'.trace.take (m'.trace.length - m.trace.length) := by
    simp only [withPast, List.length_append, Nat.add_sub_add_right]
    exact List.take_append_of_le_length (Nat.sub_le ..)
  simp only [Script.report, hn]
  rfl

/-- Nothing in the reports of a script tells what had happened before. -/
theorem script_withPast (log : Bool) (steps : List Script.Step) :
    Script.run log (m.withPast l) steps = Script.run log m steps := by
  induction steps generalizing m with
  | nil => rfl
  | cons x rest ih =>
    simp only [Script.run, perform_withPast, afterPast_fst, afterPast_snd, report_withPast, ih]

end GracePeriod.Machine
