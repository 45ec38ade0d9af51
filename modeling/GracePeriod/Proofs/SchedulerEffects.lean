import GracePeriod.Proofs.Reachable

namespace GracePeriod.Machine

/-- The nests, the engines and the trace are left alone. -/
structure KeepsEngines (m m' : Machine) : Prop where
  nests : ∀ u, m'.nests u = m.nests u
  engines : m'.engines = m.engines
  trace : m'.trace = m.trace

namespace KeepsEngines

variable {m m' : Machine}

theorem history (h : KeepsEngines m m') (e : Nat) (k : Kind) : m'.history e k = m.history e k :=
  congrArg (List.filterMap fun p : Nat × Event => (p.2.markFor e k).map (p.1, ·)) h.trace

theorem trans {m'' : Machine} (h : KeepsEngines m m') (h' : KeepsEngines m' m'') : KeepsEngines m m'' :=
  ⟨fun u => (h'.nests u).trans (h.nests u), h'.engines.trans h.engines, h'.trace.trans h.trace⟩

theorem control (m : Machine) (t : Nat) (c : Control) :
    KeepsEngines m (m.modifyThread t fun x => { x with control := c }) :=
  ⟨fun u => part_modifyThread Thread.nests m t u fun _ => rfl, rfl, rfl⟩

theorem stop (m : Machine) (t : Nat) (s : Status) : KeepsEngines m (m.stop t s) :=
  ⟨fun u => part_modifyThread Thread.nests m t u fun _ => rfl, rfl, rfl⟩

theorem wake (m : Machine) (t : Nat) : KeepsEngines m (m.wake t) :=
  ⟨fun u => part_modifyThread Thread.nests m t u fun _ => rfl, rfl, rfl⟩

theorem waitFor (m : Machine) (t d : Nat) : KeepsEngines m (m.waitFor t d) :=
  (control m t _).trans ⟨fun u => part_modifyThread Thread.nests _ t u fun _ => rfl, rfl, rfl⟩

theorem join (m : Machine) (t u : Nat) : KeepsEngines m (m.join t u) := by
  unfold Machine.join
  dsimp only
  split
  · exact stop ..
  · exact (stop ..).trans (wake ..)

theorem endThread (m : Machine) (t : Nat) (p : Option Payload) : KeepsEngines m (m.endThread t p) := by
  refine ⟨part_endThread Thread.nests (fun _ _ => rfl) (fun _ _ => rfl) m t p, ?_, ?_⟩
  · rw [endThread_eq, wakeAll_eq, bury_eq]
  · rw [endThread_eq, wakeAll_eq, bury_eq]

theorem spawn (m : Machine) {x : Thread} (hx : x.nests = []) : KeepsEngines m (m.spawn x).2 := by
  refine ⟨fun u => (congrArg Thread.nests (Table.get_push ..)).trans ?_, rfl, rfl⟩
  split
  · rename_i hs
    rw [hs, Machine.nests, thread_of_size_le (Nat.le_refl _)]
    exact hx
  · rfl

end KeepsEngines

theorem Leave.keepsEngines {m m' : Machine} {t : Nat} (h : Leave t m m') : KeepsEngines m m' := by
  cases h with
  | idle hs => exact .stop ..
  | park p => exact .stop ..
  | waitFor d => exact .waitFor ..
  | join u => exact .join ..
  | endThread p => exact .endThread ..

theorem External.keepsEngines {m m' : Machine} (h : External m m') : KeepsEngines m m' := by
  cases h with
  | actor i => exact .spawn _ rfl
  | resume h => exact .wake ..
  | fault h text => exact (KeepsEngines.control ..).trans (.wake ..)
  | instruct h op => exact (KeepsEngines.control ..).trans (.wake ..)
  | exit h => exact .endThread ..

/-- At most the schedulers, the tasks of threads and the trace have changed. -/
structure Served (m m' : Machine) : Prop where
  eq : m' = { m with schedulers := m'.schedulers, threads := m'.threads, trace := m'.trace }
  thread : ∀ u, ∃ l, m'.thread u = { m.thread u with tasks := l }
  history : ∀ e k, m'.history e k = m.history e k

namespace Served

variable {m m' m'' : Machine}

theorem refl (m : Machine) : Served m m := ⟨rfl, fun u => ⟨(m.thread u).tasks, rfl⟩, fun _ _ => rfl⟩

theorem trans (h : Served m m') (h' : Served m' m'') : Served m m'' := by
  refine ⟨?_, fun u => ?_, fun e k => (h'.history e k).trans (h.history e k)⟩
  · rw [h'.eq, h.eq]
  · obtain ⟨l, hl⟩ := h.thread u
    obtain ⟨l', hl'⟩ := h'.thread u
    exact ⟨l', by rw [hl', hl]⟩

theorem emit (m : Machine) (t : Nat) {v : Event} (hv : v.isMark = false) : Served m (m.emit t v) :=
  ⟨rfl, (refl m).thread, history_emit hv⟩

theorem log (m : Machine) (t : Nat) (l : Log) : Served m (m.log t l) := emit m t rfl

theorem record (m : Machine) (t : Nat) (p : Access) {v : Event} (hv : v.isMark = false) :
    Served m (m.record t p v) := by
  unfold Machine.record
  split
  · exact emit m t hv
  · exact refl m

theorem modifyScheduler (m : Machine) (s : Nat) (f : Scheduler → Scheduler) :
    Served m (m.modifyScheduler s f) := ⟨rfl, (refl m).thread, fun _ _ => rfl⟩

theorem enroll (m : Machine) (t s : Nat) : Served m (m.enroll t s) := by
  rcases enroll_cases m t s with ⟨-, h⟩ | ⟨-, h⟩
  · rw [h]
    exact refl m
  · rw [h]
    refine ⟨rfl, fun u => ?_, fun _ _ => rfl⟩
    rw [thread_modifyThread]
    split
    · exact ⟨_, rfl⟩
    · exact (refl m).thread u

theorem changeTask (m : Machine) (t s : Nat) (f : Task → Task) : Served m (m.changeTask t s f) :=
  (enroll m t s).trans (modifyScheduler ..)

theorem sleep (m : Machine) (t s : Nat) : Served m (m.sleep t s) :=
  (changeTask ..).trans (changeTask ..)

theorem pin (m : Machine) (t : Nat) (p : Access) : Served m (m.pin t p) :=
  (record m t p rfl).trans (changeTask ..)

theorem unpin (m : Machine) (t : Nat) (p : Access) : Served m (m.unpin t p).1 :=
  ((record m t p rfl).trans (enroll ..)).trans (modifyScheduler ..)

theorem setPinDepth (m : Machine) (t : Nat) (p : Access) (n : UInt32) :
    Served m (m.setPinDepth t p n) := (record m t p rfl).trans (changeTask ..)

theorem setPriority (m : Machine) (t : Nat) (p : Access) (q : Priority) :
    Served m (m.setPriority t p q) := (record m t p rfl).trans (changeTask ..)

theorem unbind (m : Machine) (t : Nat) (p : Access) : Served m (m.unbind t p) :=
  (record m t p rfl).trans (changeTask ..)

theorem bind (m : Machine) (t : Nat) (p : Access) (w : Nat) : Served m (m.bind t p w).1 := by
  have hr := record m t p (v := .bind w) rfl
  unfold Machine.bind
  dsimp only
  cases ((m.record t p (.bind w)).scheduler p.scheduler).checkWorker w with
  | error f => exact hr
  | ok u => exact hr.trans (changeTask _ t p.scheduler (·.bind w))

theorem restore (m : Machine) (t : Nat) (p : Access) (c : Snapshot) :
    Served m (m.restore t p c) := by
  have hm : Served m (if c.bound then (m.bind t p c.worker).1
      else (if c.pinDepth = 0 then m else (m.bind t p c.worker).1).unbind t p) := by
    split
    · exact bind ..
    · split
      · exact unbind ..
      · exact (bind ..).trans (unbind ..)
  exact hm.trans ((setPinDepth ..).trans (setPriority ..))

theorem part {β : Type} (h : Served m m') (p : Thread → β)
    (hp : ∀ x l, p { x with tasks := l } = p x) (u : Nat) : p (m'.thread u) = p (m.thread u) := by
  obtain ⟨l, hl⟩ := h.thread u
  rw [hl]
  exact hp ..

theorem stack (h : Served m m') (u : Nat) : (m'.thread u).stack = (m.thread u).stack :=
  h.part Thread.stack (fun _ _ => rfl) u

theorem nests (h : Served m m') (u : Nat) : m'.nests u = m.nests u :=
  h.part Thread.nests (fun _ _ => rfl) u

theorem engine (h : Served m m') (e : Nat) : m'.engine e = m.engine e := by
  rw [h.eq]
  rfl

end Served

end GracePeriod.Machine
