import GracePeriod.Proofs.Clock
import GracePeriod.Proofs.ThreadFrames
import GracePeriod.Proofs.Marks

namespace GracePeriod

open History

def Frame.isWake : Frame → Bool
  | .wake .. => true
  | _ => false

namespace Machine

variable {m m' : Machine} {t u e : Nat} {k : Kind} {target : UInt32} {pre vs : History}

/-- Thread `t` has begun a grace period when the history was `pre`. -/
structure Waits (m : Machine) (t e : Nat) (k : Kind) (target : UInt32) (pre : History) : Prop where
  size : e < m.engines.size
  split : ∃ mid, m.history e k = mid ++ (t, .advanced target) :: (t, .synchronizeCalled) :: pre ∧
    (∀ p ∈ mid, p.1 ≠ t) ∧ (m.domain e k).epoch = target + UInt32.ofNat (advances mid)

theorem Waits.went (h : Waits m t e k target pre) (hw : Went e k vs m m')
    (hle : m.engines.size ≤ m'.engines.size) (hn : ∀ p ∈ vs, p.1 ≠ t) :
    Waits m' t e k target pre := by
  obtain ⟨mid, hh, hm, he⟩ := h.split
  refine ⟨Nat.lt_of_lt_of_le h.size hle, vs ++ mid, ?_, ?_, ?_⟩
  · rw [hw.history, hh, List.append_assoc]
  · exact fun p hp => (List.mem_append.1 hp).elim (hn p) (hm p)
  · rw [hw.epoch, he, advances_append, Nat.add_comm, UInt32.ofNat_add, UInt32.add_assoc]

def Clear (m : Machine) (t : Nat) : Prop := ∀ f ∈ (m.thread t).stack, f.isGrace = false

/-- Either the thread is in no grace period, or it is in one and does nothing but wait. -/
inductive GraceState (m : Machine) (t : Nat) : Prop
  | clear (h : Clear m t)
  | waiting (wakes rest : List Frame) (e : Nat) (k : Kind) (c : Snapshot) (target : UInt32)
      (pre : History) (hs : (m.thread t).stack = wakes ++ .grace e k c target :: rest)
      (hw : ∀ f ∈ wakes, f.isWake = true) (hr : ∀ f ∈ rest, f.isGrace = false)
      (hc : ∃ o, (m.thread t).control = .back o) (h : Waits m t e k target pre)

namespace GraceState

theorem keep (h : GraceState m t) (hs : (m'.thread t).stack = (m.thread t).stack)
    (hc : ∀ o, (m.thread t).control = .back o → ∃ o, (m'.thread t).control = .back o)
    (hle : m.engines.size ≤ m'.engines.size)
    (hw : ∀ e k, e < m.engines.size → ∃ vs, Went e k vs m m' ∧ ∀ p ∈ vs, p.1 ≠ t) :
    GraceState m' t := by
  cases h with
  | clear h => exact .clear fun f hf => h f (hs ▸ hf)
  | waiting wakes rest e k c target pre hs' hwk hr hc' h =>
    obtain ⟨o, ho⟩ := hc'
    obtain ⟨vs, hv, hn⟩ := hw e k h.size
    exact .waiting wakes rest e k c target pre (hs.trans hs') hwk hr (hc o ho) (h.went hv hle hn)

theorem keepsEngines (h : GraceState m t) (ha : KeepsEngines m m')
    (hs : (m'.thread t).stack = (m.thread t).stack)
    (hc : ∀ o, (m.thread t).control = .back o → ∃ o, (m'.thread t).control = .back o) :
    GraceState m' t :=
  h.keep hs hc (by rw [ha.engines]) fun e k _ => ⟨[], ha.went e k, nofun⟩

theorem waits {c : Snapshot} (h : GraceState m t) (hf : .grace e k c target ∈ (m.thread t).stack) :
    ∃ pre, Waits m t e k target pre := by
  cases h with
  | clear hc => cases hc _ hf
  | waiting wakes rest e' k' c' target' pre hs hw hr ho h =>
    rw [hs] at hf
    rcases List.mem_append.1 hf with hf | hf
    · cases hw _ hf
    · rcases List.mem_cons.1 hf with hf | hf
      · cases hf
        exact ⟨pre, h⟩
      · cases hr _ hf

end GraceState

/-- Thread `t` has put frames on its stack and goes on with an outcome; engines and histories
stay. -/
structure Rests (t : Nat) (fs : List Frame) (m m' : Machine) : Prop where
  stack : (m'.thread t).stack = fs ++ (m.thread t).stack
  control : ∃ r, (m'.thread t).control = .back (.ok r)
  engines : m'.engines = m.engines
  history : ∀ e k, m'.history e k = m.history e k

theorem Served.rests {fs : List Frame} {m'' : Machine} (h : Served m m') (hr : Rests t fs m' m'') :
    Rests t fs m m'' := by
  refine ⟨hr.stack.trans (congrArg _ (h.stack t)), hr.control, hr.engines.trans ?_,
    fun e k => (hr.history e k).trans (h.history e k)⟩
  rw [h.eq]

theorem Rests.of_push {f : Frame} {fs : List Frame} (h : Rests t fs (m.push t f) m') :
    Rests t (fs ++ [f]) m m' := by
  refine ⟨?_, h.control, h.engines, h.history⟩
  rw [h.stack, stack_push, List.append_assoc]
  rfl

theorem done_rests (m : Machine) (t : Nat) : Rests t [] m (m.done t) :=
  ⟨stack_back .., ⟨_, control_back ..⟩, rfl, fun _ _ => rfl⟩

theorem park_rests (m : Machine) (t : Nat) (p : Park) : Rests t [] m (m.park t p) :=
  ⟨(stack_stop ..).trans (stack_back ..), ⟨_, (control_stop ..).trans (control_back ..)⟩, rfl,
    fun _ _ => rfl⟩

theorem yield_rests (m : Machine) (t : Nat) (p : Access) : Rests t [] m (m.yield t p) := by
  unfold yield
  split
  · exact (Served.emit m t (v := .yield) rfl).rests (park_rests ..)
  · exact done_rests ..

theorem pause_rests (m : Machine) (t : Nat) (p : Access) (micros : Nat) :
    Rests t [] m (m.pause t p micros) ∨ ∃ id, Rests t [.wake p.scheduler id] m (m.pause t p micros) := by
  unfold pause
  dsimp only
  split
  · have hs := (Served.emit m t (v := .pause micros) rfl).trans
      (.changeTask _ t p.scheduler fun x => { x with paused := true })
    exact .inr ⟨_, hs.rests (Rests.of_push (park_rests _ t .pause))⟩
  · exact .inl ((Served.sleep ..).rests (done_rests ..))

/-- A look of a waiter fails: the worker that blocks it does not exist, or one of the tasks there
cannot be asked. -/
def Lost (m : Machine) (e : Nat) (k : Kind) (target : UInt32) : Prop :=
  ∃ w, (m.domain e k).firstBlocker? target = some w ∧
    ¬(w < (m.scheduler (m.engine e).access.scheduler).workers ∧
      ∃ q, m.surveyReaders (m.engine e).access ((m.domain e k).records.get w).tasks = .ok q)

theorem surveyReaders_eq (hs : m'.schedulers = m.schedulers) (p : Access) (ids : List Nat) :
    m'.surveyReaders p ids = m.surveyReaders p ids := by
  induction ids with
  | nil => rfl
  | cons id rest ih => simp only [surveyReaders, ih, scheduler, isInhibited, hs]

theorem Lost.of_eq (h : m'.Lost e k target) (he : m'.engines = m.engines)
    (hs : m'.schedulers = m.schedulers) : m.Lost e k target := by
  obtain ⟨w, hb, hw⟩ := h
  refine ⟨w, ?_, fun hc => hw ?_⟩
  · rwa [domain, engine, he] at hb
  · rw [surveyReaders_eq hs, scheduler, hs, engine, domain, engine, he]
    exact hc

/-- What one look of a waiter leads to, which is off the stack: its grace period is over, or the
wait is broken off for reason `why`, or it goes on. -/
inductive Look (t e : Nat) (k : Kind) (c : Snapshot) (target : UInt32) (why : Prop)
    (m m' : Machine) : Prop
  | ended (hb : (m.domain e k).firstBlocker? target = none)
      (hs : (m'.thread t).stack = (m.thread t).stack)
      (hc : (m'.thread t).control = .back (.ok .unit))
      (hh : m'.history e k = (t, .synchronizeReturned) :: m.history e k)
  | broken (p : Payload) (hw : why) (hs : (m'.thread t).stack = (m.thread t).stack)
      (hc : (m'.thread t).control = .back (.error p))
      (hh : m'.history e k = (t, .synchronizePanicked) :: m.history e k)
  | again (wakes : List Frame) (hw : ∀ f ∈ wakes, f.isWake = true)
      (hs : (m'.thread t).stack = wakes ++ .grace e k c target :: (m.thread t).stack)
      (hc : ∃ r, (m'.thread t).control = .back (.ok r)) (hh : m'.history e k = m.history e k)

/-- A look only concerns the domain of the waiter. -/
structure Looked (t e : Nat) (k : Kind) (c : Snapshot) (target : UInt32) (why : Prop)
    (m m' : Machine) : Prop where
  engines : m'.engines = m.engines
  history_ne : ∀ e' k', ¬(e = e' ∧ k = k') → m'.history e' k' = m.history e' k'
  look : Look t e k c target why m m'

variable {c : Snapshot} {why : Prop}

theorem Served.looked {m'' : Machine} (h : Served m m') (hl : Looked t e k c target why m' m'') :
    Looked t e k c target why m m'' := by
  have hd : m'.domain e k = m.domain e k := congrArg (·.domain k) (h.engine e)
  refine ⟨hl.engines.trans (by rw [h.eq]),
    fun e' k' hne => (hl.history_ne e' k' hne).trans (h.history e' k'), ?_⟩
  cases hl.look with
  | ended hb hs hc hh =>
    exact .ended (hd ▸ hb) (hs.trans (h.stack t)) hc (hh.trans (congrArg _ (h.history e k)))
  | broken p hw hs hc hh =>
    exact .broken p hw (hs.trans (h.stack t)) hc (hh.trans (congrArg _ (h.history e k)))
  | again wakes hw hs hc hh =>
    exact .again wakes hw (by rw [hs, h.stack]) hc (hh.trans (h.history e k))

theorem Rests.looked {wakes : List Frame} (hw : ∀ f ∈ wakes, f.isWake = true)
    (h : Rests t wakes (m.push t (.grace e k c target)) m') :
    Looked t e k c target why m m' := by
  refine ⟨h.engines, fun e' k' _ => h.history e' k', .again wakes hw ?_ h.control (h.history e k)⟩
  rw [h.stack, stack_push]

theorem abortSynchronize_looked (m : Machine) (t e : Nat) (k : Kind) (c : Snapshot)
    (target : UInt32) (p : Payload) (hw : why) :
    Looked t e k c target why m (m.abortSynchronize t e k c p) := by
  refine (Served.restore m t (m.engine e).access c).looked ⟨rfl, fun e' k' => history_mark_ne, ?_⟩
  exact .broken p hw (stack_back ..) (control_back ..) history_mark_self

theorem endSynchronize_returns (m : Machine) (t e : Nat) (k : Kind) (c : Snapshot) :
    ((m.endSynchronize t e k c).thread t).stack = (m.thread t).stack ∧
      ((m.endSynchronize t e k c).thread t).control = .back (.ok .unit) ∧
      (m.endSynchronize t e k c).history e k = (t, .synchronizeReturned) :: m.history e k := by
  have hs := (Served.log m t (.graceCompleted k)).trans (.restore _ t (m.engine e).access c)
  refine ⟨(stack_back ..).trans (hs.stack t), control_back .., ?_⟩
  exact history_mark_self.trans (congrArg _ (hs.history e k))

theorem endSynchronize_looked (hb : (m.domain e k).firstBlocker? target = none) (c : Snapshot) :
    Looked t e k c target why m (m.endSynchronize t e k c) := by
  have hs := (Served.log m t (.graceCompleted k)).trans (.restore _ t (m.engine e).access c)
  obtain ⟨hst, hc, hh⟩ := endSynchronize_returns m t e k c
  refine ⟨(congrArg engines hs.eq :), fun e' k' hne => ?_, .ended hb hst hc hh⟩
  exact (history_mark_ne hne).trans (hs.history e' k')

theorem locateBlocker_looked (m : Machine) (t e : Nat) (k : Kind) (c : Snapshot)
    (target : UInt32) (hw : m.Lost e k target → why) :
    Looked t e k c target why m (m.locateBlocker t e k c target) := by
  unfold locateBlocker
  dsimp only
  split
  · rename_i hb
    exact endSynchronize_looked hb c
  · rename_i w hb
    split
    · split
      · rename_i f hf
        refine abortSynchronize_looked m t e k c target _ (hw ⟨w, hb, fun hc => ?_⟩)
        obtain ⟨-, q, hq⟩ := hc
        cases hf.symm.trans hq
      · split
        · rcases pause_rests ((m.push t (.grace e k c target)).log t (.graceSleeping w)) t
            (m.engine e).access (m.engine e).pauseInterval with hr | ⟨id, hr⟩
          · exact ((Served.log ..).rests hr).looked (by nofun)
          · exact ((Served.log ..).rests hr).looked (by simp [Frame.isWake])
        · exact ((Served.setPriority ..).rests (yield_rests ..)).looked (by nofun)
    · have hs := ((Served.log m t (.graceMoving k w)).trans (.setPriority _ t (m.engine e).access
        .highest)).trans (.bind _ t (m.engine e).access w)
      split
      · rename_i f hf
        refine hs.looked (abortSynchronize_looked _ t e k c target _ (hw ⟨w, hb, fun hc => ?_⟩))
        have hworkers := workers_setPriority (m.log t (.graceMoving k w)) t (m.engine e).access
          .highest
        exact not_lt_of_bind hf (Nat.lt_of_lt_of_eq hc.1 hworkers.symm)
      · exact hs.looked ((done_rests ..).looked (by nofun))

theorem resume_grace_looked (m : Machine) (t : Nat) (o : Outcome) (e : Nat) (k : Kind)
    (c : Snapshot) (target : UInt32) :
    Looked t e k c target (∀ r, o = .ok r → m.Lost e k target) m
      (m.resume t o (.grace e k c target)) := by
  cases o with
  | error p => exact abortSynchronize_looked m t e k c target p nofun
  | ok r => exact locateBlocker_looked m t e k c target fun h _ _ => h

def Waiting (m : Machine) (t e : Nat) (k : Kind) : Prop :=
  ∃ c target, .grace e k c target ∈ (m.thread t).stack

theorem Clear.not_waiting (h : Clear m t) : ¬Waiting m t e k := by
  rintro ⟨c, target, hf⟩
  cases h _ hf

def Proceeds (m : Machine) (t : Nat) : Prop := ∃ r, (m.thread t).control = .back (.ok r)

/-- What a turn of thread `t` adds to the history of a domain about grace periods: nothing, or just
that one of its own has begun, or is over after a last look at the records, or has been broken
off. -/
inductive Returns (t e : Nat) (k : Kind) (m m' : Machine) : Prop
  | quiet (h : Unmarked Mark.isGrace e k m m') (hw : Waiting m' t e k ↔ Waiting m t e k)
      (hc : Waiting m' t e k → Proceeds m t → Proceeds m' t)
  | launched (target : UInt32) (vs : History) (hv : ∀ p ∈ vs, p.2.isGrace = false)
      (hh : m'.history e k =
        (t, .advanced target) :: (t, .synchronizeCalled) :: (vs ++ m.history e k))
      (hn : ¬Waiting m t e k) (hw : Waiting m' t e k) (hc : Proceeds m' t)
  | returned (target : UInt32) (pre : History) (h : Waits m t e k target pre)
      (hb : (m.domain e k).firstBlocker? target = none)
      (hh : m'.history e k = (t, .synchronizeReturned) :: m.history e k) (hw : ¬Waiting m' t e k)
  | broken (hh : m'.history e k = (t, .synchronizePanicked) :: m.history e k)
      (hw : ¬Waiting m' t e k) (hn : Waiting m t e k)
      (hb : Proceeds m t → ∃ target, m.Lost e k target)

theorem Returns.of_clear (hq : Unmarked Mark.isGrace e k m m') (hc : Clear m t) (hc' : Clear m' t) :
    Returns t e k m m' :=
  .quiet hq (iff_of_false hc'.not_waiting hc.not_waiting) fun hw => absurd hw hc'.not_waiting

/-- Thread `t` has made its call and the advance, and waits for the epoch to be left behind. -/
structure Launched (t e : Nat) (k : Kind) (c : Snapshot) (target : UInt32) (m m' : Machine) :
    Prop where
  stack : (m'.thread t).stack = .grace e k c target :: (m.thread t).stack
  control : (m'.thread t).control = .back (.ok .unit)
  engines : m'.engines = m.engines.modify e fun x => x.setDomain k ((m.engine e).domain k).advance
  history : m'.history e k = (t, .advanced target) :: (t, .synchronizeCalled) :: m.history e k
  history_ne : ∀ e' k', ¬(e = e' ∧ k = k') → m'.history e' k' = m.history e' k'
  target : ((m.engine e).domain k).advance.epoch = target
  turn : m'.turn = m.turn

theorem launched_of_served {n : Machine} (hs : Served (m.mark t e k .synchronizeCalled) n)
    (c : Snapshot) {d : Domain} (hd : d = ((n.engine e).domain k).advance) :
    Launched t e k c d.epoch m (((((n.setDomain e k d).mark t e k (.advanced d.epoch)).log t
      (.graceStarted k d.epoch)).push t (.grace e k c d.epoch)).done t) := by
  have he : n.engine e = m.engine e := hs.engine e
  rw [he] at hd
  constructor
  · rw [done, stack_back, stack_push]
    exact congrArg _ (hs.stack t)
  · exact control_back ..
  · show n.engines.modify e (fun x => x.setDomain k d) = _
    rw [hs.eq, hd]
    rfl
  · show (((n.setDomain e k d).mark t e k _).log t _).history e k = _
    rw [log, history_emit rfl, history_mark_self, history_setDomain, hs.history, history_mark_self]
  · intro e' k' hne
    show (((n.setDomain e k d).mark t e k _).log t _).history e' k' = _
    rw [log, history_emit rfl, history_mark_ne hne, history_setDomain, hs.history,
      history_mark_ne hne]
  · rw [hd]
  · exact (congrArg Machine.turn hs.eq :)

theorem startSynchronize_cases (m : Machine) (t e : Nat) (k : Kind) :
    m.startSynchronize t e k = (m.mark t e k .skipped).done t ∨
    m.readDepth t e k ≠ 0 ∧ m.startSynchronize t e k = m.fail t (.synchronizeInside k) ∨
    ∃ c target, Launched t e k c target m (m.startSynchronize t e k) := by
  unfold startSynchronize
  split
  · exact .inl rfl
  · split
    · rename_i hd
      exact .inr (.inl ⟨bne_iff_ne.1 hd, rfl⟩)
    · refine .inr (.inr ⟨_, _, launched_of_served ?_ _ rfl⟩)
      exact ((Served.enroll ..).trans (.unbind ..)).trans ((Served.setPinDepth ..).trans (.bind ..))

theorem Launched.waits {c : Snapshot} (h : Launched t e k c target m m') :
    Waits m' t e k target (m.history e k) := by
  have hd : m'.engine e = (m.engine e).setDomain k ((m.engine e).domain k).advance := by
    rw [engine, h.engines, Table.get_modify, if_pos rfl]
    rfl
  refine ⟨?_, [], h.history, List.forall_mem_nil _, ?_⟩
  · rw [h.engines]
    exact Table.lt_size_set ..
  · rw [domain, hd, ← h.target]
    exact (congrArg Domain.epoch (PerKind.get_set_self ..)).trans (UInt32.add_zero _).symm

theorem startSynchronize_graceState {n : Machine} (hq : ∀ e k, Unmarked Mark.isGrace e k m n)
    (hm : Clear m t) (hn : Clear n t) (e : Nat) (k : Kind) :
    GraceState (n.startSynchronize t e k) t ∧ ∀ e' k', Returns t e' k' m (n.startSynchronize t e k) := by
  have hback {p : Machine} {o : Outcome} (hs : (p.thread t).stack = (n.thread t).stack)
      (hq' : ∀ e k, Unmarked Mark.isGrace e k n p) :
      GraceState (p.back t o) t ∧ ∀ e k, Returns t e k m (p.back t o) := by
    have hc : Clear (p.back t o) t := fun f hf => hn f (by rwa [stack_back, hs] at hf)
    exact ⟨.clear hc, fun e k => .of_clear ((hq e k).trans (hq' e k)) hm hc⟩
  rcases startSynchronize_cases n t e k with h | ⟨-, h⟩ | ⟨c, target, h⟩
  · rw [h]
    exact hback (p := n.mark t e k .skipped) rfl fun e' k' => .mark n t e k rfl
  · rw [h]
    exact hback rfl fun e' k' => .of_eq rfl
  · refine ⟨.waiting [] _ e k c target _ h.stack nofun hn ⟨_, h.control⟩ h.waits, fun e' k' => ?_⟩
    by_cases hk : e = e' ∧ k = k'
    · obtain ⟨rfl, rfl⟩ := hk
      obtain ⟨vs, hh, hv⟩ := hq e k
      exact .launched target vs hv (h.history.trans (by rw [hh])) hm.not_waiting
        ⟨c, target, h.stack ▸ List.mem_cons_self⟩ ⟨_, h.control⟩
    · have hnot : ¬Waiting (n.startSynchronize t e k) t e' k' := by
        rintro ⟨c', target', hf⟩
        rw [h.stack] at hf
        rcases List.mem_cons.1 hf with hf | hf
        · cases hf
          exact hk ⟨rfl, rfl⟩
        · cases hn _ hf
      exact .quiet ((hq e' k').trans (.of_eq (h.history_ne e' k' hk)))
        (iff_of_false hnot hm.not_waiting) fun hw => absurd hw hnot

theorem Moves.clear {scope : Scope} (h : Moves scope t m m') (hs : scope.waits = false)
    (hc : Clear m t) (ht : t < m.threads.size) : Clear m' t := by
  obtain ⟨fs, hfs, hp⟩ := h.stack_eq (by rintro rfl; cases hs) ht
  intro f hf
  rw [hfs] at hf
  rcases List.mem_append.1 hf with hf | hf
  · have := hp f hf
    cases f with
    | grace => exact nomatch hs.symm.trans this
    | _ => rfl
  · exact hc f hf

theorem Leave.clear (h : Leave t m m') (hc : Clear m t) : Clear m' t := by
  intro f hf
  rcases h.stack_eq with hs | hs <;> rw [hs] at hf
  · exact hc f hf
  · cases hf

theorem Actions.clear {scope : Scope} (h : Actions scope t m m') (hs : scope.waits = false)
    (hc : Clear m t) (ht : t < m.threads.size) : Clear m' t := h.moves.clear hs hc ht

theorem ThreadTurn.graceState {scope : Scope} {top : Option Frame} (h : ThreadTurn scope top t m m')
    (hs : scope.waits = false) (hc : Clear m t) (ht : t < m.threads.size) :
    GraceState m' t ∧ ∀ e k, Returns t e k m m' := by
  have hactions {n : Machine} (h : Actions scope t m n) :
      Clear n t ∧ ∀ e k, Unmarked Mark.isGrace e k m n :=
    ⟨h.clear hs hc ht, h.unmarked (Scope.spares_isGrace hs)⟩
  have hall {n : Machine} (hn : Clear n t) (hq : ∀ e k, Unmarked Mark.isGrace e k m n) :
      GraceState n t ∧ ∀ e k, Returns t e k m n := ⟨.clear hn, fun e k => .of_clear (hq e k) hc hn⟩
  have hpush {n : Machine} (f : Frame) (hf : f.isGrace = false) (hn : Clear n t) :
      Clear (n.push t f) t := by
    intro g hg
    rw [stack_push] at hg
    rcases List.mem_cons.1 hg with rfl | hg
    · exact hf
    · exact hn g hg
  have hback {n : Machine} {o : Outcome} (hn : Clear n t) : Clear (n.back t o) t := fun f hf =>
    hn f (by rwa [stack_back] at hf)
  cases h with
  | actions h => exact hall (hactions h).1 (hactions h).2
  | leave h hl _ =>
    obtain ⟨hn, hq⟩ := hactions h
    exact hall (hl.clear hn) fun e k => (hq e k).trans (.of_eq (hl.keepsEngines.history e k))
  | @ended d own n h _ p =>
    obtain ⟨hn, hq⟩ := hactions h
    have hl : Leave t n (n.endThread t p) := .endThread n p
    exact hall (hl.clear hn) fun e k => (hq e k).trans (.of_eq (hl.keepsEngines.history e k))
  | synchronize h e k => exact startSynchronize_graceState (hactions h).2 hc (hactions h).1 e k
  | @barrier n h e k hk =>
    obtain ⟨hn, hq⟩ := hactions h
    unfold startBarrier
    split
    · exact hall (hback hn) hq
    · exact startSynchronize_graceState (n := (n.mark t e k .barrierCalled).push t (.barrier e k))
        (fun e' k' => (hq e' k').trans (.mark n t e k rfl)) hc
        (hpush (n := n.mark t e k .barrierCalled) _ rfl hn) e k
  | @drain n h e k _ =>
    obtain ⟨hn, hq⟩ := hactions h
    unfold startDrain
    split
    · exact hall (hback (hpush _ rfl hn)) hq
    · exact hall (hback (hpush _ rfl (hpush _ rfl hn))) hq
  | @returned n h e k o _ =>
    obtain ⟨hn, hq⟩ := hactions h
    exact hall (hback hn) fun e' k' => (hq e' k').trans (.mark n t e k rfl)

theorem Looked.went (h : Looked t e k c target why m m') (hh : m'.history e k = m.history e k) :
    Went e k [] m m' := by
  refine ⟨hh, ?_⟩
  rw [domain, engine, h.engines]
  exact (UInt32.add_zero _).symm

theorem Looked.graceState (h : Looked t e k c target why m m') (hc : Clear m t)
    (hw : Waits m t e k target pre) : GraceState m' t := by
  cases h.look with
  | ended hb hs hc' hh => exact .clear fun f hf => hc f (hs ▸ hf)
  | broken p _ hs hc' hh => exact .clear fun f hf => hc f (hs ▸ hf)
  | again wakes hwk hs hc' hh =>
    obtain ⟨r, hc'⟩ := hc'
    exact .waiting wakes _ e k c target pre hs hwk hc ⟨_, hc'⟩
      (hw.went (h.went hh) (by rw [h.engines]) nofun)

theorem waiting_pop {f : Frame} {rest : List Frame} (hs : (m.thread t).stack = f :: rest)
    (hf : f.isGrace = false) (hs' : (m'.thread t).stack = rest) :
    Waiting m' t e k ↔ Waiting m t e k := by
  unfold Waiting
  rw [hs, hs']
  constructor
  · rintro ⟨c, target, h⟩
    exact ⟨c, target, List.mem_cons_of_mem _ h⟩
  · rintro ⟨c, target, h⟩
    rcases List.mem_cons.1 h with rfl | h
    · cases hf
    · exact ⟨c, target, h⟩

theorem Looked.returns {rest : List Frame}
    (h : Looked t e k c target why (m.modifyThread t fun x => { x with stack := rest }) m')
    (hwhy : why → Proceeds m t → m.Lost e k target)
    (hs : (m.thread t).stack = .grace e k c target :: rest) (hr : ∀ f ∈ rest, f.isGrace = false)
    (hw : Waits m t e k target pre) (e' : Nat) (k' : Kind) : Returns t e' k' m m' := by
  have hpop := stack_pop m t rest
  have hrest {n : Machine} (hn : (n.thread t).stack = rest) : ¬Waiting n t e' k' := by
    refine Clear.not_waiting fun f hf => ?_
    rw [hn] at hf
    exact hr f hf
  have hin : Waiting m t e' k' ↔ e = e' ∧ k = k' := by
    constructor
    · rintro ⟨c', target', hf⟩
      rw [hs] at hf
      rcases List.mem_cons.1 hf with hf | hf
      · cases hf
        exact ⟨rfl, rfl⟩
      · cases hr _ hf
    · rintro ⟨rfl, rfl⟩
      exact ⟨c, target, hs ▸ List.mem_cons_self⟩
  have hagain {wakes : List Frame} (hwk : ∀ f ∈ wakes, f.isWake = true)
      (hs' : (m'.thread t).stack = wakes ++ .grace e k c target :: rest) :
      Waiting m' t e' k' ↔ e = e' ∧ k = k' := by
    constructor
    · rintro ⟨c', target', hf⟩
      rw [hs'] at hf
      rcases List.mem_append.1 hf with hf | hf
      · cases hwk _ hf
      · exact hin.1 ⟨c', target', hs ▸ hf⟩
    · rintro ⟨rfl, rfl⟩
      exact ⟨c, target, hs' ▸ List.mem_append_right _ List.mem_cons_self⟩
  by_cases hk : e = e' ∧ k = k'
  · obtain ⟨rfl, rfl⟩ := hk
    cases h.look with
    | ended hb hs' hc' hh => exact .returned target pre hw hb hh (hrest (hs'.trans hpop))
    | broken p hp hs' hc' hh =>
      exact .broken hh (hrest (hs'.trans hpop)) (hin.2 ⟨rfl, rfl⟩) fun ho => ⟨target, hwhy hp ho⟩
    | again wakes hwk hs' hc' hh =>
      rw [hpop] at hs'
      exact .quiet (.of_eq hh) ((hagain hwk hs').trans hin.symm) fun _ _ => hc'
  · have hnot : ¬Waiting m' t e' k' := by
      cases h.look with
      | ended hb hs' hc' hh => exact hrest (hs'.trans hpop)
      | broken p hp hs' hc' hh => exact hrest (hs'.trans hpop)
      | again wakes hwk hs' hc' hh =>
        rw [hpop] at hs'
        exact mt (hagain hwk hs').1 hk
    exact .quiet (.of_eq (h.history_ne e' k' hk)) (iff_of_false hnot (mt hin.1 hk))
      fun hw' => absurd hw' hnot

theorem Waits.pop (h : Waits m t e k target pre) (rest : List Frame) :
    Waits (m.modifyThread t fun x => { x with stack := rest }) t e k target pre :=
  ⟨h.size, h.split⟩

theorem Returns.of_pop {f : Frame} {rest : List Frame} (hs : (m.thread t).stack = f :: rest)
    (hf : f.isGrace = false)
    (h : Returns t e k (m.modifyThread t fun x => { x with stack := rest }) m') :
    Returns t e k m m' := by
  have hpop :
      Waiting (m.modifyThread t fun x => { x with stack := rest }) t e k ↔ Waiting m t e k :=
    waiting_pop hs hf (stack_pop m t rest)
  have hgo : Proceeds m t → Proceeds (m.modifyThread t fun x => { x with stack := rest }) t :=
    fun ⟨r, ho⟩ => ⟨r, (control_pop m t rest).trans ho⟩
  cases h with
  | quiet h hw hc => exact .quiet h (hw.trans hpop) fun hw ho => hc hw (hgo ho)
  | launched target vs hv hh hn hw hc => exact .launched target vs hv hh (mt hpop.2 hn) hw hc
  | returned target pre h hb hh hw => exact .returned target pre ⟨h.size, h.split⟩ hb hh hw
  | broken hh hw hn hb =>
    refine .broken hh hw (hpop.1 hn) fun ho => ?_
    obtain ⟨target, hl⟩ := hb (hgo ho)
    exact ⟨target, hl.of_eq rfl rfl⟩

theorem advance_graceState (hb : m.BuildsIdle) (ht : m.turn = some t) (hs : t < m.threads.size)
    (hp : GraceState m t) : GraceState (m.advance t) t ∧ ∀ e k, Returns t e k m (m.advance t) := by
  unfold advance
  dsimp only
  split
  · rename_i held op hx
    cases hp with
    | clear hc =>
      have hop : ThreadTurn .plain none t m (m.start t held op) := Actions.start .refl held (hb.op ht hx)
      exact hop.graceState rfl hc hs
    | waiting wakes rest e k c target pre _ _ _ ho =>
      obtain ⟨o, ho⟩ := ho
      rw [hx] at ho
      cases ho
  · rename_i o hx hnil
    have hstk : ((m.finish t o).thread t).stack = (m.thread t).stack := stack_stop ..
    have hclear {n : Machine} (hn : (n.thread t).stack = (m.thread t).stack) : Clear n t := by
      intro f hf
      rw [hn, hnil] at hf
      cases hf
    exact ⟨.clear (hclear hstk), fun e k =>
      .of_clear (.of_eq (history_emit rfl e k)) (hclear rfl) (hclear hstk)⟩
  · rename_i o f rest hx hst
    -- the top frame comes off first
    have hpop := stack_pop m t rest
    have hlt : t < (m.modifyThread t fun x => { x with stack := rest }).threads.size :=
      Nat.lt_of_lt_of_le hs (Table.size_le_modify ..)
    cases hp with
    | clear hc =>
      obtain ⟨d, own, hr⟩ := exists_runs (m.modifyThread t fun x => { x with stack := rest })
        (hc f (hst ▸ List.mem_cons_self))
      have hc' : Clear (m.modifyThread t fun x => { x with stack := rest }) t := fun g hg =>
        hc g (hst ▸ List.mem_cons_of_mem _ (hpop ▸ hg))
      obtain ⟨hp, hq⟩ := (Actions.resumePass .refl o hr).graceState rfl hc' hlt
      exact ⟨hp, fun e k => (hq e k).of_pop hst (hc f (hst ▸ List.mem_cons_self))⟩
    | waiting wakes below e k c target pre hs' hw hr ho h =>
      rw [hst] at hs'
      cases wakes with
      | nil =>
        obtain ⟨rfl, rfl⟩ := List.cons.inj hs'
        have hl := resume_grace_looked (m.modifyThread t fun x => { x with stack := rest }) t o
          e k c target
        refine ⟨hl.graceState (fun g hg => hr g (hpop ▸ hg)) (h.pop rest),
          hl.returns (fun hlost hgo => ?_) hst hr h⟩
        obtain ⟨r, hgo⟩ := hgo
        exact (hlost r (Control.back.inj (hx.symm.trans hgo))).of_eq rfl rfl
      | cons w wakes =>
        obtain ⟨rfl, rfl⟩ := List.cons.inj hs'
        cases f with
        | wake s id =>
          refine ⟨.waiting wakes below e k c target pre ((stack_back ..).trans hpop)
            (fun g hg => hw g (List.mem_cons_of_mem _ hg)) hr ⟨o, control_back ..⟩
            ⟨h.size, h.split⟩,
            fun e k => .quiet (.of_eq rfl) (waiting_pop hst rfl ((stack_back ..).trans hpop))
              fun _ hgo => ?_⟩
          obtain ⟨r, hgo⟩ := hgo
          exact ⟨r, (control_back ..).trans (hx.symm.trans hgo)⟩
        | _ => exact absurd (hw _ List.mem_cons_self) nofun

theorem Unmoved.graceState (h : Unmoved u m m') (hp : GraceState m u) (hle : m.engines.size ≤ m'.engines.size)
    (hw : ∀ e k, e < m.engines.size → ∃ vs, Went e k vs m m' ∧ ∀ p ∈ vs, p.1 ≠ u) :
    GraceState m' u := by
  cases h with
  | same hs hc => exact hp.keep hs (fun o ho => ⟨o, hc.trans ho⟩) hle hw
  | started hu d hd ht hs hc =>
    refine .clear fun f hf => ?_
    rw [hs, List.mem_singleton] at hf
    rw [hf]
    rfl

theorem advance_went_ne (hb : m.BuildsIdle) (hn : m.NestsUnique) (ht : m.turn = some t)
    (hu : u ≠ t) (he : e < m.engines.size) (k : Kind) :
    ∃ vs, Went e k vs m (m.advance t) ∧ ∀ p ∈ vs, p.1 ≠ u := by
  have hother {vs : History} (hv : Emits .all t e k vs) : ∀ p ∈ vs, p.1 ≠ u :=
    fun p hp hc => hu (hc.symm.trans (hv p hp).1)
  rcases advance_turn hb ht with h | ⟨n, h, hl⟩
  · obtain ⟨vs, hw, hv⟩ := h.went hn he k
    exact ⟨vs, hw, hother hv⟩
  · obtain ⟨vs, hw, hv⟩ := h.went hn he k
    exact ⟨vs, hw.trans (hl.keepsEngines.went e k), hother hv⟩

theorem advance_engines_le (hb : m.BuildsIdle) (ht : m.turn = some t) :
    m.engines.size ≤ (m.advance t).engines.size := by
  rcases advance_turn hb ht with h | ⟨n, h, hl⟩
  · exact h.engines_le
  · rw [hl.keepsEngines.engines]
    exact h.engines_le

theorem advance_graceState_ne (hb : m.BuildsIdle) (hn : m.NestsUnique) (ht : m.turn = some t)
    (hu : u ≠ t) (hp : GraceState m u) : GraceState (m.advance t) u :=
  (advance_unmoved hb ht hu).graceState hp (advance_engines_le hb ht) fun _ k he =>
    advance_went_ne hb hn ht hu he k

theorem GraceState.of_nil (h : (m.thread t).stack = []) : GraceState m t :=
  .clear fun f hf => absurd (h ▸ hf : f ∈ []) nofun

theorem External.graceState (h : External m m') (ho : Orderly m) (hp : GraceState m u) : GraceState m' u := by
  by_cases hu : (m.thread u).stack = []
  · exact .of_nil (h.stack_eq_nil hu)
  · obtain ⟨hs, hc⟩ := h.posture ho hu
    refine hp.keepsEngines h.keepsEngines hs fun o hco => ?_
    rcases hc with hc | ⟨p, hc⟩
    · exact ⟨o, hc.trans hco⟩
    · exact ⟨_, hc⟩

/-- Every thread is in no grace period, or in one and waits for its end. -/
theorem Reachable.graceState (h : Reachable m) : ∀ u, GraceState m u := by
  induction h with
  | new hm =>
    obtain ⟨cs, -, rfl⟩ := new_eq hm
    exact fun u => .of_nil (congrArg Thread.stack (Table.get_empty u))
  | begin h s ih =>
    exact (begin_externals _ s).preserves (P := fun m => ∀ u, m.GraceState u)
      (fun n n' ho he hp u => he.graceState ho (hp u)) h.visited.orderly ih
  | step h hb hs ih =>
    rcases step_cases hs with ⟨t, ht, rfl⟩ | ⟨t, rest, hn, hr, rfl⟩
    · intro u
      by_cases hu : u = t
      · rw [hu]
        exact (advance_graceState hb ht (h.visited.orderly.lt_size ht) (ih t)).1
      · exact advance_graceState_ne hb h.visited.nestsUnique ht hu (ih u)
    · exact fun u => (ih u).keepsEngines ⟨fun _ => rfl, rfl, rfl⟩ rfl fun o ho => ⟨o, ho⟩

end Machine

end GracePeriod
