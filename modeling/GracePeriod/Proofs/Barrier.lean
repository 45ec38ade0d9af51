import GracePeriod.Proofs.Stage

namespace GracePeriod

def Mark.isBarrierEnd : Mark → Bool
  | .barrierReturned => true
  | _ => false

theorem Mark.isBarrierEnd_of_isBarrier {v : Mark} (h : v.isBarrier = false) :
    v.isBarrierEnd = false := by
  cases v <;> first | rfl | cases h

def Frame.isWait : Frame → Bool
  | .grace .. | .wake .. => true
  | _ => false

theorem Frame.isWait_of_isWake {f : Frame} (h : f.isWake = true) : f.isWait = true := by
  cases f <;> first | rfl | cases h

def Thread.inBarrier (x : Thread) : Bool := x.stack.any Frame.isBarrier

namespace History

variable {vs h : History}

theorem finished_append (vs h : History) : finished h <+: finished (vs ++ h) := by
  induction vs with
  | nil => exact List.prefix_refl _
  | cons p vs ih =>
    obtain ⟨t, v⟩ := p
    cases v with
    | callbackEnded => exact ih.trans (List.prefix_append _ _)
    | _ => exact ih

/-- Thread `t` has called the barrier and not called it again since, and whatever had been enqueued
at the call has come to its end, in the order of the queue. -/
def BarrierPassed (t : Nat) (past : History) : Prop :=
  ∃ mid pre, past = mid ++ (t, .barrierCalled) :: pre ∧ (t, .barrierCalled) ∉ mid ∧
    queued pre <+: finished past

end History

open History

namespace Machine

variable {scope : Scope} {top : Option Frame} {m m' m'' : Machine} {t u e : Nat} {k : Kind}
  {pre vs : History} {o : Outcome}

theorem Action.inBarrier (h : Action scope t m m') (u : Nat) :
    (m'.thread u).inBarrier = (m.thread u).inBarrier := by
  cases h with
  | control c => exact part_modifyThread Thread.inBarrier m t u fun _ => rfl
  | push f hf hb =>
    refine part_modifyThread Thread.inBarrier m t u fun x => ?_
    simp [Thread.inBarrier, hb]
  | enroll s => exact part_enroll Thread.inBarrier (fun _ _ => rfl) m t s u
  | request d hd =>
    exact part_notify Thread.inBarrier (fun _ _ => rfl)
      (m.modifyDrain d fun x => { x with tickets := x.tickets.request }) d u
  | close d =>
    exact part_notify Thread.inBarrier (fun _ _ => rfl)
      (m.modifyDrain d fun x => { x with tickets := x.tickets.close }) d u
  | complete d n hn =>
    exact part_notify Thread.inBarrier (fun _ _ => rfl)
      (m.modifyDrain d fun x => { x with tickets := x.tickets.complete n }) d u
  | enqueue e k c hk =>
    let n := (m.modifyEngine e fun x => x.setQueue k (x.queue k ++ [c])).mark t e k (.queued c)
    exact part_notify Thread.inBarrier (fun _ _ => rfl)
      (n.modifyDrain _ fun x => { x with tickets := x.tickets.request }) _ u
  | openSection e k hs => exact (Inside.openSection m t e k).part Thread.inBarrier (fun _ _ => rfl) u
  | closeSection e k => exact (Inside.closeSection m t e k).part Thread.inBarrier (fun _ _ => rfl) u
  | startEngine slot c p hc hp =>
    exact part_startEngine Thread.inBarrier (fun _ _ _ => rfl) m slot c p u
  | spawnTask name passes =>
    exact part_spawnDrain Thread.inBarrier m .bare name { work := .scripted passes, holders := 1 }
      rfl u
  | _ => rfl

theorem Actions.inBarrier (h : Actions scope t m m') (u : Nat) :
    (m'.thread u).inBarrier = (m.thread u).inBarrier := by
  induction h with
  | refl => rfl
  | tail _ hd ih => exact (hd.inBarrier u).trans ih

theorem Actions.notInBarrier (h : Actions scope t m m') (e : Nat) (k : Kind) :
    Unmarked Mark.isBarrier e k m m' := h.unmarked scope.spares_isBarrier e k

theorem Unmarked.isBarrierEnd (h : Unmarked Mark.isBarrier e k m m') :
    Unmarked Mark.isBarrierEnd e k m m' := by
  obtain ⟨vs, hh, hv⟩ := h
  exact ⟨vs, hh, fun p hp => Mark.isBarrierEnd_of_isBarrier (hv p hp)⟩

/-- Thread `t` has called the barrier of a domain that is served when the history was `pre`. -/
structure Called (m : Machine) (t e : Nat) (k : Kind) (pre : History) : Prop where
  serves : ∃ d, m.Serves d e k
  split : ∃ mid, m.history e k = mid ++ (t, .barrierCalled) :: pre ∧ (t, .barrierCalled) ∉ mid

/-- Either the thread is in no barrier, or it waits for the grace period of one, or for its ticket,
or everything that it waits for is over. -/
inductive BarrierState (m : Machine) (t : Nat) : Prop
  | clear (h : (m.thread t).inBarrier = false)
  | waiting (waits rest : List Frame) (e : Nat) (k : Kind) (pre : History) (o : Outcome)
      (hs : (m.thread t).stack = waits ++ .barrier e k :: rest) (hw : ∀ f ∈ waits, f.isWait = true)
      (hr : rest.any Frame.isBarrier = false) (hc : (m.thread t).control = .back o)
      (h : Called m t e k pre)
  | draining (rest : List Frame) (d e : Nat) (k : Kind) (ticket : Nat) (pre : History) (o : Outcome)
      (hs : (m.thread t).stack = .await d ticket :: .barrierEnd e k :: rest)
      (hr : rest.any Frame.isBarrier = false) (hc : (m.thread t).control = .back o)
      (h : Called m t e k pre) (hd : m.Serves d e k) (hq : (queued pre).length ≤ ticket)
  | drained (rest : List Frame) (e : Nat) (k : Kind) (pre : History) (o : Outcome)
      (hs : (m.thread t).stack = .barrierEnd e k :: rest) (hr : rest.any Frame.isBarrier = false)
      (hc : (m.thread t).control = .back o) (h : Called m t e k pre)
      (hf : ∀ r, o = .ok r → (queued pre).length ≤ (finished (m.history e k)).length)

structure Uncalled (t : Nat) (m m' : Machine) : Prop where
  kept : Kept m m'
  marks : ∀ e k, ∃ vs, m'.history e k = vs ++ m.history e k ∧ (t, .barrierCalled) ∉ vs

theorem Called.keep (h : Called m t e k pre) (hu : Uncalled t m m') : Called m' t e k pre := by
  obtain ⟨d, hd⟩ := h.serves
  obtain ⟨mid, hh, hm⟩ := h.split
  obtain ⟨vs, hv, hn⟩ := hu.marks e k
  refine ⟨⟨d, (hd.kept hu.kept).1⟩, vs ++ mid, by rw [hv, hh, List.append_assoc], ?_⟩
  exact fun hc => (List.mem_append.1 hc).elim hn hm

theorem Uncalled.finished (hu : Uncalled t m m') (e : Nat) (k : Kind) :
    (finished (m.history e k)).length ≤ (finished (m'.history e k)).length := by
  obtain ⟨vs, hv, -⟩ := hu.marks e k
  rw [hv]
  exact (finished_append vs _).length_le

theorem BarrierState.keep (h : BarrierState m t) (hu : Uncalled t m m')
    (hs : (m'.thread t).stack = (m.thread t).stack)
    (hc : (m'.thread t).control = (m.thread t).control ∨
      ∃ p, (m'.thread t).control = .back (.error p)) : BarrierState m' t := by
  have hback {o : Outcome} (ho : (m.thread t).control = .back o) :
      ∃ o', (m'.thread t).control = .back o' ∧ (o' = o ∨ ∃ p, o' = .error p) := by
    rcases hc with hc | ⟨p, hc⟩
    · exact ⟨o, hc.trans ho, .inl rfl⟩
    · exact ⟨_, hc, .inr ⟨p, rfl⟩⟩
  cases h with
  | clear h =>
    refine .clear ?_
    rwa [Thread.inBarrier, hs]
  | waiting waits rest e k pre o hs' hw hr hc' h =>
    obtain ⟨o', ho, -⟩ := hback hc'
    exact .waiting waits rest e k pre o' (hs.trans hs') hw hr ho (h.keep hu)
  | draining rest d e k ticket pre o hs' hr hc' h hd hq =>
    obtain ⟨o', ho, -⟩ := hback hc'
    exact .draining rest d e k ticket pre o' (hs.trans hs') hr ho (h.keep hu) (hd.kept hu.kept).1 hq
  | drained rest e k pre o hs' hr hc' h hf =>
    obtain ⟨o', ho, hoo⟩ := hback hc'
    refine .drained rest e k pre o' (hs.trans hs') hr ho (h.keep hu) fun r hr' => ?_
    rcases hoo with rfl | ⟨p, rfl⟩
    · exact (hf r hr').trans (hu.finished e k)
    · cases hr'

/-- What a turn of thread `t` adds to the history of a domain: no return from a barrier, or just
that of a barrier of its own. -/
inductive Passes (t e : Nat) (k : Kind) (m m' : Machine) : Prop
  | quiet (h : Unmarked Mark.isBarrierEnd e k m m')
  | passed (h : BarrierPassed t (m.history e k))
      (hh : m'.history e k = (t, .barrierReturned) :: m.history e k)

theorem barrierState_of_clear (hu : (m.thread t).inBarrier = false)
    (hs : (m'.thread t).stack = (m.thread t).stack) :
    BarrierState m' t := by
  refine .clear ?_
  rwa [Thread.inBarrier, hs]

theorem startSynchronize_waits (m : Machine) (t e : Nat) (k : Kind) :
    ∃ waits o, ((m.startSynchronize t e k).thread t).stack = waits ++ (m.thread t).stack ∧
      (∀ f ∈ waits, f.isWait = true) ∧
      ((m.startSynchronize t e k).thread t).control = .back o := by
  rcases startSynchronize_cases m t e k with h | ⟨-, h⟩ | ⟨c, target, h⟩
  · rw [h]
    exact ⟨[], _, stack_back .., nofun, control_back ..⟩
  · rw [h]
    exact ⟨[], _, stack_back .., nofun, control_back ..⟩
  · exact ⟨[.grace e k c target], _, h.stack, by simp [Frame.isWait], h.control⟩

theorem startSynchronize_kept (m : Machine) (t e : Nat) (k : Kind) :
    Kept m (m.startSynchronize t e k) :=
  (Actions.startSynchronize (.refl : Actions .grace t m m) e k).moves.kept

theorem startSynchronize_notInBarrier (m : Machine) (t e e' : Nat) (k k' : Kind) :
    Unmarked Mark.isBarrier e' k' m (m.startSynchronize t e k) :=
  Actions.notInBarrier (Actions.startSynchronize (.refl : Actions .grace t m m) e k) e' k'

theorem startBarrier_barrierState {d : Nat} (hd : m.Serves d e k) (hu : (m.thread t).inBarrier = false) :
    BarrierState (m.startBarrier t e k) t ∧
      ∀ e' k', Unmarked Mark.isBarrierEnd e' k' m (m.startBarrier t e k) := by
  unfold startBarrier
  split
  · exact ⟨barrierState_of_clear hu (stack_back ..), fun e' k' => .of_eq rfl⟩
  · let n := (m.mark t e k .barrierCalled).push t (.barrier e k)
    have hserves : (n.startSynchronize t e k).Serves d e k :=
      (Serves.kept (m := n) hd (startSynchronize_kept n t e k)).1
    obtain ⟨waits, o, hs, hw, hc⟩ := startSynchronize_waits n t e k
    have hn (e' : Nat) (k' : Kind) := startSynchronize_notInBarrier n t e e' k k'
    refine ⟨.waiting waits (m.thread t).stack e k (m.history e k) o ?_ hw hu hc ⟨⟨_, hserves⟩, ?_⟩,
      fun e' k' => ?_⟩
    · rw [hs]
      exact congrArg _ (stack_push ..)
    · obtain ⟨vs, hh, hv⟩ := hn e k
      refine ⟨vs, hh.trans (congrArg _ history_mark_self), fun hc => ?_⟩
      cases hv _ hc
    · have hm : Unmarked Mark.isBarrierEnd e' k' m (m.mark t e k .barrierCalled) :=
        .mark m t e k rfl
      exact hm.trans (hn e' k').isBarrierEnd

theorem ThreadTurn.barrierState (hc : ThreadTurn scope top t m m')
    (htop : ∀ f, top = some f → f.isBarrier = false) (ht : m.turn = some t) (hv : Visited m)
    (hr : Rooted m) (hu : (m.thread t).inBarrier = false) :
    BarrierState m' t ∧ ∀ e k, Unmarked Mark.isBarrierEnd e k m m' := by
  have hactions {scope' : Scope} {n : Machine} (h : Actions scope' t m n) :
      (n.thread t).inBarrier = false ∧ ∀ e k, Unmarked Mark.isBarrierEnd e k m n :=
    ⟨(h.inBarrier t).trans hu, fun e k => (h.notInBarrier e k).isBarrierEnd⟩
  cases hc with
  | actions h => exact ⟨.clear (hactions h).1, (hactions h).2⟩
  | leave h hl hst =>
    obtain ⟨hn, hq⟩ := hactions h
    exact ⟨barrierState_of_clear hn hst, fun e k => (hq e k).trans (.of_eq (hl.keepsEngines.history e k))⟩
  | @ended d own n h hsc p =>
    refine ⟨.clear ?_, fun e k => ((hactions h).2 e k).trans
      (.of_eq ((Leave.endThread n p).keepsEngines.history e k))⟩
    rw [Thread.inBarrier, stack_endThread]
    rfl
  | @synchronize n h e k =>
    exact ⟨.clear (((Actions.startSynchronize (.refl : Actions .grace t n n) e k).inBarrier t).trans
      (hactions h).1), fun e' k' => ((hactions h).2 e' k').trans
        (startSynchronize_notInBarrier n t e e' k k').isBarrierEnd⟩
  | @barrier n h e k hkn =>
    obtain ⟨hn, hq⟩ := hactions h
    obtain ⟨hst, hq'⟩ := startBarrier_barrierState ((h.rooted ht hv hr).serves e k hkn) hn
    exact ⟨hst, fun e' k' => (hq e' k').trans (hq' e' k')⟩
  | drain h e k htop' => cases htop _ htop'
  | returned h e k o htop' => cases htop _ htop'

theorem Looked.notInBarrier {c : Snapshot} {target : UInt32} {why : Prop}
    (h : Looked t e k c target why m m') (e' : Nat) (k' : Kind) :
    Unmarked Mark.isBarrier e' k' m m' := by
  by_cases hk : e = e' ∧ k = k'
  · obtain ⟨rfl, rfl⟩ := hk
    cases h.look with
    | ended hb hs hc hh => exact ⟨[(t, .synchronizeReturned)], hh, by simp [Mark.isBarrier]⟩
    | broken p _ hs hc hh => exact ⟨[(t, .synchronizePanicked)], hh, by simp [Mark.isBarrier]⟩
    | again wakes hw hs hc hh => exact .of_eq hh
  · exact .of_eq (h.history_ne e' k' hk)

theorem Looked.waits {c : Snapshot} {target : UInt32} {why : Prop}
    (h : Looked t e k c target why m m') :
    ∃ waits o, (m'.thread t).stack = waits ++ (m.thread t).stack ∧
      (∀ f ∈ waits, f.isWait = true) ∧ (m'.thread t).control = .back o := by
  cases h.look with
  | ended hb hs hc hh => exact ⟨[], _, hs, nofun, hc⟩
  | broken p _ hs hc hh => exact ⟨[], _, hs, nofun, hc⟩
  | again wakes hw hs hc hh =>
    obtain ⟨r, hc⟩ := hc
    refine ⟨wakes ++ [.grace e k c target], .ok r, by rw [hs, List.append_assoc]; rfl,
      fun f hf => ?_, hc⟩
    rcases List.mem_append.1 hf with hf | hf
    · exact Frame.isWait_of_isWake (hw f hf)
    · rw [List.mem_singleton.1 hf]
      rfl

theorem Unmarked.uncalled (h : ∀ e k, Unmarked Mark.isBarrier e k m m') (hk : Kept m m') :
    Uncalled t m m' := by
  refine ⟨hk, fun e k => ?_⟩
  obtain ⟨vs, hh, hv⟩ := h e k
  refine ⟨vs, hh, fun hc => ?_⟩
  cases hv _ hc

theorem resume_waits {f : Frame} (hf : f.isWait = true) (m : Machine) (t : Nat) (o : Outcome) :
    (∀ e k, Unmarked Mark.isBarrier e k m (m.resume t o f)) ∧
      ∃ waits o', ((m.resume t o f).thread t).stack = waits ++ (m.thread t).stack ∧
        (∀ f ∈ waits, f.isWait = true) ∧ ((m.resume t o f).thread t).control = .back o' := by
  cases f with
  | grace e k c target =>
    have hl := resume_grace_looked m t o e k c target
    exact ⟨hl.notInBarrier, hl.waits⟩
  | wake s id => exact ⟨fun e k => .of_eq rfl, [], o, stack_back .., nofun, control_back ..⟩
  | _ => cases hf

theorem resume_wait_barrierState {f : Frame} {waits rest : List Frame} (hf : f.isWait = true)
    (hw : ∀ f ∈ waits, f.isWait = true) (hr : rest.any Frame.isBarrier = false)
    (hs : (m.thread t).stack = waits ++ .barrier e k :: rest) (hk : Kept m (m.resume t o f))
    (h : Called m t e k pre) :
    BarrierState (m.resume t o f) t ∧ ∀ e' k', Unmarked Mark.isBarrierEnd e' k' m (m.resume t o f) := by
  obtain ⟨hq, waits', o', hs', hw', hc⟩ := resume_waits hf m t o
  refine ⟨.waiting (waits' ++ waits) rest e k pre o' ?_ (fun g hg => ?_) hr hc
    (h.keep (Unmarked.uncalled hq hk)), fun e' k' => (hq e' k').isBarrierEnd⟩
  · rw [hs', hs, List.append_assoc]
  · exact (List.mem_append.1 hg).elim (hw' g) (hw g)

theorem Called.of_threads (h : Called m t e k pre) (hd : m'.drains = m.drains)
    (ht : m'.trace = m.trace) : Called m' t e k pre := by
  constructor
  · simpa only [Serves, drain, hd] using h.serves
  · simpa only [history, ht] using h.split

theorem startDrain_barrierState {d : Nat} {rest : List Frame}
    (hs : (m.thread t).stack = .barrierEnd e k :: rest) (hr : rest.any Frame.isBarrier = false)
    (hd : m.Serves d e k)
    (hq : (m.drain d).tickets.requested = (queued (m.history e k)).length)
    (h : Called m t e k pre) :
    BarrierState (m.startDrain t d) t ∧
      ∀ e' k', Unmarked Mark.isBarrierEnd e' k' m (m.startDrain t d) := by
  unfold startDrain
  split
  · exact ⟨.drained rest e k pre _ ((stack_back ..).trans hs) hr (control_back ..)
      (h.of_threads rfl rfl) nofun, fun e' k' => .of_eq rfl⟩
  · refine ⟨.draining rest d e k _ pre _ (((stack_back ..).trans (stack_push ..)).trans (congrArg _ hs))
      hr (control_back ..) (h.of_threads rfl rfl) hd ?_, fun e' k' => .of_eq rfl⟩
    obtain ⟨mid, hh, -⟩ := h.split
    rw [hq, hh, queued_append, List.length_append]
    exact Nat.le_add_right ..

theorem resume_barrier_barrierState {d : Nat} {rest : List Frame} (hs : (m.thread t).stack = rest)
    (hr : rest.any Frame.isBarrier = false) (hd : m.Serves d e k)
    (hn : (m.engine e).drains.get k = d)
    (hq : (m.drain d).tickets.requested = (queued (m.history e k)).length)
    (h : Called m t e k pre) (o : Outcome) :
    BarrierState (m.resume t o (.barrier e k)) t ∧
      ∀ e' k', Unmarked Mark.isBarrierEnd e' k' m (m.resume t o (.barrier e k)) := by
  cases o with
  | error p =>
    exact ⟨barrierState_of_clear (m := m) (by rwa [Thread.inBarrier, hs]) (stack_back ..),
      fun e' k' => .of_eq rfl⟩
  | ok r =>
    have hstack : ((m.push t (.barrierEnd e k)).thread t).stack = .barrierEnd e k :: rest := by
      rw [stack_push, hs]
    have hall : BarrierState ((m.push t (.barrierEnd e k)).startDrain t d) t ∧ ∀ e' k',
        Unmarked Mark.isBarrierEnd e' k' m ((m.push t (.barrierEnd e k)).startDrain t d) :=
      startDrain_barrierState hstack hr hd hq (h.of_threads rfl rfl)
    rw [← hn] at hall
    exact hall

theorem resume_await_barrierState {d ticket : Nat} {rest : List Frame}
    (hs : (m.thread t).stack = .barrierEnd e k :: rest) (hr : rest.any Frame.isBarrier = false)
    (hd : m.Serves d e k) (hc : Covered m e k) (hq : (queued pre).length ≤ ticket)
    (h : Called m t e k pre) (o : Outcome) :
    BarrierState (m.resume t o (.await d ticket)) t ∧
      ∀ e' k', Unmarked Mark.isBarrierEnd e' k' m (m.resume t o (.await d ticket)) := by
  cases o with
  | error p =>
    exact ⟨.drained rest e k pre _ ((stack_back ..).trans hs) hr (control_back ..)
      (h.of_threads rfl rfl) nofun, fun e' k' => .of_eq rfl⟩
  | ok r =>
    simp only [resume, resumeAwait]
    split
    · rename_i hcov
      refine ⟨.drained rest e k pre _ ((stack_back ..).trans hs) hr (control_back ..)
        (h.of_threads rfl rfl) fun _ _ => ?_, fun e' k' => .of_eq rfl⟩
      exact (hq.trans (of_decide_eq_true hcov)).trans (hc d hd)
    · let n := m.push t (.await d ticket)
      have hl : Leave t n (n.waitFor t d) := .waitFor n d
      have hstack : ((n.waitFor t d).thread t).stack = .await d ticket :: .barrierEnd e k :: rest :=
        ((stack_stop ..).trans (stack_back ..)).trans ((stack_push ..).trans (congrArg _ hs))
      have hcalled : Called (n.waitFor t d) t e k pre :=
        (h.of_threads rfl rfl : Called n t e k pre).keep (Unmarked.uncalled
          (fun e' k' => .of_eq (hl.keepsEngines.history e' k')) hl.kept)
      exact ⟨.draining rest d e k ticket pre _ hstack hr ((control_stop ..).trans (control_back ..))
        hcalled (Serves.kept (m := n) hd hl.kept).1 hq,
        fun e' k' => .of_eq (hl.keepsEngines.history e' k')⟩

theorem Called.passed (h : Called m t e k pre) (hl : Ledger m e k)
    (hf : (queued pre).length ≤ (finished (m.history e k)).length) :
    BarrierPassed t (m.history e k) := by
  obtain ⟨mid, hh, hm⟩ := h.split
  obtain ⟨hfs, hsq⟩ := hl.prefixes
  refine ⟨mid, pre, hh, hm, List.prefix_of_prefix_length_le ?_ (hfs.trans hsq) hf⟩
  rw [hh, queued_append]
  exact List.prefix_append _ _

theorem advance_barrierState (h : Reachable m) (hb : m.BuildsIdle) (ht : m.turn = some t)
    (hp : BarrierState m t) :
    BarrierState (m.advance t) t ∧ ∀ e k, Passes t e k m (m.advance t) := by
  have hquiet {n : Machine} (h : BarrierState n t ∧ ∀ e k, Unmarked Mark.isBarrierEnd e k m n) :
      BarrierState n t ∧ ∀ e k, Passes t e k m n := ⟨h.1, fun e k => .quiet (h.2 e k)⟩
  have hst := h.visited.drainsAssigned
  have hpop (rest : List Frame) := stack_pop m t rest
  have hk := advance_kept hb ht
  cases hp with
  | clear hu =>
    obtain ⟨scope, top, n, -, hn, hturn⟩ := advance_mayPush hb ht (h.framesFit t)
    obtain ⟨ht', hv⟩ := hn.visited ht h.visited
    have hstart : (∀ f, top = some f → f.isBarrier = false) ∧ (n.thread t).inBarrier = false ∧
        ∀ e k, n.history e k = m.history e k := by
      cases hn with
      | same => exact ⟨nofun, hu, fun _ _ => rfl⟩
      | @pop f rest hs =>
        rw [Thread.inBarrier, hs, List.any_cons, Bool.or_eq_false_iff] at hu
        refine ⟨?_, ?_, fun _ _ => rfl⟩
        · rintro _ ⟨⟩
          exact hu.1
        · rw [Thread.inBarrier, hpop]
          exact hu.2
    obtain ⟨htop, hu', hh⟩ := hstart
    obtain ⟨hs, hq⟩ := hturn.barrierState htop ht' hv (hn.alike.rooted h.rooted) hu'
    exact hquiet ⟨hs, fun e k => (Unmarked.of_eq (hh e k)).trans (hq e k)⟩
  | waiting waits rest e k pre o hs hw hr hc h' =>
    obtain ⟨d, hd⟩ := h'.serves
    cases waits with
    | nil =>
      rw [advance_back hc hs]
      exact hquiet (resume_barrier_barrierState (m := m.modifyThread t fun x => { x with stack := rest })
        (hpop rest) hr hd (hst.named d e k hd) (h.rooted.requested d e k hd) (h'.of_threads rfl rfl) o)
    | cons f waits =>
      rw [advance_back hc hs] at hk ⊢
      refine hquiet (resume_wait_barrierState (hw f List.mem_cons_self)
        (fun g hg => hw g (List.mem_cons_of_mem _ hg)) hr (hpop _) ?_ (h'.of_threads rfl rfl))
      exact ⟨hk.size, hk.same⟩
  | draining rest d e k ticket pre o hs hr hc h' hd hq =>
    rw [advance_back hc hs]
    exact hquiet (resume_await_barrierState (hpop _) hr hd (h.ledger e k).2.2 hq
      (h'.of_threads rfl rfl) o)
  | drained rest e k pre o hs hr hc h' hf =>
    rw [advance_back hc hs]
    have hclear :
        (((m.modifyThread t fun x => { x with stack := rest })).thread t).inBarrier = false := by
      rwa [Thread.inBarrier, hpop]
    cases o with
    | error p => exact hquiet ⟨barrierState_of_clear hclear (stack_back ..), fun e' k' => .of_eq rfl⟩
    | ok r =>
      refine ⟨barrierState_of_clear hclear (stack_back ..), fun e' k' => ?_⟩
      by_cases hk : e = e' ∧ k = k'
      · obtain ⟨rfl, rfl⟩ := hk
        exact .passed (h'.passed (h.ledger e k).1 (hf r rfl)) history_mark_self
      · exact .quiet (.of_eq (history_mark_ne hk))

theorem Unmoved.barrierState (h : Unmoved u m m') (hp : BarrierState m u) (hu : Uncalled u m m') :
    BarrierState m' u := by
  cases h with
  | same hs hc => exact hp.keep hu hs (.inl hc)
  | started _ d hd ht hs hc =>
    refine .clear ?_
    rw [Thread.inBarrier, hs]
    rfl

theorem advance_uncalled (hb : m.BuildsIdle) (ht : m.turn = some t) (hu : u ≠ t) :
    Uncalled u m (m.advance t) := by
  refine ⟨advance_kept hb ht, fun e k => ?_⟩
  rcases advance_turn hb ht with h | ⟨n, h, hl⟩
  · obtain ⟨vs, hh, hv⟩ := h.history e k
    exact ⟨vs, hh, fun hc => hu (hv _ hc).1⟩
  · obtain ⟨vs, hh, hv⟩ := h.history e k
    exact ⟨vs, (hl.keepsEngines.history e k).trans hh, fun hc => hu (hv _ hc).1⟩

theorem External.barrierState (h : External m m') (ho : Orderly m) (hp : BarrierState m u) :
    BarrierState m' u := by
  by_cases hu : (m.thread u).stack = []
  · refine .clear ?_
    rw [Thread.inBarrier, h.stack_eq_nil hu]
    rfl
  · obtain ⟨hs, hc⟩ := h.posture ho hu
    exact hp.keep ⟨h.kept, fun e k => ⟨[], h.keepsEngines.history e k, nofun⟩⟩ hs hc

/-- Every thread is in no barrier, or somewhere in one. -/
theorem Reachable.barrierState (h : Reachable m) : ∀ u, BarrierState m u := by
  induction h with
  | new hm =>
    obtain ⟨cs, -, rfl⟩ := new_eq hm
    intro u
    refine .clear ?_
    rw [Thread.inBarrier, thread, Table.get_empty]
    rfl
  | begin h s ih =>
    exact (begin_externals _ s).preserves (P := fun m => ∀ u, m.BarrierState u)
      (fun n n' ho he hp u => he.barrierState ho (hp u)) h.visited.orderly ih
  | step h hb hs ih =>
    rcases step_cases hs with ⟨t, ht, rfl⟩ | ⟨t, rest, hn, hr, rfl⟩
    · intro u
      by_cases hu : u = t
      · rw [hu]
        exact (advance_barrierState h hb ht (ih t)).1
      · exact (advance_unmoved hb ht hu).barrierState (ih u) (advance_uncalled hb ht hu)
    · exact fun u => (ih u).keep ⟨.of_drains rfl, fun e k => ⟨[], rfl, List.not_mem_nil⟩⟩ rfl
        (.inl rfl)

/-- When a barrier returns, every callback that had been enqueued when it was called has come to its
end, whatever has panicked or has been skipped, and however threads run. -/
theorem barrier_completes (h : Reachable m) {post past : History}
    (hr : m.history e k = post ++ (t, .barrierReturned) :: past) : BarrierPassed t past := by
  have hall : (m.history e k).Each fun t v past => v = .barrierReturned → BarrierPassed t past := by
    clear hr
    induction h with
    | new hm =>
      obtain ⟨cs, -, rfl⟩ := new_eq hm
      exact each_nil
    | @begin m h s ih =>
      rw [Externals.history (begin_externals m s) e k]
      exact ih
    | step h hb hst ih =>
      rcases step_cases hst with ⟨t, ht, rfl⟩ | ⟨t, rest, hn, hr, rfl⟩
      · cases (advance_barrierState h hb ht (h.barrierState t)).2 e k with
        | quiet hq =>
          obtain ⟨vs, hh, hv⟩ := hq
          rw [hh]
          refine ih.append fun p hp past hc => ?_
          have hn := hv p hp
          rw [hc] at hn
          cases hn
        | passed hp hh =>
          rw [hh]
          exact ih.cons fun _ => hp
      · exact ih
  exact hall post t _ past hr rfl

/-- A barrier is called while a callback stands at a gate and another, which will panic, is queued.
A third is enqueued after the call. -/
def barrierWaiting : Machine :=
  let m := (sample.perform (.act 0 (.call 0 false .regular 1 false [.gate]))).1
  let m := (m.perform (.act 0 (.handle 0 (.deferDrop .regular 255 4)))).1
  let m := (m.perform (.act 1 (.handle 0 (.barrier .regular)))).1
  (m.perform (.act 0 (.handle 0 (.deferDrop .regular 8 4)))).1

theorem reachable_barrierWaiting : Reachable barrierWaiting := by
  have h := reachable_sample.perform (.act 0 (.call 0 false .regular 1 false [.gate]))
    (by decide +kernel)
  have h := h.perform (.act 0 (.handle 0 (.deferDrop .regular 255 4))) (by decide +kernel)
  have h := h.perform (.act 1 (.handle 0 (.barrier .regular))) (by decide +kernel)
  exact h.perform _ (by decide +kernel)

def barrierPast : History := [(1, .callbackEnded), (1, .callbackStarted (.destroy 4 (some 8))),
  (1, .callbackEnded), (1, .callbackStarted (.destroy 4 (some 255))), (1, .synchronizeReturned),
  (1, .advanced 2), (1, .synchronizeCalled), (1, .callbackEnded),
  (0, .queued (.destroy 4 (some 8))), (3, .synchronizeReturned), (3, .advanced 1),
  (3, .synchronizeCalled), (3, .barrierCalled), (0, .queued (.destroy 4 (some 255))),
  (1, .callbackStarted (.call 1 false [.gate])), (1, .synchronizeReturned), (1, .advanced 0),
  (1, .synchronizeCalled), (0, .queued (.call 1 false [.gate]))]

theorem barrier_outlasts_panic : Reachable (barrierWaiting.wake 1).settle ∧
    (barrierWaiting.wake 1).settle.history 0 .regular = [] ++ (3, .barrierReturned) :: barrierPast ∧
    BarrierPassed 3 barrierPast := by
  have hr : Reachable (barrierWaiting.wake 1).settle :=
    reachable_barrierWaiting.resumeOnly (by decide +kernel) (by decide +kernel)
  have hh : (barrierWaiting.wake 1).settle.history 0 .regular =
      [] ++ (3, .barrierReturned) :: barrierPast := rfl
  exact ⟨hr, hh, barrier_completes hr hh⟩

end Machine

end GracePeriod
