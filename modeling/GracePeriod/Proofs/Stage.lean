import GracePeriod.Proofs.Request
import GracePeriod.Proofs.Ripeness
import GracePeriod.Proofs.Unwinding

namespace GracePeriod

open History

def Frame.isPass : Frame → Bool
  | .detached .. | .batch .. | .worker .. => true
  | _ => false

namespace Machine

theorem Unwinds.of_mem {fs : List Frame} {o : Outcome} (h : Unwinds fs o) {f : Frame} (hf : f ∈ fs) :
    f.isPass = false ∧ f.isGrace = false := by
  induction fs generalizing o with
  | nil => cases hf
  | cons g fs ih =>
    rcases List.mem_cons.1 hf with rfl | hmem
    · cases f <;> first | exact ⟨rfl, rfl⟩ | exact h.elim
    · cases g with
      | release e => exact ih h hmem
      | shutdown ds saved | joined d ds saved => exact ih h hmem
      | _ => exact h.elim

variable {scope : Scope} {top : Option Frame} {m n m' : Machine} {t d e : Nat} {k : Kind} {f : Frame}
  {o : Outcome} {above base fs : List Frame} {batch cs : List Callback} {ticket : Option Nat}

/-- What has been enqueued has started, or is held by the thread, or is queued; and the ticket that is
being served stands for callbacks that have started or are held. -/
structure Holds (m : Machine) (e : Nat) (k : Kind) (ticket : Option Nat) (batch : List Callback) :
    Prop where
  queued : History.queued (m.history e k) = started (m.history e k) ++ batch ++ m.queue e k
  ticket : ∀ n, ticket = some n → n ≤ (started (m.history e k) ++ batch).length

def Settled (m : Machine) (e : Nat) (k : Kind) : Prop :=
  finished (m.history e k) = started (m.history e k)

/-- All but the last callback that has started have finished, and that one runs on the thread. -/
def Running (m : Machine) (t e : Nat) (k : Kind) : Prop :=
  ∃ c, underway t (m.history e k) = some c ∧
    started (m.history e k) = finished (m.history e k) ++ [c]

/-- Tickets have been completed only for callbacks that have finished. -/
def Covered (m : Machine) (e : Nat) (k : Kind) : Prop :=
  ∀ d, m.Serves d e k → (m.drain d).tickets.completed ≤ (finished (m.history e k)).length

/-- Where the thread of a drain task is in its pass over the domain. A batch is lost when the thread
panics. -/
inductive Stage (t d e : Nat) (k : Kind) (m : Machine) : Prop
  | rest (ticket : Option Nat) (o : Outcome) (hs : (m.thread t).stack = [.worker d ticket])
      (hc : (m.thread t).control = .back o) (hh : Holds m e k ticket []) (hf : Settled m e k)
  | waiting (wakes : List Frame) (c : Snapshot) (target : UInt32) (pre : History)
      (batch : List Callback) (ticket : Option Nat) (o : Outcome)
      (hs : (m.thread t).stack =
        wakes ++ [.grace e k c target, .detached e k batch, .worker d ticket])
      (hw : ∀ f ∈ wakes, f.isWake = true) (hc : (m.thread t).control = .back o)
      (hh : Holds m e k ticket batch) (hf : Settled m e k) (hg : Waits m t e k target pre)
      (hp : queued pre = started (m.history e k) ++ batch)
  | landed (batch : List Callback) (ticket : Option Nat) (o : Outcome)
      (hs : (m.thread t).stack = [.detached e k batch, .worker d ticket])
      (hc : (m.thread t).control = .back o) (hh : Holds m e k ticket batch) (hf : Settled m e k)
      (hr : ∀ r, o = .ok r → Ripened (m.history e k) (started (m.history e k) ++ batch))
  | running (above : List Frame) (batch : List Callback) (ticket : Option Nat)
      (hs : (m.thread t).stack = above ++ [.batch e k batch, .worker d ticket])
      (ha : ∀ f ∈ above, f.isPass = false) (hh : Holds m e k ticket batch) (hf : Running m t e k)
      (hr : Ripened (m.history e k) (started (m.history e k) ++ batch))
  | beingStopped (lost : List Callback) (ticket : Option Nat) (h : Unwinding m t [.worker d ticket])
      (hh : Holds m e k ticket lost) (hf : Settled m e k)
  | gone (lost : List Callback) (p : Option Payload) (hs : (m.thread t).stack = [])
      (he : (m.thread t).status = .ended p) (hh : Holds m e k none lost) (hf : Settled m e k)
      (hl : p = none → lost = [])

/-- The thread has gone on to a stage, and what has started is still in order. -/
structure Onward (t d e : Nat) (k : Kind) (m m' : Machine) : Prop where
  stage : Stage t d e k m'
  inOrder : InOrder (m.history e k) → InOrder (m'.history e k)
  covered : Covered m e k → Covered m' e k

theorem Holds.drop (h : Holds m e k ticket batch) : Holds m e k none batch := ⟨h.queued, nofun⟩

namespace Filed

theorem run_eq (h : Filed e k m m') : started (m'.history e k) = started (m.history e k) ∧
    finished (m'.history e k) = finished (m.history e k) ∧
    ∀ t, underway t (m'.history e k) = underway t (m.history e k) := by
  obtain ⟨vs, hh, hv, -⟩ := h.marks
  rw [hh]
  exact run_append hv

theorem started_eq (h : Filed e k m m') : started (m'.history e k) = started (m.history e k) :=
  h.run_eq.1

theorem holds (h : Filed e k m m') (hh : Holds m e k ticket batch) : Holds m' e k ticket batch := by
  constructor
  · rw [h.started_eq]
    obtain ⟨vs, hv, -, hq⟩ := h.marks
    rw [hv, queued_append, hh.queued, hq, List.append_assoc]
  · rw [h.started_eq]
    exact hh.ticket

theorem settled (h : Filed e k m m') (hf : Settled m e k) : Settled m' e k := by
  rw [Settled, h.run_eq.2.1, h.started_eq]
  exact hf

theorem running (h : Filed e k m m') (hf : Running m t e k) : Running m' t e k := by
  obtain ⟨c, hu, hc⟩ := hf
  refine ⟨c, ?_, ?_⟩
  · rw [h.run_eq.2.2, hu]
  · rw [h.started_eq, h.run_eq.2.1, hc]

theorem covered (h : Filed e k m m') (hc : Covered m e k) : Covered m' e k := by
  intro d hd
  rw [h.run_eq.2.1]
  rcases h.tickets d hd with hz | ⟨hd', hs⟩
  · rw [hz]
    exact Nat.zero_le _
  · rw [hs]
    exact hc d hd'

theorem ripened (h : Filed e k m m') (hr : Ripened (m.history e k) (started (m.history e k) ++ cs)) :
    Ripened (m'.history e k) (started (m'.history e k) ++ cs) := by
  rw [h.started_eq]
  obtain ⟨vs, hv, -⟩ := h.marks
  rw [hv]
  exact hr.append vs

theorem onward (h : Filed e k m m') (hs : Stage t d e k m') : Onward t d e k m m' :=
  ⟨hs, h.inOrder, h.covered⟩

theorem of_threads (he : m'.engines = m.engines) (hd : m'.drains = m.drains)
    (ht : m'.trace = m.trace) : Filed e k m m' := by
  refine .same ?_ ?_ fun d => ?_
  · rw [history, ht, history]
  · rw [queue, engine, he, queue, engine]
  · rw [drain, hd, drain]
    exact ⟨rfl, rfl⟩

end Filed

theorem Onward.of_filed (h : Filed e k m n) (ho : Onward t d e k n m') : Onward t d e k m m' :=
  ⟨ho.stage, fun hi => ho.inOrder (h.inOrder hi), fun hc => ho.covered (h.covered hc)⟩

theorem Stage.keep (h : Stage t d e k m) (hf : Filed e k m m')
    (hs : (m'.thread t).stack = (m.thread t).stack)
    (hc : (m'.thread t).control = (m.thread t).control ∨
      ∃ p, (m'.thread t).control = .back (.error p))
    (he : ∀ p, (m.thread t).status = .ended p → (m'.thread t).status = .ended p)
    (hw : ∀ target pre, Waits m t e k target pre → Waits m' t e k target pre) :
    Stage t d e k m' := by
  have hback {o : Outcome} (ho : (m.thread t).control = .back o) :
      ∃ o', (m'.thread t).control = .back o' ∧ (o' = o ∨ ∃ p, o' = .error p) := by
    rcases hc with hc | ⟨p, hc⟩
    · exact ⟨o, hc.trans ho, .inl rfl⟩
    · exact ⟨_, hc, .inr ⟨p, rfl⟩⟩
  cases h with
  | rest ticket o hs' hc' hh hst =>
    obtain ⟨o', ho, -⟩ := hback hc'
    exact .rest ticket o' (hs.trans hs') ho (hf.holds hh) (hf.settled hst)
  | waiting wakes c target pre batch ticket o hs' hwk hc' hh hst hg hp =>
    obtain ⟨o', ho, -⟩ := hback hc'
    exact .waiting wakes c target pre batch ticket o' (hs.trans hs') hwk ho (hf.holds hh)
      (hf.settled hst) (hw _ _ hg) (by rw [hf.started_eq, hp])
  | landed batch ticket o hs' hc' hh hst hr =>
    obtain ⟨o', ho, hoo⟩ := hback hc'
    refine .landed batch ticket o' (hs.trans hs') ho (hf.holds hh) (hf.settled hst) fun r hok =>
      hf.ripened (hr r ?_)
    rcases hoo with rfl | ⟨p, rfl⟩
    · exact hok
    · cases hok
  | running above batch ticket hs' ha hh hrun hr =>
    exact .running above batch ticket (hs.trans hs') ha (hf.holds hh) (hf.running hrun) (hf.ripened hr)
  | beingStopped lost ticket hu hh hst =>
    obtain ⟨fs, o, hs', hc', hu⟩ := hu
    obtain ⟨o', ho, hoo⟩ := hback hc'
    refine .beingStopped lost ticket ⟨fs, o', hs.trans hs', ho, ?_⟩ (hf.holds hh) (hf.settled hst)
    rcases hoo with rfl | ⟨p, rfl⟩
    · exact hu
    · exact hu.error p
  | gone lost p hs' he' hh hst hl =>
    exact .gone lost p (hs.trans hs') (he p he') (hf.holds hh) (hf.settled hst) hl

theorem resume_light (m : Machine) (t : Nat) (o : Outcome) (hf : f.isPass = false) :
    ∃ scope, (scope = .plain ∨ scope = .grace) ∧ ThreadTurn scope (some f) t m (m.resume t o f) := by
  cases f with
  | grace e k c target => exact ⟨_, .inr rfl, Actions.resumeGrace .refl o e k c target⟩
  | detached | batch | worker => cases hf
  | _ => exact ⟨_, .inl rfl, Actions.resumePlain .refl o rfl⟩

/-- The stack still stands on `base`, with no frames of passes above. -/
def NoPassAbove (m : Machine) (t : Nat) (base : List Frame) : Prop :=
  ∃ above, (m.thread t).stack = above ++ base ∧ ∀ f ∈ above, f.isPass = false

theorem ThreadTurn.noPassAbove (h : ThreadTurn scope top t m m') (hs : scope = .plain ∨ scope = .grace)
    (ht : t < m.threads.size) (hst : (m.thread t).stack = above ++ base)
    (ha : ∀ f ∈ above, f.isPass = false) : Filed e k m m' ∧ NoPassAbove m' t base := by
  have hserves : scope.serves e k = false := by rcases hs with rfl | rfl <;> rfl
  have hall : scope ≠ .all := by rcases hs with rfl | rfl <;> nofun
  refine ⟨h.filed hserves, ?_⟩
  rcases h.stack_eq hall ht with ⟨fs, hfs, hp⟩ | ⟨d, own, p, n, hsc, -⟩
  · refine ⟨fs ++ above, by rw [hfs, hst, List.append_assoc], fun f hf => ?_⟩
    rcases List.mem_append.1 hf with hf | hf
    · have hpush := hp f hf
      rcases hs with rfl | rfl <;> cases f <;> first | rfl | simp
        [Scope.pushes, Scope.serves, Frame.isGrace] at hpush
    · exact ha f hf
  · rcases hs with rfl | rfl <;> cases hsc

theorem advance_back {rest : List Frame} (hc : (m.thread t).control = .back o)
    (hs : (m.thread t).stack = f :: rest) :
    m.advance t = (m.modifyThread t fun x => { x with stack := rest }).resume t o f := by
  rw [advance, hc, hs]

theorem advance_noPassAbove (hb : m.BuildsIdle) (ht : m.turn = some t) (hlt : t < m.threads.size)
    (hs : (m.thread t).stack = above ++ base) (ha : ∀ f ∈ above, f.isPass = false)
    (hn : above ≠ [] ∨ ∃ held op, (m.thread t).control = .eval held op) (hne : base ≠ []) :
    Filed e k m (m.advance t) ∧ NoPassAbove (m.advance t) t base := by
  unfold advance
  dsimp only
  split
  · rename_i held op hx
    have hop : ThreadTurn .plain none t m (m.start t held op) := Actions.start .refl held (hb.op ht hx)
    exact hop.noPassAbove (.inl rfl) hlt hs ha
  · rename_i o hx hnil
    rw [hnil] at hs
    exact absurd (List.append_eq_nil_iff.1 hs.symm).2 hne
  · rename_i o f rest hx hst
    rw [hst] at hs
    cases above with
    | nil =>
      rcases hn with hn | ⟨held, op, hn⟩
      · exact absurd rfl hn
      · cases hx.symm.trans hn
    | cons g above =>
      obtain ⟨rfl, rfl⟩ := List.cons.inj hs
      obtain ⟨scope, hsc, hr⟩ := resume_light (m.modifyThread t fun x =>
        { x with stack := above ++ base }) t o (ha f List.mem_cons_self)
      have hpop : Filed e k m (m.modifyThread t fun x => { x with stack := above ++ base }) :=
        .of_threads rfl rfl rfl
      obtain ⟨hf, hal⟩ := hr.noPassAbove hsc (Nat.lt_of_lt_of_le hlt (Table.size_le_modify ..))
        (stack_pop ..) fun g hg => ha g (List.mem_cons_of_mem _ hg)
      exact ⟨hpop.trans hf, hal⟩

theorem runBatch_onward (ht : t < m.threads.size) (hs : (m.thread t).stack = [.worker d ticket])
    (hh : Holds m e k ticket batch) (hf : Settled m e k)
    (hr : Ripened (m.history e k) (started (m.history e k) ++ batch)) :
    Onward t d e k m (m.runBatch t e k batch) := by
  cases batch with
  | nil =>
    have hd : Filed e k m (m.done t) := .of_threads rfl rfl rfl
    exact hd.onward (.rest ticket _ ((stack_back ..).trans hs) (control_back ..) (hd.holds hh)
      (hd.settled hf))
  | cons c rest =>
    let n := (m.mark t e k (.callbackStarted c)).push t (.batch e k rest)
    have hstack : (n.thread t).stack = [] ++ [.batch e k rest, .worker d ticket] := by
      rw [stack_push]
      exact congrArg _ hs
    have hhist : n.history e k = (t, .callbackStarted c) :: m.history e k := history_mark_self
    have hstarted : started (n.history e k) ++ rest = started (m.history e k) ++ c :: rest := by
      rw [hhist, started, List.append_assoc]
      rfl
    have hnext : (started (m.history e k) ++ c :: rest)[(started (m.history e k)).length]? = some c :=
      by simp
    have hholds : Holds n e k ticket rest := by
      refine ⟨?_, ?_⟩
      · rw [hstarted, hhist]
        exact hh.queued
      · rw [hstarted]
        exact hh.ticket
    have hrunning : Running n t e k := by
      refine ⟨c, ?_, ?_⟩
      · rw [hhist, underway, if_pos rfl]
      · rw [hhist, started, finished, hf]
        nofun
    have hcovered (hc : Covered m e k) : Covered n e k := by
      intro d' hd'
      rw [hhist]
      exact hc d' hd'
    have hripe : Ripened (n.history e k) (started (n.history e k) ++ rest) := by
      rw [hstarted, hhist]
      exact hr.append [_]
    have hin (hi : InOrder (m.history e k)) : InOrder (n.history e k) := by
      rw [hhist]
      refine hi.started ?_ fun hf => hr hf _ c hnext
      rw [hh.queued]
      simp
    have hrun : ThreadTurn .plain none t n (n.runCallback t e c) := .actions (Actions.runCallback .refl e c)
    obtain ⟨hfiled, above, hs', ha⟩ := hrun.noPassAbove (.inl rfl)
      (Nat.lt_of_lt_of_le ht (Table.size_le_modify ..)) hstack fun f hf => absurd hf List.not_mem_nil
    exact ⟨.running above rest ticket hs' ha (hfiled.holds hholds) (hfiled.running hrunning)
      (hfiled.ripened hripe), fun hi => hfiled.inOrder (hin hi), fun hc => hfiled.covered (hcovered hc)⟩

theorem endCallback_onward (ht : t < m.threads.size) (hs : (m.thread t).stack = [.worker d ticket])
    (hh : Holds m e k ticket batch) (hf : Running m t e k)
    (hr : Ripened (m.history e k) (started (m.history e k) ++ batch)) (o : Outcome) :
    Onward t d e k m (m.endCallback t e k batch o) := by
  have hend (n : Machine) (hn : Filed e k m n) (hlt : t < n.threads.size)
      (hsn : (n.thread t).stack = [.worker d ticket]) :
      Onward t d e k m ((n.mark t e k .callbackEnded).runBatch t e k batch) := by
    obtain ⟨c, hu, hc⟩ := hn.running hf
    obtain ⟨hq, hti⟩ := hn.holds hh
    have hhist : (n.mark t e k .callbackEnded).history e k = (t, .callbackEnded) :: n.history e k :=
      history_mark_self
    have hfin : finished ((t, .callbackEnded) :: n.history e k) = finished (n.history e k) ++ [c] := by
      rw [finished, hu]
      rfl
    have hholds : Holds (n.mark t e k .callbackEnded) e k ticket batch := by
      refine ⟨?_, ?_⟩ <;> rw [hhist]
      · exact hq
      · exact hti
    have hsettled : Settled (n.mark t e k .callbackEnded) e k := by
      rw [Settled, hhist, hfin, started, hc]
      nofun
    have hripe : Ripened ((n.mark t e k .callbackEnded).history e k)
        (started ((n.mark t e k .callbackEnded).history e k) ++ batch) := by
      rw [hhist]
      exact (hn.ripened hr).append [_]
    obtain ⟨hst, hin, hco⟩ := runBatch_onward (m := n.mark t e k .callbackEnded) hlt hsn hholds
      hsettled hripe
    refine ⟨hst, fun hi => hin ?_, fun hc => hco ?_⟩
    · rw [hhist]
      exact Each.cons (hn.inOrder hi) nofun
    · intro d' hd'
      rw [hhist, hfin, List.length_append]
      exact (hn.covered hc d' hd').trans (Nat.le_add_right ..)
  cases o with
  | ok r => exact hend m (.of_threads rfl rfl rfl) ht hs
  | error p =>
    exact hend (m.log t (.callbackPanicked k p)) (.same (history_emit rfl e k) rfl fun _ => ⟨rfl, rfl⟩)
      ht hs

theorem resumeDetached_onward (ht : t < m.threads.size)
    (hs : (m.thread t).stack = [.worker d ticket]) (hh : Holds m e k ticket batch)
    (hf : Settled m e k) (o : Outcome)
    (hr : ∀ r, o = .ok r → Ripened (m.history e k) (started (m.history e k) ++ batch)) :
    Onward t d e k m (m.resumeDetached t e k batch o) := by
  cases o with
  | error p =>
    have hd : Filed e k m (m.discardBatch t e batch (.error p)) :=
      Actions.filed (Actions.discardBatch (.refl : Actions .plain t m m) e batch _) rfl
    exact hd.onward (.beingStopped batch ticket (discardBatch_unwinding hs e batch p) (hd.holds hh)
      (hd.settled hf))
  | ok r =>
    have hl : Filed e k m (m.log t (.callbacksRunning k batch.length)) :=
      .same (history_emit rfl e k) rfl fun _ => ⟨rfl, rfl⟩
    exact (runBatch_onward (m := m.log t (.callbacksRunning k batch.length)) ht hs (hl.holds hh)
      (hl.settled hf) (hl.ripened (hr r rfl))).of_filed hl

theorem startSynchronize_onward
    (hs : (m.thread t).stack = [.detached e k batch, .worker d ticket])
    (hh : Holds m e k ticket batch) (hst : Settled m e k) (hq : m.queue e k = []) :
    Onward t d e k m (m.startSynchronize t e k) := by
  have hf : Filed e k m (m.startSynchronize t e k) := startSynchronize_filed m t e k
  refine hf.onward ?_
  rcases startSynchronize_cases m t e k with h | ⟨-, h⟩ | ⟨c, target, h⟩
  · rw [h] at hf ⊢
    refine .landed batch ticket _ ((stack_back ..).trans hs) (control_back ..) (hf.holds hh)
      (hf.settled hst) ?_
    intro r _ hfair
    refine absurd ?_ (hfair.skipped t)
    exact (history_mark_self (m := m)).symm ▸ List.mem_cons_self
  · rw [h] at hf ⊢
    exact .landed batch ticket _ ((stack_back ..).trans hs) (control_back ..) (hf.holds hh)
      (hf.settled hst) fun r hr => by cases hr
  · refine .waiting [] c target (m.history e k) batch ticket _ (h.stack.trans (by rw [hs]; rfl)) nofun
      h.control (hf.holds hh) (hf.settled hst) h.waits ?_
    rw [hf.started_eq, hh.queued, hq, List.append_nil]

theorem runCallbacks_onward (hs : (m.thread t).stack = [.worker d ticket])
    (hh : Holds m e k none []) (hf : Settled m e k)
    (ht : ∀ n, ticket = some n → n ≤ (queued (m.history e k)).length) :
    Onward t d e k m (m.runCallbacks t e k) := by
  have hall : started (m.history e k) ++ (m.engine e).queue k = queued (m.history e k) := by
    rw [hh.queued, List.append_nil]
    rfl
  unfold runCallbacks
  split
  · rename_i hq
    have hd : Filed e k m (m.done t) := .of_threads rfl rfl rfl
    have hh' : Holds m e k ticket [] := ⟨hh.queued, by rw [← hq, hall]; exact ht⟩
    exact hd.onward (.rest ticket _ ((stack_back ..).trans hs) (control_back ..) (hd.holds hh')
      (hd.settled hf))
  · let n := (m.modifyEngine e fun x => x.setQueue k []).push t
      (.detached e k ((m.engine e).queue k))
    have hq : n.queue e k = [] :=
      (queue_setQueue m e e k k fun _ => []).trans (if_pos ⟨rfl, rfl⟩)
    have hn : Holds n e k ticket ((m.engine e).queue k) := by
      refine ⟨?_, ?_⟩
      · rw [hq, List.append_nil]
        exact hall.symm
      · exact fun i hi => (ht i hi).trans_eq (congrArg List.length hall.symm)
    have hstack : (n.thread t).stack = [.detached e k ((m.engine e).queue k), .worker d ticket] := by
      rw [stack_push]
      exact congrArg _ hs
    obtain ⟨hst, hin, hco⟩ := startSynchronize_onward hstack hn hf hq
    exact ⟨hst, hin, hco⟩

theorem endThread_onward (hh : Holds m e k none cs) (hst : Settled m e k) (p : Option Payload)
    (hl : p = none → cs = []) : Onward t d e k m (m.endThread t p) := by
  have hf : Filed e k m (m.endThread t p) := (Leave.endThread m p).filed e k
  exact hf.onward (.gone cs p (stack_endThread ..) (status_endThread_self ..) (hf.holds hh)
    (hf.settled hst) hl)

theorem startPass_eq (hd : m.Serves d e k) (t : Nat) : m.startPass t d =
    (m.modifyDrain d fun x => { x with passes := (m.drain d).passes + 1 }).runCallbacks t e k := by
  have hw : ((m.modifyDrain d fun x => { x with passes := (m.drain d).passes + 1 }).drain d).work =
      .callbacks e k := (part_modifyDrain Drain.work m d d
    (f := fun x => { x with passes := (m.drain d).passes + 1 }) fun _ => rfl).trans hd
  unfold startPass
  dsimp only
  rw [hw]

theorem workerLoop_onward (hd : m.Serves d e k) (hs : (m.thread t).stack = [])
    (hh : Holds m e k none []) (hf : Settled m e k)
    (hr : (m.drain d).tickets.requested = (queued (m.history e k)).length) :
    Onward t d e k m (m.workerLoop t d) := by
  have hpush (ticket : Option Nat) :
      ((m.push t (.worker d ticket)).thread t).stack = [.worker d ticket] := by
    rw [stack_push, hs]
  unfold workerLoop
  split
  · exact endThread_onward hh hf none fun _ => rfl
  · have hw : Filed e k m ((m.push t (.worker d none)).waitFor t d) :=
      (Filed.of_threads rfl rfl rfl : Filed e k m (m.push t (.worker d none))).trans
        ((Leave.waitFor _ d).filed e k)
    have hc : (((m.push t (.worker d none)).waitFor t d).thread t).control = .back (.ok .unit) :=
      (control_stop ..).trans (control_back ..)
    exact hw.onward (.rest none _ (((stack_stop ..).trans (stack_back ..)).trans (hpush none)) hc
      (hw.holds hh) (hw.settled hf))
  · rename_i n hduty
    let m₁ := (m.push t (.worker d (some n))).modifyDrain d fun x =>
      { x with passes := (m.drain d).passes + 1 }
    have hpass : (m.push t (.worker d (some n))).startPass t d = m₁.runCallbacks t e k :=
      startPass_eq (m := m.push t (.worker d (some n))) hd t
    have hn : n = (m.drain d).tickets.requested := by
      unfold Tickets.duty at hduty
      split at hduty
      · split at hduty <;> cases hduty
      · exact (Tickets.Duty.serve.inj hduty).symm
    rw [hpass]
    have hm : Filed e k m m₁ :=
      (Filed.of_threads rfl rfl rfl : Filed e k m (m.push t (.worker d (some n)))).trans
        (.modifyDrain _ d fun _ => ⟨rfl, rfl⟩)
    refine (runCallbacks_onward (m := m₁) (hpush _) (hm.holds hh) (hm.settled hf)
      fun i hi => ?_).of_filed hm
    obtain rfl := Option.some.inj hi
    exact Nat.le_of_eq (hn.trans hr)

theorem complete_covered {n : Nat} (hn : Holds m e k (some n) [])
    (hf : Settled m e k) (hv : ∀ d', m.Serves d' e k → d' = d) :
    Covered (m.modifyDrain d fun x => { x with tickets := x.tickets.complete n }) e k := by
  intro d' hd'
  have hsame : m.Serves d' e k := (part_modifyDrain Drain.work m d d'
    (f := fun x => { x with tickets := x.tickets.complete n }) fun _ => rfl).symm.trans hd'
  rw [drain_modifyDrain, if_pos (hv d' hsame)]
  have hle := hn.ticket n rfl
  rw [List.append_nil] at hle
  exact hle.trans_eq (congrArg List.length hf.symm)

theorem resumeWorker_onward (hd : m.Serves d e k) (hv : ∀ d', m.Serves d' e k → d' = d)
    (hs : (m.thread t).stack = []) (hh : Holds m e k ticket []) (hf : Settled m e k)
    (hr : (m.drain d).tickets.requested = (queued (m.history e k)).length) (o : Outcome) :
    Onward t d e k m (m.resumeWorker t d ticket o) := by
  cases o with
  | error p => exact endThread_onward hh.drop hf _ nofun
  | ok r =>
    cases ticket with
    | none => exact workerLoop_onward hd hs hh hf hr
    | some n =>
      let m₁ := m.modifyDrain d fun x => { x with tickets := x.tickets.complete n }
      have hn : Filed e k m₁ (m₁.notify d) := .notify m₁ d
      have hd' : (m₁.notify d).Serves d e k := (part_drain_notify Drain.work (fun _ _ => rfl) m₁ d d).trans
        ((part_modifyDrain Drain.work m d d
          (f := fun x => { x with tickets := x.tickets.complete n }) fun _ => rfl).trans hd)
      have hstack : ((m₁.notify d).thread t).stack = [] :=
        (part_notify Thread.stack (fun _ _ => rfl) m₁ d t).trans hs
      have hholds : Holds m₁ e k none [] := ⟨hh.queued, nofun⟩
      have hreq : ((m₁.notify d).drain d).tickets.requested =
          (queued ((m₁.notify d).history e k)).length := by
        refine (part_drain_notify (fun x => x.tickets.requested) (fun _ _ => rfl) m₁ d d).trans
          ((part_modifyDrain (fun x => x.tickets.requested) m d d
            (f := fun x => { x with tickets := x.tickets.complete n }) fun _ => rfl).trans (hr.trans ?_))
        rw [notify_eq]
        rfl
      obtain ⟨hst, hin, hco⟩ := workerLoop_onward hd' hstack (hn.holds hholds)
        (hn.settled (m := m₁) hf) hreq
      exact ⟨hst, fun hi => hin (hn.inOrder (m := m₁) hi),
        fun _ => hco (hn.covered (complete_covered hh hf hv))⟩

theorem Looked.onward {c : Snapshot} {target : UInt32} {why : Prop} {pre : History}
    (h : Looked t e k c target why m m') (hf : Filed e k m m')
    (hs : (m.thread t).stack = [.detached e k batch, .worker d ticket])
    (hh : Holds m e k ticket batch) (hst : Settled m e k)
    (hg : Waits m t e k target pre) (hp : queued pre = started (m.history e k) ++ batch)
    (hr : (m.domain e k).firstBlocker? target = none → Ripened (m.history e k) (queued pre)) :
    Onward t d e k m m' := by
  refine hf.onward ?_
  cases h.look with
  | ended hb hs' hc hhist =>
    refine .landed batch ticket _ (hs'.trans hs) hc (hf.holds hh) (hf.settled hst) fun r _ =>
      hf.ripened ?_
    rw [← hp]
    exact hr hb
  | broken p _ hs' hc hhist =>
    exact .landed batch ticket _ (hs'.trans hs) hc (hf.holds hh) (hf.settled hst)
      fun r hr => by cases hr
  | again wakes hw hs' hc hhist =>
    obtain ⟨r, hc⟩ := hc
    exact .waiting wakes c target pre batch ticket (.ok r) (hs'.trans (by rw [hs])) hw hc (hf.holds hh)
      (hf.settled hst) (hg.went (h.went hhist) (by rw [h.engines]) nofun) (by rw [hf.started_eq, hp])

theorem filed_pop (m : Machine) (t : Nat) (rest : List Frame) :
    Filed e k m (m.modifyThread t fun x => { x with stack := rest }) := .of_threads rfl rfl rfl

theorem waiting_onward {wakes : List Frame} {c : Snapshot} {target : UInt32} {pre : History} {o : Outcome}
    (hv : Visited m)
    (hs : (m.thread t).stack = wakes ++ [.grace e k c target, .detached e k batch, .worker d ticket])
    (hw : ∀ f ∈ wakes, f.isWake = true) (hc : (m.thread t).control = .back o)
    (hh : Holds m e k ticket batch) (hf : Settled m e k) (hg : Waits m t e k target pre)
    (hp : queued pre = started (m.history e k) ++ batch) : Onward t d e k m (m.advance t) := by
  cases wakes with
  | nil =>
    have hpop : Filed e k m (m.modifyThread t fun x =>
        { x with stack := [.detached e k batch, .worker d ticket] }) := filed_pop ..
    rw [advance_back hc hs]
    have hl := resume_grace_looked (m.modifyThread t fun x =>
      { x with stack := [.detached e k batch, .worker d ticket] }) t o e k c target
    exact (hl.onward (resumeGrace_filed _ t o e k c target) (stack_pop ..) (hpop.holds hh)
      (hpop.settled hf) (hg.pop _) hp fun hb => hg.ripened hv hb).of_filed hpop
  | cons f wakes =>
    rw [advance_back hc hs]
    cases f with
    | wake s id =>
      have hw' : Filed e k m ((m.modifyThread t fun x => { x with stack := wakes ++
          [.grace e k c target, .detached e k batch, .worker d ticket] }).resume t o (.wake s id)) :=
        .of_threads rfl rfl rfl
      exact hw'.onward (.waiting wakes c target pre batch ticket o
        ((stack_back ..).trans (stack_pop ..)) (fun f hf => hw f (List.mem_cons_of_mem _ hf))
        (control_back ..) (hw'.holds hh) (hw'.settled hf) ⟨hg.size, hg.split⟩ hp)
    | _ => exact absurd (hw _ List.mem_cons_self) nofun

theorem running_onward {above : List Frame} (hb : m.BuildsIdle) (ht : m.turn = some t)
    (hlt : t < m.threads.size)
    (hs : (m.thread t).stack = above ++ [.batch e k batch, .worker d ticket])
    (ha : ∀ f ∈ above, f.isPass = false) (hh : Holds m e k ticket batch) (hf : Running m t e k)
    (hr : Ripened (m.history e k) (started (m.history e k) ++ batch)) :
    Onward t d e k m (m.advance t) := by
  have hup (hn : above ≠ [] ∨ ∃ held op, (m.thread t).control = .eval held op) :
      Onward t d e k m (m.advance t) := by
    obtain ⟨hfl, above', hs', ha'⟩ := advance_noPassAbove hb ht hlt hs ha hn (List.cons_ne_nil _ _)
    exact hfl.onward (.running above' batch ticket hs' ha' (hfl.holds hh) (hfl.running hf)
      (hfl.ripened hr))
  cases above with
  | cons f above => exact hup (.inl (List.cons_ne_nil f above))
  | nil =>
    cases hc : (m.thread t).control with
    | eval held op => exact hup (.inr ⟨held, op, hc⟩)
    | back o =>
      have hpop : Filed e k m (m.modifyThread t fun x => { x with stack := [.worker d ticket] }) :=
        filed_pop ..
      rw [advance_back hc hs]
      exact (endCallback_onward (Nat.lt_of_lt_of_le hlt (Table.size_le_modify ..)) (stack_pop ..)
        (hpop.holds hh) (hpop.running hf) hr o).of_filed hpop

theorem unwinding_onward {lost : List Callback} (hu : Unwinding m t [.worker d ticket])
    (hh : Holds m e k ticket lost) (hf : Settled m e k) : Onward t d e k m (m.advance t) := by
  obtain ⟨fs, o, hs, hc, hu⟩ := hu
  have hpop (rest : List Frame) : Filed e k m (m.modifyThread t fun x => { x with stack := rest }) :=
    filed_pop ..
  cases fs with
  | nil =>
    obtain ⟨p, rfl⟩ := hu
    rw [advance_back hc hs]
    have hend : Onward t d e k (m.modifyThread t fun x => { x with stack := [] })
        ((m.modifyThread t fun x => { x with stack := [] }).endThread t (some p)) :=
      endThread_onward ((hpop []).holds hh).drop ((hpop []).settled hf) (some p) nofun
    exact hend.of_filed (hpop [])
  | cons f fs =>
    have hplain : f.isPass = false := by
      cases f <;> first | rfl | exact hu.elim
    rw [advance_back hc hs]
    obtain ⟨scope, hsc, hr⟩ := resume_light (m.modifyThread t fun x =>
      { x with stack := fs ++ [.worker d ticket] }) t o hplain
    have hserves : scope.serves e k = false := by rcases hsc with rfl | rfl <;> rfl
    have hfl := (hpop (fs ++ [.worker d ticket])).trans (hr.filed hserves)
    exact hfl.onward (.beingStopped lost ticket (resume_unwinding (stack_pop ..) hu) (hfl.holds hh)
      (hfl.settled hf))

/-- The thread that has the turn goes on with its pass. -/
theorem Stage.advance (h : Stage t d e k m) (hm : Reachable m) (hb : m.BuildsIdle)
    (ht : m.turn = some t) (hd : m.Serves d e k) : Onward t d e k m (m.advance t) := by
  have hv := hm.visited
  have hlt := hv.orderly.lt_size ht
  have hpop (rest : List Frame) : Filed e k m (m.modifyThread t fun x => { x with stack := rest }) :=
    filed_pop ..
  have hlt' (rest : List Frame) :
      t < (m.modifyThread t fun x => { x with stack := rest }).threads.size :=
    Nat.lt_of_lt_of_le hlt (Table.size_le_modify ..)
  cases h with
  | rest ticket o hs hc hh hf =>
    rw [advance_back hc hs]
    exact (resumeWorker_onward (m := m.modifyThread t fun x => { x with stack := [] }) hd
      (fun d' hd' => hv.drainsAssigned.one hd' hd) (stack_pop ..) ((hpop _).holds hh) ((hpop _).settled hf)
      (hm.rooted.requested d e k hd) o).of_filed (hpop _)
  | waiting wakes c target pre batch ticket o hs hw hc hh hf hg hp =>
    exact waiting_onward hv hs hw hc hh hf hg hp
  | landed batch ticket o hs hc hh hf hr =>
    rw [advance_back hc hs]
    exact (resumeDetached_onward (hlt' _) (stack_pop ..) ((hpop _).holds hh) ((hpop _).settled hf)
      o hr).of_filed (hpop _)
  | running above batch ticket hs ha hh hf hr =>
    exact running_onward hb ht hlt hs ha hh hf hr
  | beingStopped lost ticket hu hh hf => exact unwinding_onward hu hh hf
  | gone lost p hs he hh hf hl =>
    rw [(hv.orderly.turn t ht).1] at he
    cases he

/-- What has become of the callbacks of a domain, whether or not anybody serves it. -/
inductive Ledger (m : Machine) (e : Nat) (k : Kind) : Prop
  | unserved (hd : ∀ d, ¬m.Serves d e k) (hh : Holds m e k none []) (hf : Settled m e k)
  | served (d : Nat) (hd : m.Serves d e k) (h : Stage (m.drain d).thread d e k m)

/-- Callbacks finish in the order in which they start. -/
theorem Stage.finished_started (h : Stage t d e k m) :
    finished (m.history e k) <+: started (m.history e k) := by
  have hsettled (hf : Settled m e k) : finished (m.history e k) <+: started (m.history e k) :=
    ⟨[], (List.append_nil _).trans hf⟩
  cases h with
  | rest _ _ _ _ _ hf | waiting _ _ _ _ _ _ _ _ _ _ _ hf | landed _ _ _ _ _ _ hf
  | beingStopped _ _ _ _ hf | gone _ _ _ _ _ hf => exact hsettled hf
  | running _ _ _ _ _ _ hf =>
    obtain ⟨c, -, hc⟩ := hf
    exact ⟨[c], hc.symm⟩

/-- Whatever the stage, the callbacks enqueued are those started, those in hand or lost, and those in
the queue. -/
theorem Stage.holds (h : Stage t d e k m) : ∃ batch, Holds m e k none batch := by
  cases h with
  | rest _ _ _ _ hh | waiting _ _ _ _ _ _ _ _ _ _ hh | landed _ _ _ _ _ hh | running _ _ _ _ _ hh
  | beingStopped _ _ _ hh | gone _ _ _ _ hh => exact ⟨_, hh.drop⟩

theorem Holds.started_queued (h : Holds m e k ticket batch) :
    started (m.history e k) <+: History.queued (m.history e k) := by
  rw [h.queued, List.append_assoc]
  exact List.prefix_append ..

theorem Ledger.prefixes (h : Ledger m e k) :
    finished (m.history e k) <+: started (m.history e k) ∧
      started (m.history e k) <+: queued (m.history e k) := by
  cases h with
  | unserved _ hh hf => exact ⟨⟨[], (List.append_nil _).trans hf⟩, hh.started_queued⟩
  | served d _ hs =>
    obtain ⟨batch, hh⟩ := hs.holds
    exact ⟨hs.finished_started, hh.started_queued⟩

theorem External.ledger (he : External m m') (hm : Orderly m ∧ DrainsAssigned m) (h : Ledger m e k) :
    Ledger m' e k := by
  obtain ⟨ho, hst⟩ := hm
  have hf := he.filed e k
  cases h with
  | unserved hd hh hs =>
    exact .unserved (fun d hd' => hd d ((he.work_eq d).symm.trans hd')) (hf.holds hh) (hf.settled hs)
  | served d hd h =>
    obtain ⟨hd', ht⟩ := hd.kept he.kept
    refine .served d hd' ?_
    rw [ht]
    have hend (p : Option Payload) := he.ended (q := p) (hst.thread d e k hd)
    by_cases hs : (m.thread (m.drain d).thread).stack = []
    · -- the thread has ended
      cases h with
      | gone lost p hs' hp hh hst hl =>
        exact .gone lost p (he.stack_eq_nil hs) (hend p hp) (hf.holds hh) (hf.settled hst) hl
      | rest _ _ hs' | landed _ _ _ hs' => exact absurd (hs.symm.trans hs') nofun
      | waiting wakes _ _ _ _ _ _ hs' | running wakes _ _ hs' =>
        exact absurd (hs.symm.trans hs') (by simp)
      | beingStopped lost ticket hu hh =>
        obtain ⟨fs, o, hs', -⟩ := hu
        exact absurd (hs.symm.trans hs') (by simp)
    · obtain ⟨hs', hc⟩ := he.posture ho hs
      exact h.keep hf hs' hc hend fun _ _ hw =>
        hw.went (he.keepsEngines.went e k) (by rw [he.keepsEngines.engines]) nofun

theorem advance_ledger (hr : Reachable m) (hb : m.BuildsIdle) (ht : m.turn = some t)
    (h : Ledger m e k) : Ledger (m.advance t) e k ∧
      (InOrder (m.history e k) → InOrder ((m.advance t).history e k)) ∧
      (Covered m e k → Covered (m.advance t) e k) := by
  have hlt := hr.visited.orderly.lt_size ht
  have hk := advance_kept hb ht
  cases h with
  | unserved hd hh hs =>
    have hf := advance_filed hb ht (hr.framesFit t) fun d hd' => absurd hd' (hd d)
    refine ⟨?_, hf.inOrder, hf.covered⟩
    by_cases hnew : ∃ d, (m.advance t).Serves d e k
    · obtain ⟨d, hd'⟩ := hnew
      rcases advance_startsService hb ht hlt d e k hd' with hold | ⟨-, hs', hc⟩
      · exact absurd hold (hd d)
      · exact .served d hd' (.rest none _ hs' hc (hf.holds hh) (hf.settled hs))
    · exact .unserved (fun d hd' => hnew ⟨d, hd'⟩) (hf.holds hh) (hf.settled hs)
  | served d hd h =>
    obtain ⟨hd', hth⟩ := hd.kept hk
    by_cases hu : (m.drain d).thread = t
    · rw [hu] at h hth
      obtain ⟨hst, hin, hco⟩ := h.advance hr hb ht hd
      exact ⟨.served d hd' (by rwa [hth]), hin, hco⟩
    · have hf : Filed e k m (m.advance t) := advance_filed hb ht (hr.framesFit t) fun d' hd' => by
        rwa [hr.visited.drainsAssigned.one hd' hd]
      refine ⟨.served d hd' ?_, hf.inOrder, hf.covered⟩
      rw [hth]
      cases advance_unmoved hb ht hu with
      | started hle => exact absurd (hr.visited.drainsAssigned.thread d e k hd) (Nat.not_lt.2 hle)
      | same hs hc =>
        refine h.keep hf hs (.inl hc) (fun p hp => ?_) fun _ _ hw => ?_
        · exact (advance_changes hb ht).ended hr.visited.orderly (hr.visited.drainsAssigned.thread d e k hd)
            hp
        · obtain ⟨vs, hwent, hn⟩ := advance_went_ne hb hr.visited.nestsUnique ht hu hw.size k
          exact hw.went hwent (advance_engines_le hb ht) hn

theorem Reachable.ledger (h : Reachable m) (e : Nat) (k : Kind) :
    Ledger m e k ∧ InOrder (m.history e k) ∧ Covered m e k := by
  induction h with
  | @new workers host m hm =>
    obtain ⟨cs, -, rfl⟩ := new_eq hm
    have hno (d : Nat) : ¬Serves { schedulers := ⟨cs⟩, named := workers.length,
                                   hostWorkers := host } d e k := by
      intro hd
      rw [Serves, drain, Table.get_empty] at hd
      cases hd
    refine ⟨.unserved hno ⟨?_, fun n hn => absurd hn.symm (Option.some_ne_none n)⟩ rfl, ?_,
      fun d hd => absurd hd (hno d)⟩
    · rw [queue, engine, Table.get_empty]
      cases k <;> rfl
    · exact each_nil
  | @begin m h s ih =>
    have hx := begin_externals m s
    have hall := hx.preserves (P := fun m => DrainsAssigned m ∧ Ledger m e k ∧ InOrder (m.history e k) ∧
      Covered m e k) (fun n n' ho he hp => ⟨hp.1.change (.external he),
        he.ledger ⟨ho, hp.1⟩ hp.2.1, (he.filed e k).inOrder hp.2.2.1,
        (he.filed e k).covered hp.2.2.2⟩) h.visited.orderly ⟨h.visited.drainsAssigned, ih⟩
    exact hall.2
  | @step m m' h hb hs ih =>
    rcases step_cases hs with ⟨t, ht, rfl⟩ | ⟨t, rest, hn, hr, rfl⟩
    · obtain ⟨hl, hin, hco⟩ := advance_ledger h hb ht ih.1
      exact ⟨hl, hin ih.2.1, hco ih.2.2⟩
    · have hf : Filed e k m { m with turn := some t, ready := rest } := .of_threads rfl rfl rfl
      refine ⟨?_, ih.2⟩
      cases ih.1 with
      | unserved hd hh hst => exact .unserved hd (hf.holds hh) (hf.settled hst)
      | served d hd hst =>
        exact .served d hd (hst.keep hf rfl (.inl rfl) (fun _ hp => hp)
          fun _ _ hw => ⟨hw.size, hw.split⟩)

/-- When a callback starts, it is the next one in the order of the queue, and every section that was
open when it was enqueued has been closed by the thread that opened it. -/
theorem deferred_outlives_readers (h : Reachable m)
    (hp : ∀ u, (u, Mark.lockPanicked) ∉ m.history e k) (hs : ∀ u, (u, Mark.skipped) ∉ m.history e k)
    (ha : NoneStale (m.history e k)) {post past : History} {c : Callback}
    (hc : m.history e k = post ++ (t, .callbackStarted c) :: past) :
    Ripe past (started past).length c := by
  refine ((h.ledger e k).2.1 post t _ past hc c rfl).2 ?_
  have hf : Fair (m.history e k) := ⟨noneStranded_of_not_mem hp, hs, ha⟩
  rw [hc, List.append_cons] at hf
  exact hf.suffix

/-- A reader is inside when a value is retired, and leaves while the drain thread waits. -/
def retireWaiting : Machine :=
  let m := (sample.perform (.act 0 (.handle 0 (.readLock .regular)))).1
  let m := (m.perform (.act 1 (.handle 0 (.deferDrop .regular 7 4)))).1
  (m.perform (.act 0 (.handle 0 (.readUnlock .regular)))).1

theorem reachable_retireWaiting : Reachable retireWaiting :=
  ((reachable_sample.perform _ (by decide +kernel)).perform _ (by decide +kernel)).perform _
    (by decide +kernel)

theorem retired_value_outlives_reader :
    Reachable (retireWaiting.wake 1).settle ∧
      (retireWaiting.wake 1).settle.history 0 .regular = [(1, .callbackEnded),
        (1, .callbackStarted (.destroy 4 (some 7))), (1, .synchronizeReturned), (0, .closed 0 0),
        (1, .advanced 0), (1, .synchronizeCalled), (3, .queued (.destroy 4 (some 7))),
        (0, .opened 0 0)] ∧
      Ripe [(1, .synchronizeReturned), (0, .closed 0 0), (1, .advanced 0), (1, .synchronizeCalled),
        (3, .queued (.destroy 4 (some 7))), (0, .opened 0 0)] 0 (.destroy 4 (some 7)) := by
  have hr : Reachable (retireWaiting.wake 1).settle :=
    reachable_retireWaiting.resumeOnly (by decide +kernel) (by decide +kernel)
  have hh : (retireWaiting.wake 1).settle.history 0 .regular = [(1, .callbackEnded),
      (1, .callbackStarted (.destroy 4 (some 7))), (1, .synchronizeReturned), (0, .closed 0 0),
      (1, .advanced 0), (1, .synchronizeCalled), (3, .queued (.destroy 4 (some 7))),
      (0, .opened 0 0)] := rfl
  exact ⟨hr, hh, deferred_outlives_readers hr (by rw [hh]; simp) (by rw [hh]; simp)
    (noneStale_of_advances_lt (by rw [hh]; decide)) (hh.trans List.singleton_append.symm)⟩

end Machine

end GracePeriod
