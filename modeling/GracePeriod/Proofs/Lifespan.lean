import GracePeriod.Proofs.CallbackOrder
import GracePeriod.Proofs.Seats
import GracePeriod.Proofs.Shutdown
import GracePeriod.Proofs.GuardFrames
import GracePeriod.Proofs.Undisturbed

namespace GracePeriod.Machine

open History

variable {t u d e : Nat} {m m' n : Machine} {k : Kind} {f : Frame} {o : Outcome} {p q : Payload}
  {batch : List Callback} {ticket i : Option Nat} {rest : List Frame}

/-- A machine that scripts can bring about, at any point of a run in which no parked thread has been
resumed with a panic. -/
inductive Uninterrupted : Machine → Prop
  | new {workers : List Nat} {host : Nat} {m : Machine} (h : Machine.new workers host = .ok m) :
      Uninterrupted m
  | begin {m : Machine} (h : Uninterrupted m) (s : Script.Step) (hs : ∀ t, ¬m.Hits s t) :
      Uninterrupted (m.begin s).1
  | step {m m' : Machine} (h : Uninterrupted m) (hb : m.BuildsIdle) (hs : m.step = some m') : Uninterrupted m'

theorem Uninterrupted.undisturbed (h : Uninterrupted m) (e : Nat) (k : Kind) : Undisturbed e k m := by
  induction h with
  | new hm => exact .new hm
  | begin _ s hs ih => exact ih.begin s fun t ht => absurd ht (hs t)
  | step _ hb hs ih => exact ih.step hb hs

theorem Uninterrupted.reachable (h : Uninterrupted m) : Reachable m := (h.undisturbed 0 .regular).reachable

theorem Uninterrupted.perform (h : Uninterrupted m) (i : Nat) (op : Op)
    (hr : runsPlain stepLimit (m.begin (.act i op)).1 = true) :
    Uninterrupted (m.perform (.act i op)).1 := by
  have hb : Uninterrupted (m.begin (.act i op)).1 := h.begin _ fun t ⟨who, text, hs, _⟩ => nomatch hs
  exact run_induction (fun _ _ h hb hs => h.step hb hs) hr hb

theorem Moves.nests_ne {scope : Scope} (h : Moves scope t m m') (hu : u ≠ t) :
    m'.nests u = m.nests u := by
  induction h with
  | refl => rfl
  | tail _ hm ih =>
    refine Eq.trans ?_ ih
    rcases hm.nests with hn | ⟨e, k, rfl⟩ | ⟨e, k, rfl⟩
    · exact hn u
    · exact (Inside.openSection _ t e k).nests_ne hu
    · exact (Inside.closeSection _ t e k).nests_ne hu

theorem advance_nests_ne (hb : m.BuildsIdle) (ht : m.turn = some t) (hu : u ≠ t) :
    (m.advance t).nests u = m.nests u := by
  rcases advance_turn hb ht with h | ⟨n, h, hl⟩
  · exact h.nests_ne hu
  · exact (hl.keepsEngines.nests u).trans (h.nests_ne hu)

theorem Reachable.ended_of_advance {q : Option Payload} (h : Reachable m) (ht : m.turn = some t)
    (hu : u ≠ t) (hs : ((m.advance t).thread u).status = .ended q) :
    (m.thread u).status = .ended q := by
  obtain ⟨top, n, hn, hf⟩ := h.turnEnd ht
  have hend {n' : Machine} {q' : Option Payload} (hst : TicketMoves t n n n')
      (hs : ((n'.endThread t q').thread u).status = .ended q) : (m.thread u).status = .ended q := by
    rcases ended_of_endThread hs with hs | ⟨hut, -⟩
    · exact (hn.status u).symm.trans (hst.ended hs)
    · exact absurd hut hu
  cases hf with
  | goesOn hst => exact (hn.status u).symm.trans (hst.ended hs)
  | retires n' hst d ticket htop hd he => exact hend hst (he ▸ hs)
  | dies d ticket p htop hc he => exact hend .refl (he ▸ hs)

/-- Panic `p` of a pass over the domain is on its way to the end of the thread, or has ended it. -/
inductive Dying (p : Payload) (m : Machine) (t d e : Nat) (k : Kind) : Prop
  | detached (batch : List Callback) (ticket : Option Nat)
      (hs : (m.thread t).stack = [.detached e k batch, .worker d ticket])
      (hc : (m.thread t).control = .back (.error p))
  | failing (ticket : Option Nat) (h : Failing p m t [.worker d ticket])
  | ended (h : (m.thread t).status = .ended (some p)) (hs : (m.thread t).stack = [])

/-- The panic says that the thread has called for a grace period from inside a section, and inside it
still is. -/
def Within (p : Payload) (m : Machine) (t e : Nat) (k : Kind) : Prop :=
  p = .fault (.synchronizeInside k) ∧ m.readDepth t e k ≠ 0

theorem Within.of_nests (h : Within p m t e k) (hn : m'.nests t = m.nests t) : Within p m' t e k := by
  refine ⟨h.1, ?_⟩
  rw [readDepth, hn]
  exact h.2

theorem Failing.unique {w w' : Frame} (h : Failing p m t [w]) (h' : Failing q m t [w']) : p = q := by
  obtain ⟨fs, o, hs, hc, hp⟩ := h
  obtain ⟨fs', o', hs', hc', hq⟩ := h'
  obtain ⟨rfl, -⟩ := List.append_inj' (hs.symm.trans hs') rfl
  obtain rfl := Control.back.inj (hc.symm.trans hc')
  exact hp.unique hq

theorem Carries.of_mem {fs : List Frame} (h : Carries p fs o) (hf : f ∈ fs) :
    f.isPass = false ∧ f.isGrace = false := (unwinds_iff.2 ⟨p, h⟩).of_mem hf

theorem Carries.onlyPushes (h : Carries p (f :: rest) o) (m : Machine) (t : Nat) :
    OnlyPushes t m (m.resume t o f) := by
  cases f with
  | release e => exact .releaseHandle m t e o
  | shutdown ds saved => exact .shutdown m t ds saved
  | joined d ds saved => exact .resumeJoined m t d ds saved
  | _ => exact h.elim

theorem Failing.not_detached (h : Failing p m t [.worker d ticket]) :
    (m.thread t).stack ≠ [.detached e k batch, .worker d i] := by
  intro hs
  obtain ⟨fs, o, hs', -, hp⟩ := h
  have hfs : [Frame.detached e k batch] = fs :=
    (List.append_inj' (show [Frame.detached e k batch] ++ [.worker d i] = fs ++ [.worker d ticket]
      from hs.symm.trans hs') rfl).1
  rw [← hfs] at hp
  exact hp

namespace Dying

theorem of_eq (h : Dying p m' t d e k) (hs : (m'.thread t).stack = (m.thread t).stack)
    (hc : (m'.thread t).control = (m.thread t).control)
    (he : (m'.thread t).status = .ended (some p) → (m.thread t).status = .ended (some p)) :
    Dying p m t d e k := by
  cases h with
  | detached batch ticket hs' hc' => exact .detached batch ticket (hs.symm.trans hs') (hc.symm.trans hc')
  | failing ticket h =>
    obtain ⟨fs, o, hs', hc', hp⟩ := h
    exact .failing ticket ⟨fs, o, hs.symm.trans hs', hc.symm.trans hc', hp⟩
  | ended h hs' => exact .ended (he h) (hs.symm.trans hs')

theorem false_of_ok (h : Dying p m t d e k) {r : Result} (hs : (m.thread t).stack = f :: rest)
    (hf : f.isPass = true) (hc : (m.thread t).control = .back (.ok r)) : False := by
  cases h with
  | detached batch ticket hs' hc' => cases hc.symm.trans hc'
  | failing ticket h =>
    obtain ⟨fs, o, hs', hc', hp⟩ := h
    obtain rfl := Control.back.inj (hc.symm.trans hc')
    cases fs with
    | nil => cases hp
    | cons g fs =>
      obtain ⟨rfl, -⟩ := List.cons.inj (hs.symm.trans hs')
      cases hf.symm.trans (hp.of_mem List.mem_cons_self).1
  | ended h hnil => cases hs.symm.trans hnil

theorem false_of_mem (h : Dying p m t d e k) (hmem : f ∈ (m.thread t).stack)
    (hf : f.isGrace = true ∨ ∃ cs, f = .batch e k cs) : False := by
  cases h with
  | detached batch ticket hs =>
    rw [hs] at hmem
    rcases hf with hf | ⟨cs, rfl⟩
    · rcases List.mem_pair.1 hmem with rfl | rfl <;> cases hf
    · simp at hmem
  | failing ticket h =>
    obtain ⟨fs, o, hs, -, hp⟩ := h
    rw [hs] at hmem
    rcases List.mem_append.1 hmem with hmem | hmem
    · obtain ⟨hpass, hgrace⟩ := hp.of_mem hmem
      rcases hf with hf | ⟨cs, rfl⟩
      · cases hf.symm.trans hgrace
      · cases hpass
    · obtain rfl := List.mem_singleton.1 hmem
      rcases hf with hf | ⟨cs, hf⟩ <;> cases hf
  | ended h hnil =>
    rw [hnil] at hmem
    cases hmem

theorem eq_of_failing (h : Dying p m t d e k) (hf : Failing q m t [.worker d ticket]) : p = q := by
  cases h with
  | detached batch i hs => exact absurd hs hf.not_detached
  | failing i h =>
    exact h.unique hf
  | ended h hnil =>
    obtain ⟨fs, o, hs, -⟩ := hf
    simp [hs] at hnil

theorem eq_of_detached (h : Dying p m t d e k)
    (hs : (m.thread t).stack = [.detached e k batch, .worker d ticket])
    (hc : (m.thread t).control = .back (.error q)) : p = q := by
  cases h with
  | detached batch' i hs' hc' => exact Except.error.inj (Control.back.inj (hc'.symm.trans hc))
  | failing i h => exact absurd hs h.not_detached
  | ended h hnil => cases hs.symm.trans hnil

theorem of_endThread {r : Option Payload} (h : Dying p (m.endThread t r) t d e k) : r = some p := by
  have hnil := stack_endThread m t r
  cases h with
  | detached batch ticket hs => cases hnil.symm.trans hs
  | failing ticket h =>
    obtain ⟨fs, o, hs, -⟩ := h
    simp [hs] at hnil
  | ended h hs => exact Status.ended.inj ((status_endThread_self m t r).symm.trans h)

end Dying

theorem runBatch_lives (hlt : t < m.threads.size) (hs : (m.thread t).stack = [.worker d ticket])
    (cs : List Callback) : ¬Dying p (m.runBatch t e k cs) t d e k := by
  intro h
  cases cs with
  | nil => exact h.false_of_ok ((stack_back ..).trans hs) rfl (control_back ..)
  | cons c rest =>
    let n := (m.mark t e k (.callbackStarted c)).push t (.batch e k rest)
    have hstack : (n.thread t).stack = [] ++ [.batch e k rest, .worker d ticket] := by
      rw [stack_push]
      exact congrArg _ hs
    have hrun : ThreadTurn .plain none t n (n.runCallback t e c) := .actions (Actions.runCallback .refl e c)
    obtain ⟨-, above, hs', -⟩ := hrun.noPassAbove (e := e) (k := k) (.inl rfl)
      (Nat.lt_of_lt_of_le hlt (Table.size_le_modify ..)) hstack nofun
    refine h.false_of_mem (f := .batch e k rest) ?_ (.inr ⟨rest, rfl⟩)
    have hmem : Frame.batch e k rest ∈ above ++ [.batch e k rest, .worker d ticket] := by simp
    exact hs' ▸ hmem

theorem endCallback_lives (hlt : t < m.threads.size) (hs : (m.thread t).stack = [.worker d ticket])
    (cs : List Callback) (o : Outcome) : ¬Dying p (m.endCallback t e k cs o) t d e k := by
  cases o with
  | ok r => exact runBatch_lives (m := m.mark t e k .callbackEnded) hlt hs cs
  | error q =>
    exact runBatch_lives (m := (m.log t (.callbackPanicked k q)).mark t e k .callbackEnded) hlt hs cs

theorem startSynchronize_within (hs : (m.thread t).stack = [.detached e k batch, .worker d ticket])
    (h : Dying p (m.startSynchronize t e k) t d e k) :
    Within p (m.startSynchronize t e k) t e k := by
  rcases startSynchronize_cases m t e k with hsync | ⟨hd, hsync⟩ | ⟨c, target, hl⟩
  · rw [hsync] at h
    exact (h.false_of_ok ((stack_back ..).trans hs) rfl (control_back ..)).elim
  · rw [hsync] at h ⊢
    refine ⟨h.eq_of_detached ((stack_back ..).trans hs) (control_back ..), ?_⟩
    have hdepth := (OnlyPushes.back m t (.error (.fault (.synchronizeInside k)))).readDepth t e k
    exact hdepth ▸ hd
  · refine (h.false_of_mem (f := .grace e k c target) ?_ (.inl rfl)).elim
    rw [hl.stack]
    exact List.mem_cons_self

theorem runCallbacks_within (hs : (m.thread t).stack = [.worker d ticket])
    (h : Dying p (m.runCallbacks t e k) t d e k) : Within p (m.runCallbacks t e k) t e k := by
  revert h
  unfold runCallbacks
  split
  · exact fun h => (h.false_of_ok ((stack_back ..).trans hs) rfl (control_back ..)).elim
  · let n := m.modifyEngine e fun x => x.setQueue k []
    have hs' : ((n.push t (.detached e k ((m.engine e).queue k))).thread t).stack =
        [.detached e k ((m.engine e).queue k), .worker d ticket] := by
      rw [stack_push]
      exact congrArg _ hs
    exact startSynchronize_within hs'

theorem workerLoop_within (hd : m.Serves d e k) (hs : (m.thread t).stack = [])
    (h : Dying p (m.workerLoop t d) t d e k) : Within p (m.workerLoop t d) t e k := by
  have hpush (ticket : Option Nat) :
      ((m.push t (.worker d ticket)).thread t).stack = [.worker d ticket] := by
    rw [stack_push, hs]
  revert h
  unfold workerLoop
  split
  · exact fun h => nomatch h.of_endThread
  · have hstack : (((m.push t (.worker d none)).waitFor t d).thread t).stack = [.worker d none] :=
      ((stack_stop ..).trans (stack_back ..)).trans (hpush none)
    have hc : (((m.push t (.worker d none)).waitFor t d).thread t).control = .back (.ok .unit) :=
      (control_stop ..).trans (control_back ..)
    exact fun h => (h.false_of_ok hstack rfl hc).elim
  · rename_i n hduty
    rw [startPass_eq (m := m.push t (.worker d (some n))) hd t]
    exact runCallbacks_within (hpush _)

theorem resumeWorker_within (hd : m.Serves d e k) (hs : (m.thread t).stack = []) {r : Result}
    (h : Dying p (m.resumeWorker t d ticket (.ok r)) t d e k) :
    Within p (m.resumeWorker t d ticket (.ok r)) t e k := by
  cases ticket with
  | none => exact workerLoop_within hd hs h
  | some n =>
    let m₁ := m.modifyDrain d fun x => { x with tickets := x.tickets.complete n }
    have hd' : (m₁.notify d).Serves d e k :=
      (part_drain_notify Drain.work (fun _ _ => rfl) m₁ d d).trans
        ((part_modifyDrain Drain.work m d d
          (f := fun x => { x with tickets := x.tickets.complete n }) fun _ => rfl).trans hd)
    have hs' : ((m₁.notify d).thread t).stack = [] :=
      (part_notify Thread.stack (fun _ _ => rfl) m₁ d t).trans hs
    exact workerLoop_within hd' hs' h

theorem waiting_lives {wakes : List Frame} {c : Snapshot} {target : UInt32} {r : Result}
    (hs : (m.thread t).stack = wakes ++ [.grace e k c target, .detached e k batch, .worker d ticket])
    (hw : ∀ f ∈ wakes, f.isWake = true) (hc : (m.thread t).control = .back (.ok r))
    (hfound : ¬m.Lost e k target) : ¬Dying p (m.advance t) t d e k := by
  intro h
  cases wakes with
  | nil =>
    let n := m.modifyThread t fun x => { x with stack := [.detached e k batch, .worker d ticket] }
    have hstack : (n.thread t).stack = [.detached e k batch, .worker d ticket] := stack_pop ..
    have hadv : m.advance t = n.resume t (.ok r) (.grace e k c target) := advance_back hc hs
    rw [hadv] at h
    cases (resume_grace_looked n t (.ok r) e k c target).look with
    | ended hb hs' hc' hhist => exact h.false_of_ok (hs'.trans hstack) rfl hc'
    | broken q hw' hs' hc' hhist => exact hfound ((hw' r rfl).of_eq rfl rfl)
    | again wakes hw' hs' hc' hhist =>
      refine h.false_of_mem (f := .grace e k c target) ?_ (.inl rfl)
      rw [hs']
      exact List.mem_append_right _ List.mem_cons_self
  | cons f wakes =>
    cases f with
    | wake s id =>
      let n := m.modifyThread t fun x => { x with stack := wakes ++
        [.grace e k c target, .detached e k batch, .worker d ticket] }
      have hadv : m.advance t = n.resume t (.ok r) (.wake s id) := advance_back hc hs
      have hs' : ((n.resume t (.ok r) (.wake s id)).thread t).stack = wakes ++
          [.grace e k c target, .detached e k batch, .worker d ticket] :=
        (stack_back ..).trans (stack_pop ..)
      rw [hadv] at h
      refine h.false_of_mem (f := .grace e k c target) ?_ (.inl rfl)
      rw [hs']
      exact List.mem_append_right _ List.mem_cons_self
    | _ => exact absurd (hw _ List.mem_cons_self) nofun

theorem running_lives {above : List Frame} (hb : m.BuildsIdle) (ht : m.turn = some t)
    (hlt : t < m.threads.size)
    (hs : (m.thread t).stack = above ++ [.batch e k batch, .worker d ticket])
    (ha : ∀ f ∈ above, f.isPass = false) : ¬Dying p (m.advance t) t d e k := by
  intro h
  -- the callback goes on
  have hup (hn : above ≠ [] ∨ ∃ held op, (m.thread t).control = .eval held op) : False := by
    obtain ⟨-, above', hs', -⟩ := advance_noPassAbove (e := e) (k := k) hb ht hlt hs ha hn
      (List.cons_ne_nil _ _)
    refine h.false_of_mem (f := .batch e k batch) ?_ (.inr ⟨batch, rfl⟩)
    rw [hs']
    exact List.mem_append_right _ List.mem_cons_self
  cases above with
  | cons f above => exact hup (.inl (List.cons_ne_nil f above))
  | nil =>
    cases hc : (m.thread t).control with
    | eval held op => exact hup (.inr ⟨held, op, hc⟩)
    | back o =>
      rw [advance_back hc hs] at h
      exact endCallback_lives (m := m.modifyThread t fun x => { x with stack := [.worker d ticket] })
        (Nat.lt_of_lt_of_le hlt (Table.size_le_modify ..)) (stack_pop ..) batch o h

/-- When a panic of a pass is on its way after a turn, it has been so before, or the turn has called for a
grace period from inside a section. -/
theorem Stage.dying (h : Stage t d e k m) (hm : Reachable m) (hb : m.BuildsIdle)
    (ht : m.turn = some t) (hd : m.Serves d e k) (hgo : Waiting m t e k → Proceeds m t)
    (hfound : ∀ target, ¬m.Lost e k target) (hx : Dying p (m.advance t) t d e k) :
    Dying p m t d e k ∧ (m.advance t).nests t = m.nests t ∨ Within p (m.advance t) t e k := by
  have hv := hm.visited
  have hlt := hv.orderly.lt_size ht
  have hlt' (rest : List Frame) :
      t < (m.modifyThread t fun x => { x with stack := rest }).threads.size :=
    Nat.lt_of_lt_of_le hlt (Table.size_le_modify ..)
  have hpop (rest : List Frame) :
      (m.modifyThread t fun x => { x with stack := rest }).nests t = m.nests t :=
    part_modifyThread Thread.nests m t t fun _ => rfl
  cases h with
  | rest ticket o hs hc hh hf =>
    have hstack : ((m.modifyThread t fun x => { x with stack := [] }).thread t).stack = [] :=
      stack_pop ..
    rw [advance_back hc hs] at hx ⊢
    cases o with
    | error q =>
      obtain rfl := Option.some.inj hx.of_endThread
      exact .inl ⟨.failing ticket ⟨[], _, hs, hc, rfl⟩, ((KeepsEngines.endThread _ t _).nests t).trans
        (hpop [])⟩
    | ok r => exact .inr (resumeWorker_within (m := m.modifyThread t fun x => { x with stack := [] })
        hd hstack hx)
  | waiting wakes c target pre batch ticket o hs hw hc hh hf hg hp =>
    have hmem : Frame.grace e k c target ∈ (m.thread t).stack := by
      rw [hs]
      simp
    obtain ⟨r, hr⟩ := hgo ⟨c, target, hmem⟩
    obtain rfl := Control.back.inj (hc.symm.trans hr)
    exact (waiting_lives hs hw hc (hfound target) hx).elim
  | landed batch ticket o hs hc hh hf hr =>
    have hstack : ((m.modifyThread t fun x => { x with stack := [.worker d ticket] }).thread t).stack =
        [.worker d ticket] := stack_pop ..
    rw [advance_back hc hs] at hx ⊢
    cases o with
    | error q =>
      have hfail := discardBatch_failing hstack e batch q
      obtain rfl := hx.eq_of_failing hfail
      exact .inl ⟨.detached batch ticket hs hc, ((BatchMoves.discardBatch _ t e batch _).nests t).trans
        (hpop _)⟩
    | ok r =>
      exact (runBatch_lives (m := (m.modifyThread t fun x => { x with stack := [.worker d ticket] }).log t
        (.callbacksRunning k batch.length)) (hlt' _) hstack batch hx).elim
  | running above batch ticket hs ha hh hf hr =>
    exact (running_lives hb ht hlt hs ha hx).elim
  | beingStopped lost ticket hu hh hf =>
    obtain ⟨q, fs, o, hs, hc, hq⟩ := unwinding_iff.1 hu
    have hdying : Dying q m t d e k := .failing ticket ⟨fs, o, hs, hc, hq⟩
    cases fs with
    | nil =>
      rw [advance_back hc hs] at hx ⊢
      obtain rfl : o = .error q := hq
      obtain rfl := Option.some.inj hx.of_endThread
      exact .inl ⟨hdying, ((KeepsEngines.endThread _ t _).nests t).trans (hpop [])⟩
    | cons f fs =>
      rw [advance_back hc hs] at hx ⊢
      have hfail := resume_failing (m := m.modifyThread t fun x => { x with stack :=
        fs ++ [.worker d ticket] }) (stack_pop ..) hq
      obtain rfl := hx.eq_of_failing hfail
      exact .inl ⟨hdying, ((hq.onlyPushes _ t).nests t).trans (hpop _)⟩
  | gone lost p hs he hh hf hl =>
    rw [(hv.orderly.turn t ht).1] at he
    cases he

theorem Dying.ended_of_nil (h : Dying p m t d e k) (hs : (m.thread t).stack = []) :
    (m.thread t).status = .ended (some p) := by
  cases h with
  | detached batch ticket hs' => cases hs.symm.trans hs'
  | failing ticket h =>
    obtain ⟨fs, o, hs', -⟩ := h
    simp [hs'] at hs
  | ended h hnil => exact h

theorem begin_dying (ho : Orderly m) {s : Script.Step} (hs : ∀ t, ¬m.Hits s t)
    (hx : Dying p (m.begin s).1 t d e k) :
    Dying p m t d e k ∧ (m.begin s).1.nests t = m.nests t := by
  have hall : (m.begin s).1.nests t = m.nests t ∧
      (((m.begin s).1.thread t).status = .ended (some p) → (m.thread t).status = .ended (some p)) :=
    (begin_externals m s).preserves (P := fun n => n.nests t = m.nests t ∧
      ((n.thread t).status = .ended (some p) → (m.thread t).status = .ended (some p)))
      (fun n n' _ he hn => ⟨(he.keepsEngines.nests t).trans hn.1, fun hs => by
        rcases he.ended_of hs with hs | ⟨-, hq⟩
        · exact hn.2 hs
        · cases hq⟩) ho ⟨rfl, id⟩
  have hstack := begin_stack (u := t) ho s
  refine ⟨?_, hall.1⟩
  by_cases hnil : (m.thread t).stack = []
  · exact .ended (hall.2 (hx.ended_of_nil (hstack.trans hnil))) hnil
  · rcases begin_control ho s hnil with hc | hc
    · exact hx.of_eq hstack hc hall.2
    · exact absurd hc (hs t)

/-- As long as there are fewer threads than slots and nobody throws a panic in, passes panic only
because they are begun inside a section. -/
theorem Uninterrupted.within (h : Uninterrupted m) (ht : m.threads.size < SlotArray.capacity)
    (hd : m.Serves d e k) (hx : Dying p m (m.drain d).thread d e k) : Within p m (m.drain d).thread e k := by
  induction h with
  | new hm =>
    obtain ⟨cs, -, rfl⟩ := new_eq hm
    rw [Serves, drain, Table.get_empty] at hd
    cases hd
  | @begin m h s hs ih =>
    have ho := h.reachable.visited.orderly
    have hdrain : (m.begin s).1.drain d = m.drain d :=
      (begin_externals m s).preserves (P := fun n => n.drain d = m.drain d)
        (fun n n' _ he hn => (congrArg (Table.get · d) he.drains).trans hn) ho rfl
    rw [hdrain] at hx ⊢
    obtain ⟨hx, hn⟩ := begin_dying ho hs hx
    have hd : m.Serves d e k := by rwa [Serves, hdrain] at hd
    exact (ih (Nat.lt_of_le_of_lt (begin_changes m s).threads_le ht) hd hx).of_nests hn
  | @step m _ h hb hs ih =>
    have hr := h.reachable
    have hlt := Nat.lt_of_le_of_lt (step_changes hb hs).threads_le ht
    rcases step_cases hs with ⟨t, hturn, rfl⟩ | ⟨t, rest, hn, hrest, rfl⟩
    · rcases advance_startsService hb hturn (hr.visited.orderly.lt_size hturn) d e k hd with
        hold | ⟨-, hs', hc⟩
      · have hth := (hold.kept (advance_kept hb hturn)).2
        rw [hth] at hx ⊢
        by_cases hu : (m.drain d).thread = t
        · have hstage := hr.stage hold
          have hgo := (h.undisturbed e k).proceeds (m.drain d).thread
          rw [hu] at hx hstage hgo ih ⊢
          rcases hstage.dying hr hb hturn hold hgo (fun _ => hr.not_lost hlt) hx with ⟨hx, hn⟩ | hw
          · exact (ih hlt hold hx).of_nests hn
          · exact hw
        · have hnests := advance_nests_ne hb hturn hu
          cases advance_unmoved hb hturn hu with
          | started hle => exact absurd (hr.visited.drainsAssigned.thread d e k hold) (Nat.not_lt.2 hle)
          | same hs' hc' =>
            have hx := hx.of_eq hs' hc' fun he => hr.ended_of_advance hturn hu he
            exact (ih hlt hold hx).of_nests hnests
      · exact (hx.false_of_ok hs' rfl hc).elim
    · exact (ih hlt hd (hx.of_eq rfl rfl id)).of_nests rfl

theorem startSynchronize_fails (hs : m.skips e = false) (hd : m.readDepth t e k ≠ 0) :
    m.startSynchronize t e k = m.fail t (.synchronizeInside k) := by
  rw [startSynchronize, if_neg (Bool.eq_false_iff.1 hs), if_pos (bne_iff_ne.2 hd)]

theorem runCallbacks_fails (hq : m.queue e k ≠ []) (hs : m.skips e = false)
    (hd : m.readDepth t e k ≠ 0) : ((m.runCallbacks t e k).thread t).control =
      .back (.error (.fault (.synchronizeInside k))) := by
  unfold runCallbacks
  split
  · rename_i hnil
    exact absurd hnil hq
  · rw [startSynchronize_fails]
    · exact control_back ..
    · exact (skips_modifyEngine m e e (f := fun x => x.setQueue k []) fun _ => ⟨rfl, rfl⟩).trans hs
    · have hn := (OnlyPushes.push (f := .detached e k ((m.engine e).queue k))
        (m.modifyEngine e fun x => x.setQueue k []) t rfl).readDepth t e k
      exact hn ▸ hd

theorem workerLoop_fails (hserves : m.Serves d e k)
    (hr : (m.drain d).tickets.requested ≠ (m.drain d).tickets.completed) (hq : m.queue e k ≠ [])
    (hs : m.skips e = false) (hd : m.readDepth t e k ≠ 0) : ((m.workerLoop t d).thread t).control =
      .back (.error (.fault (.synchronizeInside k))) := by
  have hduty : (m.drain d).tickets.duty = .serve (m.drain d).tickets.requested := if_neg hr
  unfold workerLoop
  rw [hduty]
  dsimp only
  rw [startPass_eq (m := m.push t (.worker d _)) hserves t]
  have hn := (OnlyPushes.push (f := .worker d (some (m.drain d).tickets.requested)) m t rfl).readDepth t e k
  exact runCallbacks_fails (m := (m.push t (.worker d _)).modifyDrain d _) hq hs (hn ▸ hd)

/-- A pass over callbacks that is begun inside a section panics, unless the engine is halted. -/
theorem Reachable.pass_fails (h : Reachable m) (hserves : m.Serves d e k)
    (hstack : (m.thread t).stack = [.worker d ticket]) (ht : (m.drain d).thread = t) {r : Result}
    (hc : (m.thread t).control = .back (.ok r)) (hq : m.queue e k ≠ []) (hs : m.skips e = false)
    (hd : m.readDepth t e k ≠ 0) : ((m.advance t).thread t).control =
      .back (.error (.fault (.synchronizeInside k))) := by
  have hstage := h.stage hserves
  rw [ht] at hstage
  obtain ⟨-, batch, hh⟩ := hstage.worker_mem (hstack ▸ List.mem_cons_self)
  have hqueued := congrArg List.length hh.queued
  have hpos : 0 < (m.queue e k).length := List.length_pos_iff.2 hq
  have hreq := h.rooted.requested d e k hserves
  simp only [List.length_append] at hqueued
  let n := m.modifyThread t fun x => { x with stack := [] }
  have hdepth : n.readDepth t e k ≠ 0 := by
    have hn : n.nests t = m.nests t := part_modifyThread Thread.nests m t t fun _ => rfl
    rw [readDepth, hn]
    exact hd
  rw [advance_back hc hstack]
  cases ticket with
  | none =>
    have hcov := (h.ledger e k).2.2 d hserves
    have hfin := hstage.finished_started.length_le
    exact workerLoop_fails (m := n) hserves (show (m.drain d).tickets.requested ≠
      (m.drain d).tickets.completed by omega) hq hs hdepth
  | some i =>
    have hle := hh.ticket i rfl
    rw [List.length_append] at hle
    let n₁ := n.modifyDrain d fun x => { x with tickets := x.tickets.complete i }
    have hsame {β : Type} (p : Drain → β) (hp : ∀ x ws, p { x with waiters := ws } = p x) :
        p ((n₁.notify d).drain d) = p { m.drain d with tickets := (m.drain d).tickets.complete i } := by
      rw [part_drain_notify p hp, show n₁.drain d = _ from drain_modifyDrain .., if_pos rfl]
      rfl
    have htickets := hsame Drain.tickets fun _ _ => rfl
    refine workerLoop_fails (m := n₁.notify d) ((hsame Drain.work fun _ _ => rfl).trans hserves)
      ?_ ?_ ?_ ?_
    · rw [htickets]
      show (m.drain d).tickets.requested ≠ i
      omega
    · rw [notify_eq]
      exact hq
    · rw [notify_eq]
      exact hs
    · rw [(OnlyPushes.news n t d fun x => { x with tickets := x.tickets.complete i }).readDepth]
      exact hdepth

theorem Uninterrupted.not_passPanicked (h : Uninterrupted m) (hlt : m.threads.size < SlotArray.capacity)
    (hd : m.Serves d e k) (h0 : m.readDepth (m.drain d).thread e k = 0) : ¬PassPanicked m e k := by
  have hthread : m.drainThread e k = (m.drain d).thread := by
    rw [drainThread, h.reachable.visited.drainsAssigned.named d e k hd]
  have hno (p : Payload) : ¬Dying p m (m.drain d).thread d e k := fun hx => (h.within hlt hd hx).2 h0
  rintro (⟨p, hp⟩ | ⟨ticket, hu⟩)
  · rw [hthread] at hp
    exact hno p (.ended hp (h.reachable.visited.orderly.resting _ (.inr ⟨_, hp⟩)))
  · rw [hthread, h.reachable.visited.drainsAssigned.named d e k hd] at hu
    obtain ⟨p, hp⟩ := unwinding_iff.1 hu
    exact hno p (.failing ticket hp)

/-- As long as there are fewer threads than slots and nobody throws a panic in, whatever callbacks do:
the thread that runs them ends without a panic only when it has been told to stop, has served all
requests and has run all callbacks. It ends with a panic, or gets one to its loop, only because a pass
has called for its grace period while a callback had left the thread inside a section of the domain.
While it is inside none, every callback has started, or is in hand, or is in the queue. But inside one,
and with callbacks in the queue, the next pass does panic unless the engine is halted. -/
theorem drain_thread_outlives_callbacks (h : Uninterrupted m) (hlt : m.threads.size < SlotArray.capacity)
    (hd : m.Serves d e k) (ht : (m.drain d).thread = t) :
    ((m.thread t).status = .ended none → m.isShut d = true ∧
      (m.drain d).tickets.requested = (m.drain d).tickets.completed ∧
      finished (m.history e k) = queued (m.history e k)) ∧
    (∀ p, (m.thread t).status = .ended (some p) ∨
        (∃ ticket, (m.thread t).stack = [.worker d ticket]) ∧
          (m.thread t).control = .back (.error p) →
      p = .fault (.synchronizeInside k) ∧ m.readDepth t e k ≠ 0) ∧
    (m.readDepth t e k = 0 → queued (m.history e k) =
      started (m.history e k) ++ m.inHand e k ++ m.queue e k) ∧
    (∀ ticket r, (m.thread t).stack = [.worker d ticket] → (m.thread t).control = .back (.ok r) →
      m.queue e k ≠ [] → m.skips e = false → m.readDepth t e k ≠ 0 →
      ((m.advance t).thread t).control = .back (.error (.fault (.synchronizeInside k)))) := by
  subst ht
  have hr := h.reachable
  refine ⟨fun he => ?_, fun p hp => h.within hlt hd ?_, fun h0 => ?_, fun ticket r hs hc hq hsk hdep => ?_⟩
  · obtain ⟨hshut, heq⟩ := hr.retired d e k hd he
    exact ⟨hshut, heq, hr.finished_eq_queued hd he⟩
  · rcases hp with hp | ⟨⟨ticket, hs⟩, hc⟩
    · exact .ended hp (hr.visited.orderly.resting _ (.inr ⟨_, hp⟩))
    · exact .failing ticket ⟨[], _, hs, hc, rfl⟩
  · exact ((hr.stage hd).inHand (hr.visited.drainsAssigned.named d e k hd) rfl
      (h.not_passPanicked hlt hd h0)).queued
  · exact hr.pass_fails hd hs rfl hc hq hsk hdep

theorem uninterrupted_sample : Uninterrupted sample :=
  (@Uninterrupted.new [1] 1 _ rfl).perform _ _ (by decide +kernel)

/-- A callback has panicked, and another one has run after it; then the last handle has gone. -/
def panicSurvived : Machine :=
  let m := (sample.perform (.act 0 (.call 0 false .regular 1 false [.panic .silent]))).1
  let m := (m.perform (.act 0 (.call 0 false .regular 2 false []))).1
  (m.perform (.act 0 (.dropHandle 0))).1

theorem uninterrupted_panicSurvived : Uninterrupted panicSurvived :=
  ((uninterrupted_sample.perform _ _ (by decide +kernel)).perform _ _ (by decide +kernel)).perform _ _
    (by decide +kernel)

/-- A callback has locked and has panicked before it could unlock. -/
def lockedCallback : Machine :=
  (sample.perform (.act 0 (.call 0 false .regular 1 false
    [.handle 0 (.readLock .regular), .panic .silent, .handle 0 (.readUnlock .regular)]))).1

theorem uninterrupted_lockedCallback : Uninterrupted lockedCallback :=
  uninterrupted_sample.perform _ _ (by decide +kernel)

/-- Then another callback is enqueued, and the drain thread has the turn. -/
def lockedDrainTurn : Machine := (lockedCallback.begin (.act 0 (.call 0 false .regular 2 false []))).1.run 6

theorem uninterrupted_lockedDrainTurn : Uninterrupted lockedDrainTurn :=
  run_induction (fun _ _ h hb hs => h.step hb hs) (by decide +kernel)
    (uninterrupted_lockedCallback.begin (.act 0 (.call 0 false .regular 2 false [])) fun t ⟨_, _, hs, _⟩ =>
      nomatch hs)

def lockedDrainEnded : Machine := lockedDrainTurn.settle

theorem uninterrupted_lockedDrainEnded : Uninterrupted lockedDrainEnded :=
  run_induction (fun _ _ h hb hs => h.step hb hs) (by decide +kernel) uninterrupted_lockedDrainTurn

theorem drain_survives_panic_not_open_section :
    ((panicSurvived.thread 1).status = .ended none ∧ panicSurvived.isShut 0 = true ∧
      finished (panicSurvived.history 0 .regular) = [.call 1 false [.panic .silent], .call 2 false []] ∧
      queued (panicSurvived.history 0 .regular) =
        started (panicSurvived.history 0 .regular) ++ panicSurvived.inHand 0 .regular ++
          panicSurvived.queue 0 .regular) ∧
    (lockedDrainTurn.turn = some 1 ∧ lockedDrainTurn.readDepth 1 0 .regular = 1 ∧
      ((lockedDrainTurn.advance 1).thread 1).control =
        .back (.error (.fault (.synchronizeInside .regular)))) ∧
    ((lockedDrainEnded.thread 1).status = .ended (some (.fault (.synchronizeInside .regular))) ∧
      lockedDrainEnded.readDepth 1 0 .regular ≠ 0) := by
  obtain ⟨hend, -, hnone, -⟩ := drain_thread_outlives_callbacks uninterrupted_panicSurvived
    (by decide +kernel) (d := 0) (e := 0) (k := .regular) rfl (t := 1) rfl
  obtain ⟨-, -, -, hfails⟩ := drain_thread_outlives_callbacks uninterrupted_lockedDrainTurn
    (by decide +kernel) (d := 0) (e := 0) (k := .regular) rfl (t := 1) rfl
  obtain ⟨-, hdies, -, -⟩ := drain_thread_outlives_callbacks uninterrupted_lockedDrainEnded
    (by decide +kernel) (d := 0) (e := 0) (k := .regular) rfl (t := 1) rfl
  obtain ⟨hshut, -, hfin⟩ := hend rfl
  have hqueued : queued (panicSurvived.history 0 .regular) =
      [.call 1 false [.panic .silent], .call 2 false []] := rfl
  refine ⟨⟨rfl, hshut, hfin.trans hqueued, hnone rfl⟩, ⟨rfl, rfl, ?_⟩, rfl, (hdies _ (.inl rfl)).2⟩
  exact hfails none .unit rfl rfl (by decide +kernel) rfl (by decide +kernel)

/-- A panic between lock and unlock is caught, but the section stays open on the drain thread. There
are handles on the engine and nobody has asked for a stop, but the next pass ends the thread: its
request is never served, and the callback that it has detached never starts. -/
theorem open_section_ends_drain_thread :
    Uninterrupted lockedDrainEnded ∧ lockedDrainEnded.Serves 0 0 .regular ∧ 0 <
      (lockedDrainEnded.engine 0).handles ∧
      lockedDrainEnded.isShut 0 = false ∧
      (lockedDrainEnded.thread 1).status = .ended (some (.fault (.synchronizeInside .regular))) ∧
      (lockedDrainEnded.drain 0).tickets.completed < (lockedDrainEnded.drain 0).tickets.requested ∧
      (lockedDrainEnded.engine 0).queue .regular = [] ∧
      queued (lockedDrainEnded.history 0 .regular) =
        started (lockedDrainEnded.history 0 .regular) ++ [.call 2 false []] :=
  ⟨uninterrupted_lockedDrainEnded, rfl, by decide +kernel, rfl, rfl, by decide +kernel, rfl, rfl⟩

end GracePeriod.Machine
