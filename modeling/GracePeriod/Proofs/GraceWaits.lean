import GracePeriod.Proofs.WaiterLooks
import GracePeriod.Proofs.Tickets

namespace GracePeriod

namespace Machine

variable {scope : Scope} {m m' : Machine} {t u : Nat} {p : Machine → Bool}

theorem called_append {vs : List (Nat × Event)} (h : m'.trace = vs ++ m.trace)
    (hv : ∀ q ∈ vs, q.1 ≠ t) : m'.called t = m.called t := by
  rw [called, h, List.filterMap_append, called, List.filterMap_eq_nil_iff.2, List.nil_append]
  exact fun q hq => if_neg fun hc => hv q hq hc.1

theorem Inside.called_ne (h : Inside u m m') (ht : t ≠ u) : m'.called t = m.called t := by
  obtain ⟨vs, hvs, hr⟩ := h.trace
  exact called_append hvs fun q hq => (hr q hq).1 ▸ ht.symm

theorem Move.called_ne (h : Move scope u m m') (ht : t ≠ u) : m'.called t = m.called t := by
  have hemit (m : Machine) (v : Event) : (m.emit u v).called t = m.called t :=
    called_emit_ne m fun hc => ht hc.1.symm
  cases h with
  | emit v hv => exact hemit m v
  | mark e k v hv => exact hemit m _
  | advance e k => exact hemit (m.setDomain e k _) _
  | enqueue e k c => exact hemit (m.modifyEngine e _) _
  | enroll s => exact called_enroll ..
  | notify d => exact called_of_trace (by rw [notify_eq]) t
  | openSection e k hs => exact (Inside.openSection m u e k).called_ne ht
  | closeSection e k => exact (Inside.closeSection m u e k).called_ne ht
  | _ => rfl

theorem advance_called_ne (hb : m.BuildsIdle) (hu : m.turn = some u) (ht : t ≠ u) :
    (m.advance u).called t = m.called t := by
  have hmoves {n : Machine} (h : Moves .all u m n) : n.called t = m.called t := by
    induction h with
    | refl => rfl
    | tail _ hv ih => exact (hv.called_ne ht).trans ih
  rcases advance_turn hb hu with h | ⟨n, h, hl⟩
  · exact hmoves h
  · exact (called_of_trace hl.keepsEngines.trace t).trans (hmoves h)

end Machine

open Machine

namespace GraceWait

variable {v : GraceWait} {m m' : Machine} {i u : Nat} {x : Task} {ls : List Machine}

/-- What is left alone by all that is not a look of the waiter. -/
structure Spared (v : GraceWait) (m m' : Machine) : Prop where
  engine : v.engine < m.engines.size → v.engine < m'.engines.size ∧
    (m'.engine v.engine).access = (m.engine v.engine).access
  workers : 0 < (v.scheduler m).workers → (v.scheduler m').workers = (v.scheduler m).workers
  stands : ∀ i x, Stands m v.thread v.access.scheduler i x →
    Stands m' v.thread v.access.scheduler i x
  called : m'.called v.thread = m.called v.thread

namespace Spared

theorem same (hs : m'.schedulers = m.schedulers) (he : m'.engines = m.engines)
    (ht : (m'.thread v.thread).tasks = (m.thread v.thread).tasks)
    (hc : m'.called v.thread = m.called v.thread) : v.Spared m m' := by
  have h : Answers v.thread v.access [] id m m' := .quiet v.access hs he ht hc
  exact ⟨fun hlt => by rw [Machine.engine, he]; exact ⟨hlt, rfl⟩, fun _ => h.workers, h.stands, hc⟩

theorem trans {m'' : Machine} (h : v.Spared m m') (h' : v.Spared m' m'') : v.Spared m m'' := by
  refine ⟨fun hlt => ?_, fun hp => ?_, fun i x hx => h'.stands i x (h.stands i x hx),
    h'.called.trans h.called⟩
  · obtain ⟨hlt', ha⟩ := h.engine hlt
    exact ⟨(h'.engine hlt').1, (h'.engine hlt').2.trans ha⟩
  · have hw := h.workers hp
    exact (h'.workers (hw ▸ hp)).trans hw

theorem advance (hr : Reachable m) (hb : m.BuildsIdle) (hu : m.turn = some u) (ht : v.thread ≠ u) :
    v.Spared m (m.advance u) := by
  refine ⟨(advance_changes hb hu).access, fun hp => ?_, fun i x hx => hx.advance hr hb hu ht,
    advance_called_ne hb hu ht⟩
  exact hr.advance_services hb hu (P := fun n => (v.scheduler n).workers = (v.scheduler m).workers)
    (fun n n' hv hs hn => (hs.workers hv.tasked (hn ▸ hp)).trans hn) rfl

theorem external (h : External m m') (hv : Visited m) (hs : (m.thread v.thread).stack ≠ []) :
    v.Spared m m' := by
  obtain ⟨u, hserv⟩ := (Act.external h).service
  have ha := h.keepsEngines
  refine ⟨fun hlt => ?_, fun hp => hserv.workers hv.tasked hp, fun i x hx => hx.external hv h ?_,
    called_of_trace ha.trace _⟩
  · rw [Machine.engine, ha.engines]
    exact ⟨hlt, rfl⟩
  · intro hend
    have hnil := (hv.act (.external h)).orderly.resting _ (.inr hend)
    exact hs ((h.posture hv.orderly hs).1.symm.trans hnil)

end Spared

def atLook (v : GraceWait) (m : Machine) : Bool :=
  m.turn == some v.thread &&
    match (m.thread v.thread).control, (m.thread v.thread).stack with
    | .back (.ok _), .grace .. :: _ => true
    | _, _ => false

/-- The machines in which the waiter has looked at the records, the last one first. -/
def looks (v : GraceWait) (steps : List (Machine × Machine)) : List Machine :=
  (steps.map Prod.fst).filter v.atLook

/-- The worker that the waiter has gone over to last, or else the one it came from. -/
def goal (v : GraceWait) (ls : List Machine) : Nat := (ls.findSome? v.movesTo?).getD v.snapshot.worker

theorem goal_cons (v : GraceWait) (m : Machine) (ls : List Machine) :
    v.goal (m :: ls) = (v.movesTo? m).getD (v.goal ls) := by
  unfold goal
  cases h : v.movesTo? m with
  | none => rw [List.findSome?_cons_of_isNone (by rw [h]; rfl)]; rfl
  | some w => rw [List.findSome?_cons_of_isSome (by rw [h]; rfl), h]; rfl

structure StillWaits (v : GraceWait) (i : Nat) (ls : List Machine) (m : Machine) : Prop where
  stack : v.InCall m
  control : ∃ o, (m.thread v.thread).control = .back o
  engine : v.engine < m.engines.size
  access : (m.engine v.engine).access = v.access
  worker_lt : v.snapshot.worker < (v.scheduler m).workers
  stands : ∃ x, Stands m v.thread v.access.scheduler i x ∧ x.worker = v.goal ls

structure CallOver (v : GraceWait) (i : Nat) (ls : List Machine) (m : Machine) : Prop where
  stack : (m.thread v.thread).stack = v.rest
  stands : ∃ x, Stands m v.thread v.access.scheduler i (v.snapshot.restored x) ∧ x.worker = v.goal ls

namespace StillWaits

theorem stack_ne_nil (h : v.StillWaits i ls m) : (m.thread v.thread).stack ≠ [] := by
  cases h.stack with
  | looking hs | pausing id hs =>
    rw [hs]
    exact List.cons_ne_nil _ _

theorem spared (h : v.StillWaits i ls m) (hs : v.Spared m m') (hst : v.InCall m')
    (hc : ∃ o, (m'.thread v.thread).control = .back o) : v.StillWaits i ls m' := by
  obtain ⟨hlt, ha⟩ := hs.engine h.engine
  obtain ⟨x, hx, hw⟩ := h.stands
  refine ⟨hst, hc, hlt, ha.trans h.access, ?_, x, hs.stands i x hx, hw⟩
  rw [hs.workers (Nat.zero_lt_of_lt h.worker_lt)]
  exact h.worker_lt

theorem lasts (h : v.StillWaits i ls m) : above v.thread v.rest m = true := by
  refine decide_eq_true ?_
  cases h.stack with
  | looking hs | pausing id hs =>
    rw [hs]
    simp only [List.length_cons]
    omega

theorem external (h : v.StillWaits i ls m) (hv : Visited m) (he : External m m') :
    v.StillWaits i ls m' := by
  obtain ⟨hs, hc⟩ := he.posture hv.orderly h.stack_ne_nil
  refine h.spared (.external he hv h.stack_ne_nil) (h.stack.same hs) ?_
  rcases hc with hc | ⟨q, hc⟩
  · rw [hc]
    exact h.control
  · exact ⟨_, hc⟩

end StillWaits

theorem Spared.endPause (v : GraceWait) (hw : ∀ s, (m.scheduler s).tasks.WellFormed) (s id : Nat) :
    v.Spared m (m.endPause s id) := by
  refine ⟨fun hlt => ⟨hlt, rfl⟩, fun _ => ?_, fun i x hx => hx.endPause hw s id, rfl⟩
  have hsch := scheduler_modifyScheduler m s v.access.scheduler
    (fun c => c.setTask id { c.task id with paused := false })
  rw [GraceWait.scheduler, Machine.endPause, hsch]
  split <;> rfl

theorem Spared.modifyThread (v : GraceWait) (m : Machine) {f : Thread → Thread}
    (hf : ∀ x, (f x).tasks = x.tasks) : v.Spared m (m.modifyThread v.thread f) :=
  .same rfl rfl (part_modifyThread Thread.tasks m v.thread v.thread hf) rfl

theorem awakens {id : Nat} {o : Outcome} (hw : ∀ s, (m.scheduler s).tasks.WellFormed)
    (hs : (m.thread v.thread).stack = .wake v.access.scheduler id :: v.frame :: v.rest)
    (hc : (m.thread v.thread).control = .back o) :
    v.Spared m (m.advance v.thread) ∧
      ((m.advance v.thread).thread v.thread).stack = v.frame :: v.rest ∧
      ((m.advance v.thread).thread v.thread).control = .back o ∧
      (m.advance v.thread).turn = m.turn := by
  let n := m.modifyThread v.thread fun x => { x with stack := v.frame :: v.rest }
  have ha : m.advance v.thread = (n.endPause v.access.scheduler id).back v.thread o :=
    advance_back hc hs
  have hpop : v.Spared m n := .modifyThread v m fun _ => rfl
  have hend : v.Spared n (n.endPause v.access.scheduler id) := .endPause (m := n) v hw _ id
  rw [ha]
  exact ⟨(hpop.trans hend).trans (.modifyThread v _ fun _ => rfl),
    (stack_back ..).trans (stack_pop ..), control_back .., rfl⟩

theorem atLook_of_turn (h : m.turn ≠ some v.thread) : v.atLook m = false := by
  rw [atLook, beq_eq_false_iff_ne.2 h, Bool.false_and]

theorem atLook_of_looking {r : Result} (ht : m.turn = some v.thread)
    (hs : (m.thread v.thread).stack = v.frame :: v.rest)
    (hc : (m.thread v.thread).control = .back (.ok r)) : v.atLook m = true := by
  rw [atLook, hc, hs, ht]
  exact (Bool.and_true _).trans (beq_self_eq_true _)

inductive WaiterStep (v : GraceWait) (m m' : Machine) : Prop
  | idle (hl : v.atLook m = false) (h : v.Spared m m') (hs : v.InCall m')
      (hc : ∃ o, (m'.thread v.thread).control = .back o)
  | thrown (hl : v.atLook m = false) (ht : m.turn = some v.thread) (q : Payload)
      (h : v.Ends [] (.error q) m m')
  | look (hl : v.atLook m = true) (ht : m.turn = some v.thread) (h : v.LookResult m m')

theorem StillWaits.waiterStep (h : v.StillWaits i ls m) (hr : Reachable m) (hb : m.BuildsIdle)
    (hs : m.step = some m') : v.WaiterStep m m' := by
  rcases step_cases hs with ⟨u, hu, rfl⟩ | ⟨u, queue, hn, hq, rfl⟩
  · by_cases ht : v.thread = u
    · subst ht
      obtain ⟨o, hc⟩ := h.control
      cases h.stack with
      | pausing id hst =>
        obtain ⟨hsp, hst', hc', -⟩ := awakens hr.visited.tasked.wellFormed hst hc
        refine .idle ?_ hsp (.looking hst') ⟨o, hc'⟩
        rw [atLook, hst, hc]
        cases o <;> exact Bool.and_false _
      | looking hst =>
        cases o with
        | error q =>
          refine .thrown ?_ hu q (GraceWait.thrown hst hc h.access h.worker_lt)
          rw [atLook, hc]
          exact Bool.and_false _
        | ok r => exact .look (atLook_of_looking hu hst hc) hu (lookResult hst hc h.access h.worker_lt)
    · have hne : m.turn ≠ some v.thread := fun hc => ht (Option.some.inj (hc.symm.trans hu))
      cases advance_unmoved hb hu ht with
      | same hst hc =>
        exact .idle (atLook_of_turn hne) (.advance hr hb hu ht) (h.stack.same hst) (hc ▸ h.control)
      | started hle d hd hth hst hc =>
        refine absurd ?_ h.stack_ne_nil
        rw [thread_of_size_le hle]
        rfl
  · refine .idle (atLook_of_turn ?_) (.same rfl rfl rfl rfl) (h.stack.same rfl) h.control
    rw [hn]
    exact (Option.some_ne_none _).symm

theorem looks_cons (v : GraceWait) (m m' : Machine) (steps : List (Machine × Machine)) :
    v.looks ((m, m') :: steps) = if v.atLook m then m :: v.looks steps else v.looks steps := by
  rw [looks, List.map_cons, List.filter_cons]
  rfl

theorem GoesOn.stillWaits {vs : List Event} {goal : Option Nat} {ls' : List Machine}
    (hg : v.GoesOn vs goal m m') (h : v.StillWaits i ls m) (hls : v.goal ls' = goal.getD (v.goal ls)) :
    v.StillWaits i ls' m' := by
  obtain ⟨f, hf, ha⟩ := hg.answers
  obtain ⟨r, hc⟩ := hg.control
  obtain ⟨x, hx, hw⟩ := h.stands
  refine ⟨hg.stack, ⟨_, hc⟩, ?_, ?_, ?_, f x, ha.stands i x hx, ?_⟩
  · rw [ha.engines]
    exact h.engine
  · rw [Machine.engine, ha.engines]
    exact h.access
  · rw [scheduler, ha.workers]
    exact h.worker_lt
  · rw [hf, hw, hls]

theorem Ends.callOver {vs : List Event} {o : Outcome} {ls' : List Machine}
    (he : v.Ends vs o m m') (h : v.StillWaits i ls m) (hls : v.goal ls' = v.goal ls) :
    v.CallOver i ls' m' := by
  obtain ⟨f, hf, ha⟩ := he.answers
  obtain ⟨x, hx, hw⟩ := h.stands
  exact ⟨he.stack, f x, ha.stands i x hx, by rw [hf, hw, hls]⟩

theorem StillWaits.step {steps : List (Machine × Machine)} (h : v.StillWaits i (v.looks steps) m)
    (hr : Reachable m) (hb : m.BuildsIdle) (hs : m.step = some m') :
    v.StillWaits i (v.looks ((m, m') :: steps)) m' ∨ v.CallOver i (v.looks ((m, m') :: steps)) m' := by
  rw [looks_cons]
  have hstay (hm : v.movesTo? m = none) : v.goal (m :: v.looks steps) = v.goal (v.looks steps) := by
    rw [goal_cons, hm]
    rfl
  cases h.waiterStep hr hb hs with
  | idle hl hsp hst hc =>
    rw [if_neg (by rw [hl]; exact Bool.false_ne_true)]
    exact .inl (h.spared hsp hst hc)
  | thrown hl ht q he =>
    rw [if_neg (by rw [hl]; exact Bool.false_ne_true)]
    exact .inr (he.callOver h rfl)
  | look hl ht hg =>
    rw [if_pos hl]
    cases hg with
    | ended hb he => exact .inr (he.callOver h (hstay (movesTo?_of_none hb)))
    | lost hl hm vs q he => exact .inr (he.callOver h (hstay hm))
    | stayed w vs hb hw hg hn | moved w hb hw hlt hn => exact .inl (hn.stillWaits h (goal_cons ..))

/-- Whatever happens meanwhile, the call is under way until the waiter has been brought back. -/
theorem StillWaits.trail {m₀ : Machine} {steps : List (Machine × Machine)} (h₀ : v.StillWaits i [] m₀)
    (hr : Reachable m₀) (h : Trail (above v.thread v.rest) m₀ m steps) :
    v.StillWaits i (v.looks steps) m ∨ v.CallOver i (v.looks steps) m :=
  h.underway hr (P := fun ls n => v.StillWaits i (v.looks ls) n)
    (Q := fun ls n => v.CallOver i (v.looks ls) n)
    (fun _ _ hq => hq.stack)
    (fun _ _ s hn => hn.visited.begin_preserves (P := fun n => v.StillWaits i _ n) s
      fun _ _ hv he ha => ha.external hv he)
    (fun _ _ _ hn hb hs ha => ha.step hn hb hs) h₀

end GraceWait

def Snapshot.of (x : Task) : Snapshot :=
  { worker := x.worker, pinDepth := x.pinDepth, priority := x.priority, bound := x.bound }

namespace Machine

variable {n m : Machine} {t e : Nat} {k : Kind}

/-- The wait of a thread that calls `synchronize` now. -/
def graceWait (n : Machine) (t e : Nat) (k : Kind) : GraceWait where
  thread := t
  engine := e
  kind := k
  snapshot := .of (n.view t (n.engine e).access.scheduler)
  target := (n.domain e k).epoch + 1
  access := (n.engine e).access
  rest := (n.thread t).stack

theorem enroll_mark (m : Machine) (u e : Nat) (k : Kind) (v : Mark) (t s : Nat) :
    (m.mark u e k v).enroll t s = (m.enroll t s).mark u e k v := by
  have hid : (m.mark u e k v).task? t s = m.task? t s := rfl
  unfold enroll
  rw [hid]
  cases m.task? t s <;> rfl

theorem Visited.stands (h : Visited n) (t s : Nat) :
    ∃ i, Stands (n.enroll t s) t s i (n.view t s) := by
  obtain ⟨i, hi⟩ := Option.isSome_iff_exists.1 (task?_enroll n t s)
  have ht := h.tasked.enroll t s
  refine ⟨i, hi, ht.wellFormed s, fun hlt => ⟨(h.owned.enroll h.tasked t s).has ht hi hlt, ?_⟩⟩
  rw [view, task, taskId, hi, Option.getD_some]

theorem Visited.view_of_le {s i : Nat} (h : Visited n) (hi : (n.enroll t s).task? t s = some i)
    (hle : SlotArray.capacity ≤ i) : n.view t s = default := by
  obtain ⟨j, hj⟩ := h.stands t s
  rw [view, task, taskId, hi, Option.getD_some]
  exact Scheduler.task_of_le hj.wellFormed hle

theorem bind_answers (m : Machine) (t : Nat) (p : Access) (w : Nat) :
    ∃ f : Task → Task, (∀ x, x.worker = w → (f x).worker = w) ∧
      Answers t p [.bind w] f m (m.bind t p w).1 := by
  by_cases hw : w < (m.scheduler p.scheduler).workers
  · exact ⟨_, fun _ _ => rfl, (Answers.bind t hw).1⟩
  · exact ⟨_, fun _ hx => hx, (Answers.refused t hw).1⟩

theorem startSynchronize_stands (h : Visited n) (hs : n.skips e = false)
    (hd : n.readDepth t e k = 0) : ∃ i x,
      Launched t e k (n.graceWait t e k).snapshot (n.graceWait t e k).target n (n.startSynchronize t e k) ∧
      (n.enroll t (n.engine e).access.scheduler).task? t (n.engine e).access.scheduler = some i ∧
      Stands (n.startSynchronize t e k) t (n.engine e).access.scheduler i x ∧
      x.worker = (n.graceWait t e k).snapshot.worker ∧
      (n.startSynchronize t e k).called t = (if (n.engine e).access.recorded then
        [.bind (n.graceWait t e k).snapshot.worker, .setPinDepth 0, .unbind] else []) ++ n.called t := by
  let p := (n.engine e).access
  let c := (n.graceWait t e k).snapshot
  obtain ⟨i, hi⟩ := h.stands t p.scheduler
  let o := (n.mark t e k .synchronizeCalled).enroll t p.scheduler
  have hc : o.snapshot t p.scheduler = c := by
    have hv : (n.mark t e k .synchronizeCalled).view t p.scheduler = n.view t p.scheduler :=
      view_of_eq rfl rfl
    exact congrArg Snapshot.of hv
  let q := (((o.unbind t p).setPinDepth t p 0).bind t p c.worker).1
  let d := ((q.engine e).domain k).advance
  let r := (q.setDomain e k d).mark t e k (.advanced d.epoch)
  have hstart : n.startSynchronize t e k =
      ((r.log t (.graceStarted k d.epoch)).push t (.grace e k c d.epoch)).done t := by
    unfold startSynchronize
    rw [if_neg (by rw [hs]; exact Bool.false_ne_true), if_neg (by rw [hd]; decide)]
    dsimp only
    rw [hc]
  have hl : Launched t e k c d.epoch n (n.startSynchronize t e k) := by
    rw [hstart]
    refine launched_of_served ?_ c rfl
    exact ((Served.enroll ..).trans (.unbind ..)).trans ((Served.setPinDepth ..).trans (.bind ..))
  have ho : Answers t p [] id (n.enroll t p.scheduler) o := by
    have hm : o = (n.enroll t p.scheduler).mark t e k .synchronizeCalled := enroll_mark ..
    rw [hm]
    exact .mark _ t p e k _
  obtain ⟨f, hf, hb⟩ := bind_answers ((o.unbind t p).setPinDepth t p 0) t p c.worker
  have hq : Answers t p [.bind c.worker, .setPinDepth 0, .unbind] _ (n.enroll t p.scheduler) q :=
    (((Answers.unbind o t p).after ho).trans (.setPinDepth _ t p 0)).trans hb
  have hend : Answers t p [] id (q.setDomain e k d) (n.startSynchronize t e k) := by
    rw [hstart]
    exact (((Answers.mark _ t p e k _).trans (.log _ t p _)).trans (.push _ t p _)).trans
      (.back _ t p _)
  have htarget : (n.graceWait t e k).target = d.epoch := hl.target
  rw [htarget]
  refine ⟨i, _, hl, hi.task?, hend.stands i _ ((hq.stands i _ hi).same rfl rfl),
    hf _ rfl, ?_⟩
  rw [hend.called, ite_self, List.nil_append]
  exact hq.called.trans (congrArg _ (called_enroll ..))

theorem startSynchronize_stillWaits {d : Nat} (h : Visited n) (hr : Reachable (n.startSynchronize t e k))
    (hd : (n.startSynchronize t e k).Serves d e k) (hs : n.skips e = false)
    (h0 : n.readDepth t e k = 0) : ∃ i,
      (n.enroll t (n.engine e).access.scheduler).task? t (n.engine e).access.scheduler = some i ∧
      (n.graceWait t e k).StillWaits i [] (n.startSynchronize t e k) ∧
      (n.startSynchronize t e k).called t = (if (n.engine e).access.recorded then
        [.bind (n.graceWait t e k).snapshot.worker, .setPinDepth 0, .unbind] else []) ++ n.called t := by
  obtain ⟨i, x, hl, hi, hx, hw, hc⟩ := startSynchronize_stands h hs h0
  have ha : ((n.startSynchronize t e k).engine e).access = (n.engine e).access := by
    rw [engine, hl.engines, Table.get_modify, if_pos rfl]
    rfl
  have hpos := hr.hasWorkers hd
  have hlt := (hr.ranged.inRange _ hpos).task (hr.visited.tasked.wellFormed _) i
  rw [ha] at hpos hlt
  refine ⟨i, hi, ⟨.looking hl.stack, ⟨_, hl.control⟩,
    hr.visited.drainsAssigned.engine d e k hd, ha, ?_, x, hx, hw⟩, hc⟩
  -- where the waiter is bound is where it was, and tasks are on workers that exist
  by_cases hcap : i < SlotArray.capacity
  · have hx' : ((n.startSynchronize t e k).scheduler (n.engine e).access.scheduler |>.task i).worker =
        x.worker := (congrArg Task.worker (hx.task hcap).2 :)
    rw [hx', hw] at hlt
    exact hlt
  · show (n.view t (n.engine e).access.scheduler).worker < _
    rw [h.view_of_le hi (Nat.le_of_not_lt hcap)]
    exact hpos

theorem startSynchronize_refused (h : n.skips e = true ∨ n.readDepth t e k ≠ 0) :
    (n.startSynchronize t e k).schedulers = n.schedulers ∧
      ((n.startSynchronize t e k).thread t).tasks = (n.thread t).tasks ∧
      ((n.startSynchronize t e k).thread t).stack = (n.thread t).stack ∧
      (n.startSynchronize t e k).called t = n.called t := by
  have hback (m : Machine) (o : Outcome) : ((m.back t o).thread t).tasks = (m.thread t).tasks :=
    part_modifyThread Thread.tasks m t t fun _ => rfl
  unfold startSynchronize
  by_cases hs : n.skips e = true
  · rw [if_pos hs]
    exact ⟨rfl, hback _ _, stack_back .., called_emit_quiet n t t rfl⟩
  · rw [if_neg hs, if_pos (bne_iff_ne.2 (h.resolve_left hs))]
    exact ⟨rfl, hback _ _, stack_back .., rfl⟩

theorem Trail.eq_of_refused {steps : List (Machine × Machine)}
    (hrefused : n.skips e = true ∨ n.readDepth t e k ≠ 0)
    (h : Trail (above t (n.thread t).stack) (n.startSynchronize t e k) m steps) :
    m = n.startSynchronize t e k := by
  refine h.eq_of_false ?_
  rw [above, (startSynchronize_refused hrefused).2.2.1]
  exact decide_eq_false (Nat.lt_irrefl _)

/-- A thread is seen as before, up to its worker when it was free to move: then it may have gone over
to the worker `goal`. -/
structure BroughtBack (x y : Task) (goal : Option Nat) : Prop where
  pinDepth : y.pinDepth = x.pinDepth
  priority : y.priority = x.priority
  bound : y.bound = x.bound
  held : x.bound = true ∨ x.pinDepth ≠ 0 → y.worker = x.worker
  free : y.worker = x.worker ∨ goal = some y.worker

theorem BroughtBack.of_eq {x y : Task} (h : y = x) (goal : Option Nat) : BroughtBack x y goal := by
  subst h
  exact ⟨rfl, rfl, rfl, fun _ => rfl, .inl rfl⟩

theorem BroughtBack.of_restored {x y z : Task} {goal : Option Nat}
    (hy : y.withoutFlags = ((Snapshot.of x).restored z).withoutFlags) (hz : z.worker = goal.getD x.worker) :
    BroughtBack x y goal := by
  have hw : y.worker = if x.bound = true ∨ x.pinDepth ≠ 0 then x.worker else z.worker :=
    (congrArg Task.worker hy :)
  refine ⟨(congrArg Task.pinDepth hy :), (congrArg Task.priority hy :), (congrArg Task.bound hy :),
    fun hx => hw.trans (if_pos hx), ?_⟩
  by_cases hx : x.bound = true ∨ x.pinDepth ≠ 0
  · exact .inl (hw.trans (if_pos hx))
  · rw [if_neg hx, hz] at hw
    cases goal with
    | none => exact .inl hw
    | some w => exact .inr (congrArg some hw.symm)

theorem broughtBack_of_callOver {i : Nat} {ls : List Machine} (hn : Visited n)
    (hi : (n.enroll t (n.engine e).access.scheduler).task? t (n.engine e).access.scheduler = some i)
    (h : (n.graceWait t e k).CallOver i ls m) :
    BroughtBack (n.view t (n.engine e).access.scheduler) (m.view t (n.engine e).access.scheduler)
      (ls.findSome? (n.graceWait t e k).movesTo?) := by
  obtain ⟨x, hx, hw⟩ := h.stands
  by_cases hcap : i < SlotArray.capacity
  · exact .of_restored (hx.view_eq hcap) hw
  · -- no task is known where there is no room for another one
    have hle := Nat.le_of_not_lt hcap
    exact .of_eq ((hx.view_of_le hle).trans (hn.view_of_le hi hle).symm) _

/-- However a call of `synchronize` ends, the scheduler sees the caller as before, except that one
that was free to move may be on the worker that it has gone over to last. Others may do meanwhile what
they like. -/
theorem synchronize_restores {d : Nat} {steps : List (Machine × Machine)} (hn : Visited n)
    (hr : Reachable (n.startSynchronize t e k)) (hd : (n.startSynchronize t e k).Serves d e k)
    (h : Trail (above t (n.thread t).stack) (n.startSynchronize t e k) m steps)
    (hm : above t (n.thread t).stack m = false) :
    (m.thread t).stack = (n.thread t).stack ∧
      BroughtBack (n.view t (n.engine e).access.scheduler) (m.view t (n.engine e).access.scheduler)
        (((n.graceWait t e k).looks steps).findSome? (n.graceWait t e k).movesTo?) := by
  by_cases hrefused : n.skips e = true ∨ n.readDepth t e k ≠ 0
  · obtain ⟨hs, ht, hst, -⟩ := startSynchronize_refused hrefused
    obtain rfl := h.eq_of_refused hrefused
    exact ⟨hst, .of_eq (view_of_eq hs ht) _⟩
  obtain ⟨hs, h0⟩ := not_or.1 hrefused
  obtain ⟨i, hi, ha, -⟩ := startSynchronize_stillWaits hn hr hd (Bool.eq_false_iff.2 hs)
    (Decidable.not_not.1 h0)
  rcases ha.trail hr h with hab | hover
  · exact absurd (hab.lasts.symm.trans hm) (Bool.false_ne_true ∘ Eq.symm)
  exact ⟨hover.stack, broughtBack_of_callOver hn hi hover⟩

/-- A reader is inside on one worker, and a thread on the other worker calls. -/
def remote : Machine :=
  let m := (Machine.perform { schedulers := ⟨[{ workers := 2 }]⟩, named := 1 }
    (.act 0 (.build 0 { scheduler := some 0 }))).1
  let m := (m.perform (.act 0 (.handle 0 (.readLock .regular)))).1
  (m.begin (.act 1 (.handle 0 (.synchronize .regular)))).1.run 1

def remoteCaller : Machine := ((remote.push 3 .attempt).retain 0).push 3 (.release 0)

/-- The caller has gone over to the reader and has yielded to it. -/
def remoteWait : Machine := (remote.run 1).run 2

theorem reachable_remote : Reachable remote := by
  have h := (@Reachable.new [2] 1 _ rfl).perform (.act 0 (.build 0 { scheduler := some 0 }))
    (by decide +kernel)
  have h := h.perform (.act 0 (.handle 0 (.readLock .regular))) (by decide +kernel)
  exact (h.begin _).run (by decide +kernel)

/-- Then a panic is thrown into the wait. -/
def remoteThrown : Machine := ((remoteWait.back 3 (.error (.text "stop"))).wake 3).run 2

theorem trail_remoteWait : Trail (above 3 [.release 0, .attempt]) (remote.run 1) remoteWait
    (trailRun 2 (remote.run 1) ++ []) := Trail.refl.run (by decide +kernel)

theorem trail_remoteThrown : Trail (above 3 [.release 0, .attempt]) (remote.run 1) remoteThrown
    (trailRun 2 ((remoteWait.back 3 (.error (.text "stop"))).wake 3) ++
      (trailRun 2 (remote.run 1) ++ [])) :=
  (trail_remoteWait.throwOnly (by decide +kernel) (by decide +kernel) "stop").run (by decide +kernel)

theorem thrown_caller_restored :
    (remoteThrown.thread 3).stack.length = 2 ∧
      BroughtBack (remoteCaller.view 3 0) (remoteThrown.view 3 0) (some 0) ∧
      (remoteCaller.view 3 0).worker = 1 ∧ (remoteThrown.view 3 0).worker = 0 := by
  have hr : Reachable (remoteCaller.startSynchronize 3 0 .regular) := by
    have h : Reachable (remote.run 1) := reachable_remote.run (by decide +kernel)
    exact h
  have hs := synchronize_restores (d := 0) (reachable_remote.visited.call rfl 0) hr rfl
    trail_remoteThrown (by decide +kernel)
  have hgoal : ((remoteCaller.graceWait 3 0 .regular).looks (trailRun 2 ((remoteWait.back 3
      (.error (.text "stop"))).wake 3) ++ (trailRun 2 (remote.run 1) ++ []))).findSome?
        (remoteCaller.graceWait 3 0 .regular).movesTo? = some 0 := by decide +kernel
  exact ⟨congrArg List.length hs.1, hgoal ▸ hs.2, by decide +kernel, by decide +kernel⟩

end Machine

end GracePeriod
