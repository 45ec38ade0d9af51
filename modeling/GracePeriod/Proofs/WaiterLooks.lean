import GracePeriod.Proofs.Seats
import GracePeriod.Proofs.Stage
import GracePeriod.Proofs.Standing

namespace GracePeriod

theorem Priority.leastUrgent_cases (p q : Priority) :
    p.leastUrgent q = p ∧ q.level ≤ p.level ∨ p.leastUrgent q = q ∧ p.level < q.level := by
  unfold leastUrgent moreUrgent
  split
  · rename_i h
    exact .inr ⟨rfl, of_decide_eq_true h⟩
  · rename_i h
    exact .inl ⟨rfl, UInt8.not_lt.1 fun hlt => h (decide_eq_true hlt)⟩

namespace Machine

variable {m m' n : Machine} {t e w : Nat} {k : Kind} {p : Access} {ids : List Nat} {vs : List Event}

/-- The calls of a waiter, the last one first, where the readers `ids` block it: when one of them is
inhibited it pauses, and otherwise it yields at the priority of the least urgent one. -/
inductive GivesWay (m : Machine) (p : Access) (ids : List Nat) (micros : Nat) : List Event → Prop
  | pause (id : Nat) (hid : id ∈ ids) (h : m.isInhibited p id = .ok true) :
      GivesWay m p ids micros [.pause micros]
  | yield (q : Priority) (h : ∀ id ∈ ids, m.isInhibited p id = .ok false)
      (hle : ∀ id ∈ ids, ∃ r, (m.scheduler p.scheduler).priorityOf id = .ok r ∧ r.level ≤ q.level)
      (hq : ids = [] ∧ q = .highest ∨
        ∃ id ∈ ids, (m.scheduler p.scheduler).priorityOf id = .ok q) :
      GivesWay m p ids micros [.yield, .setPriority q]

theorem surveyReaders_cons {id : Nat} {q : Priority} {b : Bool}
    (h : m.surveyReaders p (id :: ids) = .ok (q, b)) : ∃ r a q' b',
      (m.scheduler p.scheduler).priorityOf id = .ok r ∧ m.isInhibited p id = .ok a ∧
        m.surveyReaders p ids = .ok (q', b') ∧ q = r.leastUrgent q' ∧ b = (a || b') := by
  rw [surveyReaders] at h
  cases hr : (m.scheduler p.scheduler).priorityOf id with
  | error f =>
    rw [hr] at h
    cases h
  | ok r =>
    cases ha : m.isInhibited p id with
    | error f =>
      rw [hr, ha] at h
      cases h
    | ok a =>
      rw [hr, ha] at h
      cases hs : m.surveyReaders p ids with
      | error f =>
        rw [hs] at h
        cases h
      | ok x =>
        rw [hs] at h
        cases h
        exact ⟨r, a, x.1, x.2, rfl, rfl, rfl, rfl, rfl⟩

/-- The priority that is found is that of a reader, and none is less urgent. -/
theorem surveyReaders_priority {q : Priority} {b : Bool} (h : m.surveyReaders p ids = .ok (q, b)) :
    (∀ id ∈ ids, ∃ r, (m.scheduler p.scheduler).priorityOf id = .ok r ∧ r.level ≤ q.level) ∧
      (ids = [] ∧ q = .highest ∨ ∃ id ∈ ids, (m.scheduler p.scheduler).priorityOf id = .ok q) := by
  induction ids generalizing q b with
  | nil =>
    cases h
    exact ⟨fun _ hid => absurd hid List.not_mem_nil, .inl ⟨rfl, rfl⟩⟩
  | cons id ids ih =>
    obtain ⟨r, a, q', b', hr, -, hs, rfl, -⟩ := surveyReaders_cons h
    obtain ⟨hle, hq⟩ := ih hs
    rcases r.leastUrgent_cases q' with ⟨hl, hlt⟩ | ⟨hl, hlt⟩ <;> rw [hl]
    · refine ⟨fun i hi => ?_, .inr ⟨id, List.mem_cons_self, hr⟩⟩
      rcases List.mem_cons.1 hi with rfl | hi
      · exact ⟨r, hr, UInt8.le_refl _⟩
      · obtain ⟨r', hr', hle⟩ := hle i hi
        exact ⟨r', hr', UInt8.le_trans hle hlt⟩
    · refine ⟨fun i hi => ?_, .inr ?_⟩
      · rcases List.mem_cons.1 hi with rfl | hi
        · exact ⟨r, hr, UInt8.le_of_lt hlt⟩
        · exact hle i hi
      · rcases hq with ⟨-, rfl⟩ | ⟨i, hi, hr'⟩
        · exact absurd hlt (UInt8.not_lt.2 (UInt8.zero_le))
        · exact ⟨i, List.mem_cons_of_mem _ hi, hr'⟩

theorem surveyReaders_inhibited {q : Priority} {b : Bool} (h : m.surveyReaders p ids = .ok (q, b)) :
    if b then ∃ id ∈ ids, m.isInhibited p id = .ok true
    else ∀ id ∈ ids, m.isInhibited p id = .ok false := by
  induction ids generalizing q b with
  | nil =>
    cases h
    exact fun _ hid => absurd hid List.not_mem_nil
  | cons id ids ih =>
    obtain ⟨r, a, q', b', -, ha, hs, -, rfl⟩ := surveyReaders_cons h
    have ih := ih hs
    cases a with
    | true => exact ⟨id, List.mem_cons_self, ha⟩
    | false =>
      cases b' with
      | true =>
        obtain ⟨i, hi, hb⟩ := ih
        exact ⟨i, List.mem_cons_of_mem _ hi, hb⟩
      | false =>
        intro i hi
        rcases List.mem_cons.1 hi with rfl | hi
        · exact ha
        · exact ih i hi

theorem givesWay_of_survey {q : Priority} {b : Bool} (h : m.surveyReaders p ids = .ok (q, b))
    (micros : Nat) : GivesWay m p ids micros
      (if b then [.pause micros] else [.yield, .setPriority q]) := by
  have hb := surveyReaders_inhibited h
  obtain ⟨hle, hq⟩ := surveyReaders_priority h
  cases b with
  | true =>
    obtain ⟨id, hid, hi⟩ := hb
    exact .pause id hid hi
  | false => exact .yield q hb hle hq

end Machine

/-- A thread that waits for the end of a grace period, over the frames below its call. -/
structure GraceWait where
  thread : Nat
  engine : Nat
  kind : Kind
  snapshot : Snapshot
  target : UInt32
  access : Access
  rest : List Frame

namespace GraceWait

open Machine

variable {v : GraceWait} {m m' : Machine}

def frame (v : GraceWait) : Frame := .grace v.engine v.kind v.snapshot v.target

def scheduler (v : GraceWait) (m : Machine) : Scheduler := m.scheduler v.access.scheduler

/-- The lowest worker that still has readers from before the advance. -/
def blocker? (v : GraceWait) (m : Machine) : Option Nat :=
  (m.domain v.engine v.kind).firstBlocker? v.target

def worker (v : GraceWait) (m : Machine) : Nat := (m.task v.thread v.access.scheduler).worker

/-- What the waiter calls where worker `w` blocks it, on which it is. -/
def GivesWay (v : GraceWait) (m : Machine) (w : Nat) : List Event → Prop :=
  m.GivesWay v.access ((m.domain v.engine v.kind).records.get w).tasks
    (m.engine v.engine).pauseInterval

/-- The worker that the waiter goes over to at this look. -/
def movesTo? (v : GraceWait) (m : Machine) : Option Nat :=
  (v.blocker? m).filter fun w => w != v.worker m && decide (w < (v.scheduler m).workers)

structure Ends (v : GraceWait) (vs : List Event) (o : Outcome) (m m' : Machine) : Prop where
  stack : (m'.thread v.thread).stack = v.rest
  control : (m'.thread v.thread).control = .back o
  answers : ∃ f : Task → Task, (∀ x, (f x).worker = x.worker) ∧
    Answers v.thread v.access (v.snapshot.calls ++ vs) (v.snapshot.restored ∘ f) m m'

/-- The frames of a thread in the call: its own, under that of a pause if there is one. -/
inductive InCall (v : GraceWait) (m : Machine) : Prop
  | looking (hs : (m.thread v.thread).stack = v.frame :: v.rest)
  | pausing (id : Nat)
      (hs : (m.thread v.thread).stack = .wake v.access.scheduler id :: v.frame :: v.rest)

theorem InCall.same (h : v.InCall m) (hs : (m'.thread v.thread).stack = (m.thread v.thread).stack) :
    v.InCall m' := by
  cases h with
  | looking h => exact .looking (hs.trans h)
  | pausing id h => exact .pausing id (hs.trans h)

/-- The call goes on, with the waiter on the worker `goal` if it has moved. -/
structure GoesOn (v : GraceWait) (vs : List Event) (goal : Option Nat) (m m' : Machine) : Prop where
  stack : v.InCall m'
  control : ∃ r, (m'.thread v.thread).control = .back (.ok r)
  answers : ∃ f : Task → Task, (∀ x, (f x).worker = goal.getD x.worker) ∧
    Answers v.thread v.access vs f m m'

/-- What one look of the waiter leads to. -/
inductive LookResult (v : GraceWait) (m m' : Machine) : Prop
  | ended (hb : v.blocker? m = none) (h : v.Ends [] (.ok .unit) m m') (ht : m'.turn = m.turn)
  | lost (hl : m.Lost v.engine v.kind v.target) (hm : v.movesTo? m = none) (vs : List Event)
      (q : Payload) (h : v.Ends vs (.error q) m m')
  | stayed (w : Nat) (vs : List Event) (hb : v.blocker? m = some w) (hw : v.worker m = w)
      (hg : v.GivesWay m w vs) (h : v.GoesOn vs (v.movesTo? m) m m')
      (hp : v.access.recorded = true → m'.isParked v.thread = true)
  | moved (w : Nat) (hb : v.blocker? m = some w) (hw : v.worker m ≠ w)
      (hlt : w < (v.scheduler m).workers)
      (h : v.GoesOn [.bind w, .setPriority .highest] (v.movesTo? m) m m')
      (hs : (m'.thread v.thread).stack = v.frame :: v.rest) (ht : m'.turn = m.turn)

end GraceWait

namespace Machine

theorem isParked_park (m : Machine) (t : Nat) (q : Park) : (m.park t q).isParked t = true := by
  have hs : ((m.park t q).thread t).status = .parked q :=
    congrArg Thread.status (thread_modifyThread_self (m.done t) t fun x => { x with status := .parked q })
  rw [isParked, hs]

theorem isParked_yield (m : Machine) (t : Nat) (hp : p.recorded = true) :
    (m.yield t p).isParked t = true := by
  rw [yield, if_pos hp]
  exact isParked_park ..

theorem isParked_pause (m : Machine) (t : Nat) (hp : p.recorded = true) (micros : Nat) :
    (m.pause t p micros).isParked t = true := by
  rw [pause, if_pos hp]
  exact isParked_park ..

end Machine

namespace GraceWait

open Machine

variable {v : GraceWait} {m m' n : Machine} {w : Nat} {vs : List Event} {f : Task → Task}

theorem endSynchronize_answers (h : v.snapshot.worker < (v.scheduler n).workers)
    (ha : (n.engine v.engine).access = v.access) :
    Answers v.thread v.access v.snapshot.calls v.snapshot.restored n
      (n.endSynchronize v.thread v.engine v.kind v.snapshot) := by
  have hr := restore_answers (m := n.log v.thread (.graceCompleted v.kind)) (p := v.access) v.thread h
  have hall := ((hr.after (.log n ..)).followed (.mark _ v.thread v.access v.engine v.kind
    .synchronizeReturned)).followed (.back _ v.thread v.access (.ok .unit))
  rw [← ha] at hall ⊢
  exact hall

theorem abortSynchronize_ends {o : Machine} (ha : Answers v.thread v.access vs f m n)
    (hf : ∀ x, (f x).worker = x.worker) (hs : (n.thread v.thread).stack = v.rest)
    (hw : v.snapshot.worker < (v.scheduler n).workers)
    (he : (n.engine v.engine).access = v.access) (q : Payload)
    (ho : o = n.abortSynchronize v.thread v.engine v.kind v.snapshot q) :
    v.Ends vs (.error q) m o := by
  subst ho
  have hr := (ha.trans (restore_answers v.thread hw)).followed (.mark _ v.thread v.access v.engine
    v.kind .synchronizePanicked)
  rw [← he] at hr
  refine ⟨?_, control_back .., f, hf, ?_⟩
  · refine (stack_back ..).trans (((Served.restore n v.thread _ v.snapshot).stack v.thread).trans hs)
  · rw [← he]
    exact hr.followed (.back ..)

def popped (v : GraceWait) (m : Machine) : Machine :=
  m.modifyThread v.thread fun x => { x with stack := v.rest }

theorem popped_answers (v : GraceWait) (m : Machine) :
    Answers v.thread v.access [] id m (v.popped m) := .modifyThread m v.thread v.access fun _ => rfl

theorem stack_popped (v : GraceWait) (m : Machine) : ((v.popped m).thread v.thread).stack = v.rest :=
  stack_pop ..

theorem worker_popped (v : GraceWait) (m : Machine) : v.worker (v.popped m) = v.worker m := by
  have hid : (v.popped m).task? v.thread v.access.scheduler = m.task? v.thread v.access.scheduler :=
    task?_of_tasks (part_modifyThread Thread.tasks m v.thread v.thread
      (f := fun x => { x with stack := v.rest }) fun _ => rfl) _
  rw [worker, task, taskId, hid]
  rfl

theorem movesTo?_of_none (hb : v.blocker? m = none) : v.movesTo? m = none := by
  rw [movesTo?, hb]
  rfl

theorem movesTo?_of_worker (hb : v.blocker? m = some w) (hw : v.worker m = w) :
    v.movesTo? m = none := by
  rw [movesTo?, hb, hw, Option.filter_some, bne_self_eq_false]
  rfl

theorem movesTo?_of_ne (hb : v.blocker? m = some w) (hw : v.worker m ≠ w) :
    v.movesTo? m = if w < (v.scheduler m).workers then some w else none := by
  rw [movesTo?, hb, Option.filter_some, bne_iff_ne.2 (Ne.symm hw), Bool.true_and]
  simp only [decide_eq_true_eq]

theorem lost_of_survey {g : Fault} (ha : (m.engine v.engine).access = v.access)
    (hb : v.blocker? m = some w) (hq : m.surveyReaders v.access
      ((m.domain v.engine v.kind).records.get w).tasks = .error g) :
    m.Lost v.engine v.kind v.target := by
  refine ⟨w, hb, fun hl => ?_⟩
  obtain ⟨-, q, hl⟩ := hl
  rw [ha] at hl
  cases hq.symm.trans hl

theorem lost_of_le (ha : (m.engine v.engine).access = v.access) (hb : v.blocker? m = some w)
    (hw : ¬w < (v.scheduler m).workers) : m.Lost v.engine v.kind v.target := by
  refine ⟨w, hb, fun hl => hw ?_⟩
  rw [ha] at hl
  exact hl.1

theorem goesOn_pause (h : Answers v.thread v.access [] id m n)
    (hs : (n.thread v.thread).stack = v.frame :: v.rest) (micros : Nat) :
    v.GoesOn [.pause micros] none m (n.pause v.thread v.access micros) := by
  have hall := (Answers.pause n v.thread v.access micros).after h
  rcases pause_rests n v.thread v.access micros with hr | ⟨id, hr⟩
  · exact ⟨.looking (hr.stack.trans (congrArg _ hs)), hr.control, _, fun _ => rfl, hall⟩
  · exact ⟨.pausing id (hr.stack.trans (congrArg _ hs)), hr.control, _, fun _ => rfl, hall⟩

theorem goesOn_yield (h : Answers v.thread v.access [] id m n)
    (hs : (n.thread v.thread).stack = v.frame :: v.rest) (q : Priority) :
    v.GoesOn [.yield, .setPriority q] none m
      ((n.setPriority v.thread v.access q).yield v.thread v.access) := by
  have hr := yield_rests (n.setPriority v.thread v.access q) v.thread v.access
  have hs' := hr.stack.trans (((Served.setPriority n v.thread v.access q).stack v.thread).trans hs)
  have hall := ((Answers.setPriority n v.thread v.access q).trans (.yield _ v.thread v.access)).after h
  exact ⟨.looking hs', hr.control, fun x => { x with priority := q }, fun _ => rfl, hall⟩

theorem lookResult_here (ha : (m.engine v.engine).access = v.access)
    (hw : v.snapshot.worker < (v.scheduler m).workers) (hb : v.blocker? m = some w)
    (hhere : v.worker m = w) :
    v.LookResult m ((v.popped m).locateBlocker v.thread v.engine v.kind v.snapshot v.target) := by
  have hn := v.popped_answers m
  have hst := v.stack_popped m
  have hsch : (v.popped m).schedulers = m.schedulers := rfl
  have hstay := movesTo?_of_worker hb hhere
  have ha' : ((v.popped m).engine v.engine).access = v.access := ha
  have hb' : (((v.popped m).engine v.engine).domain v.kind).firstBlocker? v.target = some w := hb
  have hhere' : ((v.popped m).task v.thread v.access.scheduler).worker = w :=
    (v.worker_popped m).trans hhere
  have hrec : (((v.popped m).engine v.engine).domain v.kind).records.get w =
    (m.domain v.engine v.kind).records.get w := rfl
  unfold locateBlocker
  dsimp only
  rw [ha', hb']
  dsimp only
  rw [hhere', if_pos rfl, surveyReaders_eq hsch, hrec]
  cases hq : m.surveyReaders v.access ((m.domain v.engine v.kind).records.get w).tasks with
  | error g =>
    exact .lost (lost_of_survey ha hb hq) hstay [] _
      (abortSynchronize_ends hn (fun _ => rfl) hst hw ha _ rfl)
  | ok q =>
    have hg : v.GivesWay m w _ := givesWay_of_survey hq (m.engine v.engine).pauseInterval
    let o := (v.popped m).push v.thread v.frame
    have ho : Answers v.thread v.access [] id m o := hn.trans (.push _ v.thread v.access v.frame)
    have hso : (o.thread v.thread).stack = v.frame :: v.rest :=
      (stack_push ..).trans (congrArg _ hst)
    dsimp only
    cases hi : q.2 with
    | true =>
      rw [if_pos rfl]
      rw [hi, if_pos rfl] at hg
      have hlog := ho.trans (.log o v.thread v.access (.graceSleeping w))
      refine .stayed w _ hb hhere hg ?_ fun hp => isParked_pause _ _ hp _
      rw [hstay]
      exact goesOn_pause hlog hso _
    | false =>
      rw [if_neg Bool.false_ne_true]
      rw [hi, if_neg Bool.false_ne_true] at hg
      refine .stayed w _ hb hhere hg ?_ fun hp => isParked_yield _ _ hp
      rw [hstay]
      exact goesOn_yield ho hso q.1

theorem lookResult_there (ha : (m.engine v.engine).access = v.access)
    (hw : v.snapshot.worker < (v.scheduler m).workers) (hb : v.blocker? m = some w)
    (hthere : v.worker m ≠ w) :
    v.LookResult m ((v.popped m).locateBlocker v.thread v.engine v.kind v.snapshot v.target) := by
  have hn := v.popped_answers m
  have hst := v.stack_popped m
  have ha' : ((v.popped m).engine v.engine).access = v.access := ha
  have hb' : (((v.popped m).engine v.engine).domain v.kind).firstBlocker? v.target = some w := hb
  have hthere' : ¬w = ((v.popped m).task v.thread v.access.scheduler).worker := fun hc =>
    hthere ((v.worker_popped m).symm.trans hc.symm)
  let o := ((v.popped m).log v.thread (.graceMoving v.kind w)).setPriority v.thread v.access .highest
  have ho : Answers v.thread v.access [.setPriority .highest]
      (fun x => { x with priority := .highest }) m o :=
    (Answers.setPriority _ v.thread v.access .highest).after (hn.trans (.log _ v.thread v.access _))
  have hserved : Served (v.popped m) (o.bind v.thread v.access w).1 :=
    ((Served.log ..).trans (.setPriority ..)).trans (.bind ..)
  have hsb : ((o.bind v.thread v.access w).1.thread v.thread).stack = v.rest :=
    (hserved.stack v.thread).trans hst
  have hworkers : (o.scheduler v.access.scheduler).workers = (v.scheduler m).workers := ho.workers
  unfold locateBlocker
  dsimp only
  rw [ha', hb']
  dsimp only
  rw [if_neg hthere']
  have hbind : ((((v.popped m).log v.thread (.graceMoving v.kind w)).setPriority v.thread v.access
      .highest).bind v.thread v.access w) = o.bind v.thread v.access w := rfl
  rw [hbind]
  by_cases hlt : w < (v.scheduler m).workers
  · obtain ⟨hcalls, hok⟩ := Answers.bind (m := o) (p := v.access) v.thread (w := w) (by rwa [hworkers])
    rw [hok]
    dsimp only
    let q := (o.bind v.thread v.access w).1.push v.thread v.frame
    have hs : ((q.done v.thread).thread v.thread).stack = v.frame :: v.rest :=
      (stack_back ..).trans ((stack_push ..).trans (congrArg _ hsb))
    have hall := ((ho.trans hcalls).followed (.push _ v.thread v.access v.frame)).followed
      (.back q v.thread v.access (.ok .unit))
    refine .moved w hb hthere hlt ?_ hs (congrArg Machine.turn hserved.eq :)
    rw [movesTo?_of_ne hb hthere, if_pos hlt]
    exact ⟨.looking hs, ⟨_, control_back ..⟩, _, fun x => rfl, hall⟩
  · obtain ⟨hcalls, f, herr⟩ := Answers.refused (m := o) (p := v.access) v.thread (w := w)
      (by rwa [hworkers])
    rw [herr]
    have hall := ho.trans hcalls
    have hw' : v.snapshot.worker < (v.scheduler (o.bind v.thread v.access w).1).workers := by
      rw [scheduler, hall.workers]
      exact hw
    exact .lost (lost_of_le ha hb hlt) ((movesTo?_of_ne hb hthere).trans (if_neg hlt)) _ _
      (abortSynchronize_ends hall (fun _ => rfl) hsb hw' ((congrArg _ (hserved.engine _)).trans ha) _ rfl)

/-- A look of the waiter at the records, and what follows from it. -/
theorem lookResult {r : Result} (hs : (m.thread v.thread).stack = v.frame :: v.rest)
    (hc : (m.thread v.thread).control = .back (.ok r)) (ha : (m.engine v.engine).access = v.access)
    (hw : v.snapshot.worker < (v.scheduler m).workers) : v.LookResult m (m.advance v.thread) := by
  have hadv : m.advance v.thread =
      (v.popped m).locateBlocker v.thread v.engine v.kind v.snapshot v.target := advance_back hc hs
  rw [hadv]
  cases hb : v.blocker? m with
  | none =>
    have hb' : (((v.popped m).engine v.engine).domain v.kind).firstBlocker? v.target = none := hb
    obtain ⟨hs', hc', -⟩ := endSynchronize_returns (v.popped m) v.thread v.engine v.kind v.snapshot
    unfold locateBlocker
    dsimp only
    rw [hb']
    refine .ended hb ⟨hs'.trans (v.stack_popped m), hc', id, fun _ => rfl, ?_⟩ ?_
    · rw [List.append_nil]
      exact (endSynchronize_answers (n := v.popped m) hw ha).after (v.popped_answers m)
    · have hserved := (Served.log (v.popped m) v.thread (.graceCompleted v.kind)).trans
        (.restore _ v.thread ((v.popped m).engine v.engine).access v.snapshot)
      exact (congrArg Machine.turn hserved.eq :)
  | some w =>
    by_cases hhere : v.worker m = w
    · exact lookResult_here ha hw hb hhere
    · exact lookResult_there ha hw hb hhere

theorem thrown {q : Payload} (hs : (m.thread v.thread).stack = v.frame :: v.rest)
    (hc : (m.thread v.thread).control = .back (.error q)) (ha : (m.engine v.engine).access = v.access)
    (hw : v.snapshot.worker < (v.scheduler m).workers) :
    v.Ends [] (.error q) m (m.advance v.thread) := by
  have hadv : m.advance v.thread =
      (v.popped m).abortSynchronize v.thread v.engine v.kind v.snapshot q := advance_back hc hs
  exact abortSynchronize_ends (v.popped_answers m) (fun _ => rfl) (v.stack_popped m) hw ha q hadv

end GraceWait

end GracePeriod
