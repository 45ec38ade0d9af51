import GracePeriod.Proofs.SchedulerCalls
import GracePeriod.Proofs.Trail
import GracePeriod.Proofs.Undisturbed

/-- The task without the flag of a pause. -/
def GracePeriod.Task.awake (x : Task) : Task := { x with paused := false }

namespace GracePeriod.Machine

variable {K : Nat → Prop} {b : Bool} {m m₀ m' n : Machine} {t u s i e : Nat} {k : Kind} {f : Frame}
  {steps : List (Machine × Machine)}

def HasDrains (m : Machine) (e : Nat) : Prop := ∃ d k, m.Serves d e k

/-- Frames that call for an engine are about one that has been built. -/
def Engaged (m : Machine) : Prop :=
  ∀ u, ∀ f ∈ (m.thread u).stack, ∀ e, m.frameEngine? f = some e → m.HasDrains e

theorem HasDrains.kept (h : m.HasDrains e) (hk : Kept m m') : m'.HasDrains e := by
  obtain ⟨d, k, hd⟩ := h
  exact ⟨d, k, (hd.kept hk).1⟩

theorem hasDrains_of_not_schedules (hf : f.schedules = false) (he : m.frameEngine? f = some e) :
    m.HasDrains e := by
  cases f with
  | worker d ticket =>
    obtain ⟨⟨e', k⟩, hd, rfl⟩ := Option.map_eq_some_iff.1 he
    refine ⟨d, k, ?_⟩
    unfold Serves
    cases hw : (m.drain d).work with
    | callbacks e k =>
      rw [hw] at hd
      cases hd
      rfl
    | scripted words =>
      rw [hw] at hd
      cases hd
  | leave | grace => cases hf
  | _ => cases he

theorem frameEngine?_of_schedules (hf : f.schedules = true) (m m' : Machine) :
    m'.frameEngine? f = m.frameEngine? f := by
  cases f with
  | leave | grace => rfl
  | _ => cases hf

theorem Callings.frames (h : Callings K b t s m m') : ∀ f ∈ (m'.thread t).stack, f.schedules = true →
    f ∈ (m.thread t).stack ∨ ∀ e, m.frameEngine? f = some e → K e := by
  induction h with
  | refl => exact fun f hf _ => .inl hf
  | @tail n n' _ hc ih =>
    intro f hf hs
    have hsame (hst : (n'.thread t).stack = (n.thread t).stack) := ih f (hst ▸ hf) hs
    cases hc with
    | pass hp => exact ih f (hp.frames f hf hs) hs
    | push g hg =>
      rw [stack_push] at hf
      rcases List.mem_cons.1 hf with rfl | hf
      · refine .inr fun e he => hg e ?_
        rwa [frameEngine?_of_schedules hs m n]
      · exact ih f hf hs
    | enroll _ => exact hsame (part_enroll Thread.stack (fun _ _ => rfl) n t s t)
    | change g _ => exact hsame (part_enroll Thread.stack (fun _ _ => rfl) n t s t)

theorem Reachable.hasDrains_of_known (h : Reachable m) (he : m.Known e) : m.HasDrains e :=
  ⟨_, .regular, h.rooted.serves e .regular he⟩

theorem Engaged.advance (h : Engaged m) (hr : Reachable m) (hb : m.BuildsIdle) (ht : m.turn = some t) :
    Engaged (m.advance t) := by
  have hk := advance_kept hb ht
  intro u f hf e he
  cases hs : f.schedules with
  | false => exact hasDrains_of_not_schedules hs he
  | true =>
    rw [frameEngine?_of_schedules hs m] at he
    refine HasDrains.kept ?_ hk
    by_cases hu : u = t
    · subst hu
      cases advance_consults (s := 0) (b := true) (fun _ => hr.hasDrains_of_known) (h u) fun _ => rfl with
      | goesOn hc =>
        rcases hc.frames f hf hs with hf | hf
        · exact h u f hf e he
        · exact hf e he
      | ends n hc hsch q hq =>
        rw [hq, stack_endThread] at hf
        cases hf
    · cases advance_unmoved hb ht hu with
      | same hst _ => exact h u f (hst ▸ hf) e he
      | started _ d _ _ hst _ =>
        rw [hst, List.mem_singleton] at hf
        rw [hf] at hs
        cases hs

theorem Reachable.engaged (h : Reachable m) : Engaged m := by
  induction h with
  | new hm =>
    obtain ⟨cs, -, rfl⟩ := new_eq hm
    intro u f hf
    rw [thread, Table.get_empty] at hf
    cases hf
  | @begin m h s ih =>
    intro u f hf e he
    rw [begin_stack h.visited.orderly s] at hf
    cases hs : f.schedules with
    | false => exact hasDrains_of_not_schedules hs he
    | true =>
      rw [frameEngine?_of_schedules hs m] at he
      exact (ih u f hf e he).kept (begin_changes m s).kept
  | step h hb hs ih =>
    rcases step_cases hs with ⟨t, ht, rfl⟩ | ⟨t, rest, hn, hr, rfl⟩
    · exact ih.advance h hb ht
    · exact ih

/-- What the thread is going to do calls at most one scheduler. -/
theorem Reachable.consults (h : Reachable m) (hb : m.callsScheduler? t = some s → b = true) :
    Consults m.HasDrains b t s m (m.advance t) := advance_consults (fun _ => h.hasDrains_of_known)
      (h.engaged t) hb

theorem Reachable.workers_pos_of_callsScheduler (h : Reachable m) (hs : m.callsScheduler? t = some s) :
    0 < (m.scheduler s).workers := by
  have hdrains {e : Nat} (he : m.HasDrains e) : 0 < (m.scheduler (m.schedulerOf e)).workers := by
    obtain ⟨d, k, hd⟩ := he
    exact h.hasWorkers hd
  have hresolve {held : Option Nat} {slot : Nat} (hs : (m.resolve held slot).map m.schedulerOf = some s) :
      0 < (m.scheduler s).workers := by
    obtain ⟨e, he, rfl⟩ := Option.map_eq_some_iff.1 hs
    exact hdrains (h.hasDrains_of_known (known_of_resolve he))
  unfold callsScheduler? at hs
  split at hs
  · rename_i held op _
    cases op with
    | handle slot c =>
      rw [opScheduler?] at hs
      split at hs
      · exact hresolve hs
      · cases hs
    | guard slot | engineScheduler slot => exact hresolve hs
    | scheduler c | logical c =>
      rw [opScheduler?] at hs
      split at hs
      · rename_i hc
        obtain rfl := Option.some.inj hs
        exact h.ranged.named _ hc
      · cases hs
    | _ => cases hs
  · obtain ⟨e, he, rfl⟩ := Option.map_eq_some_iff.1 hs
    obtain ⟨f, hf, he⟩ := Option.bind_eq_some_iff.1 he
    exact hdrains (h.engaged t f (List.mem_of_head? hf) e he)

theorem Reachable.workers_advance (h : Reachable m) (hb : m.BuildsIdle) (ht : m.turn = some t)
    (hp : 0 < (m.scheduler s).workers) :
    ((m.advance t).scheduler s).workers = (m.scheduler s).workers :=
  h.advance_services hb ht (P := fun n => (n.scheduler s).workers = (m.scheduler s).workers)
    (fun _ _ hv hs hn => (hs.workers hv.tasked (hn ▸ hp)).trans hn) rfl

theorem unused_push (m : Machine) (t : Nat) (f : Frame) : Unused t s m (m.push t f) :=
  .of_eq rfl (part_modifyThread Thread.tasks m t t fun _ => rfl)

theorem Callings.unused (h : Callings K false t s m m') : Unused t s m m' := by
  induction h with
  | refl => exact .refl t s m
  | tail _ hc ih =>
    cases hc with
    | pass hp => exact ih.trans hp.toUnused
    | push f hf => exact ih.trans (unused_push ..)
    | enroll hb | change f hb => cases hb

theorem placed_setTask (m : Machine) (t c : Nat) (x : Task) (s : Nat) :
    ((m.setTask t c x).scheduler s).placed = (m.scheduler s).placed := by
  rw [setTask, scheduler_modifyScheduler]
  split <;> rfl

theorem Callings.held (h : Callings K b t s m m') (hid : m.task? t s = some i) :
    m'.task? t s = some i ∧ (m'.scheduler s).placed = (m.scheduler s).placed := by
  induction h with
  | refl => exact ⟨hid, rfl⟩
  | @tail n _ _ hc ih =>
    obtain ⟨hn, hp⟩ := ih
    cases hc with
    | pass h => exact ⟨h.task?.trans hn, h.placed.trans hp⟩
    | push f _ => exact ⟨(unused_push n t f).task?.trans hn, hp⟩
    | enroll _ =>
      rw [enroll_of_task? hn]
      exact ⟨hn, hp⟩
    | change f _ =>
      rw [Machine.changeTask, enroll_of_task? hn]
      exact ⟨hn, (placed_setTask ..).trans hp⟩

theorem Callings.enrolls (h : Callings K b t s m m') (hn : m.task? t s = none) :
    Unused t s m m' ∨
      ∃ n, Callings K false t s m n ∧ n.task? t s = none ∧ Callings K b t s (n.enroll t s) m' := by
  induction h using Relation.ReflTransGen.head_induction_on with
  | refl => exact .inl (.refl t s m')
  | @head m n hc hs ih =>
    have hfirst (hc : Calling K false t s m n) (hu : Unused t s m n) : Unused t s m m' ∨
        ∃ n, Callings K false t s m n ∧ n.task? t s = none ∧ Callings K b t s (n.enroll t s) m' := by
      rcases ih (hu.task?.trans hn) with h | ⟨n', h, hn', hs'⟩
      · exact .inl (hu.trans h)
      · exact .inr ⟨n', .head hc h, hn', hs'⟩
    cases hc with
    | pass h => exact hfirst (.pass h) h.toUnused
    | push f hf => exact hfirst (.push m f hf) (unused_push ..)
    | enroll hb => exact .inr ⟨m, .refl, hn, hs⟩
    | change f hb =>
      have he : m.changeTask t s f = (m.enroll t s).changeTask t s f := by
        rw [Machine.changeTask, Machine.changeTask, enroll_of_task? (task?_enroll_none hn)]
      rw [he] at hs
      exact .inr ⟨m, .refl, hn, .head (.change _ f hb) hs⟩

/-- From `m` to `m'` thread `t` becomes task `i` of scheduler `s`, on worker `w`, before it makes its first
call. Nothing is left of a task that was in the slot before. -/
def Debut (t s i w : Nat) (m m' : Machine) : Prop :=
  ∃ n, Callings m.HasDrains false t s m n ∧ n.task? t s = none ∧ (n.enroll t s).task? t s = some i ∧
    ((n.enroll t s).scheduler s).task i =
      { worker := w, pinDepth := 0, bound := false, priority := .normal, inhibited := false,
        paused := false } ∧
    ((n.enroll t s).scheduler s).isInhibited i = .ok false ∧
    Callings m.HasDrains true t s (n.enroll t s) m'

/-- The step has made its thread a task of scheduler `s`. -/
def registers (s : Nat) (p : Machine × Machine) : Bool :=
  match p.1.turn with
  | some t => (p.1.task? t s).isNone && (p.2.task? t s).isSome
  | none => false

theorem registers_of_turn (ht : m.turn = some t) :
    registers s (m, m') = ((m.task? t s).isNone && (m'.task? t s).isSome) := by
  unfold registers
  simp only [ht]

theorem debut_of_enrolled (hm : (m.scheduler s).tasks.WellFormed) (hp : 0 < (m.scheduler s).workers)
    (hc : Callings m.HasDrains false t s m n) (hn : n.task? t s = none)
    (hlt : (n.scheduler s).place.1 < SlotArray.capacity)
    (h : Callings m.HasDrains true t s (n.enroll t s) m') :
    Debut t s (n.scheduler s).place.1 ((m.scheduler s).placed % (m.scheduler s).workers) m m' := by
  have hu := hc.unused
  have hw := (hu.tasks hm).1
  have hhas := (Scheduler.place_spec hw hlt).1
  refine ⟨n, hc, hn, task?_enroll_none hn, ?_, ?_, h⟩
  all_goals rw [scheduler_enroll_none hn]
  · rw [Scheduler.task_place_self hw hlt, hu.placed, hu.workers hp]
  · rw [Scheduler.isInhibited_eq (Scheduler.wellFormed_place hw) hhas, Scheduler.task_place_self hw hlt]

theorem task?_endThread_self (m : Machine) (t : Nat) (q : Option Payload) (s : Nat) :
    (m.endThread t q).task? t s = none := by
  rw [task?, tasks_endThread, if_pos rfl]
  rfl

theorem placed_endThread (m : Machine) (t : Nat) (q : Option Payload) (s : Nat) :
    ((m.endThread t q).scheduler s).placed = (m.scheduler s).placed := by
  have hrelease (l : List (Nat × Nat)) (m : Machine) :
      ((l.foldl (fun m p => m.modifyScheduler p.1 (·.release p.2)) m).scheduler s).placed =
        (m.scheduler s).placed := by
    induction l generalizing m with
    | nil => rfl
    | cons p l ih =>
      refine (ih _).trans ?_
      rw [scheduler_modifyScheduler]
      split
      · unfold Scheduler.release
        split <;> rfl
      · rfl
  have hs : (m.endThread t q).schedulers = ((m.thread t).tasks.foldl
      (fun m p => m.modifyScheduler p.1 (·.release p.2)) m).schedulers := by
    rw [endThread_eq, wakeAll_eq]
    rfl
  exact (congrArg (fun x : Table Scheduler => (x.get s).placed) hs).trans (hrelease _ m)

theorem Reachable.advance_enrolls (h : Reachable m) (hb : m.BuildsIdle) (ht : m.turn = some t)
    (hn : m.task? t s = none) :
    (m.advance t).task? t s = none ∧ ((m.advance t).scheduler s).placed = (m.scheduler s).placed ∨
      ∃ i, (m.advance t).task? t s = some i ∧ m.callsScheduler? t = some s ∧
        ((m.advance t).scheduler s).placed = (m.scheduler s).placed + 1 ∧
        ((m.advance t).threads.size < SlotArray.capacity →
          Debut t s i ((m.scheduler s).placed % (m.scheduler s).workers) m (m.advance t)) := by
  cases h.consults (t := t) (s := s) (b := decide (m.callsScheduler? t = some s)) decide_eq_true with
  | ends n hc hsch q he =>
    have hp := (placed_endThread n t q s).trans hc.unused.placed
    rw [he]
    exact .inl ⟨task?_endThread_self .., hp⟩
  | goesOn hc =>
    rcases hc.enrolls hn with hu | ⟨n, hmn, hnn, hnm⟩
    · exact .inl ⟨hu.task?.trans hn, hu.placed⟩
    obtain ⟨hid, hp⟩ := hnm.held (task?_enroll_none hnn)
    refine .inr ⟨_, hid, ?_, ?_, fun hcap => ?_⟩
    · refine by_contra fun hcall => ?_
      rw [decide_eq_false hcall] at hc
      rw [hc.unused.task?, hn] at hid
      cases hid
    · rw [hp, scheduler_enroll_none hnn, ← hmn.unused.placed]
      rfl
    · have hr : Reachable (m.advance t) := h.step hb (by rw [Machine.step, ht])
      have hlt := ((hr.placed hcap).1.has t s _ hid).1
      by_cases hcall : m.callsScheduler? t = some s
      · rw [decide_eq_true hcall] at hnm
        exact debut_of_enrolled (h.visited.tasked.wellFormed s) (h.workers_pos_of_callsScheduler hcall) hmn
          hnn hlt hnm
      · rw [decide_eq_false hcall] at hc
        rw [hc.unused.task?, hn] at hid
        cases hid

theorem Reachable.advance_holds (h : Reachable m) (hid : m.task? t s = some i) :
    ((m.advance t).task? t s = some i ∨ (m.advance t).Ended t) ∧
      ((m.advance t).scheduler s).placed = (m.scheduler s).placed ∧
      (m.callsScheduler? t ≠ some s →
        (((m.advance t).scheduler s).task i).awake = ((m.scheduler s).task i).awake) := by
  have hw := h.visited.tasked.wellFormed
  have hawake {n : Machine} (hu : Unused t s m n) :
      ((n.scheduler s).task i).awake = ((m.scheduler s).task i).awake := by
    obtain ⟨b, hb⟩ := (hu.tasks (hw s)).2 i
    rw [hb]
    rfl
  cases h.consults (t := t) (s := s) (b := decide (m.callsScheduler? t = some s)) decide_eq_true with
  | goesOn hc =>
    obtain ⟨hk, hp⟩ := hc.held hid
    refine ⟨.inl hk, hp, fun hcall => ?_⟩
    rw [decide_eq_false hcall] at hc
    exact hawake hc.unused
  | ends n hc hsch q he =>
    have hscheduler (c : Nat) : n.scheduler c = m.scheduler c := congrArg (Table.get · c) hsch
    rw [he]
    refine ⟨.inr (ended_endThread ..), (placed_endThread n t q s).trans hc.unused.placed, fun _ => ?_⟩
    rw [(scheduler_endThread_keeps (fun c => hscheduler c ▸ hw c) t q s i).2, hscheduler]

theorem Reachable.placed_step (h : Reachable m) (hb : m.BuildsIdle) (hs : m.step = some m') (s : Nat) :
    (m'.scheduler s).placed = (m.scheduler s).placed + if registers s (m, m') then 1 else 0 := by
  rcases step_cases hs with ⟨t, ht, rfl⟩ | ⟨t, rest, hn, hr, rfl⟩
  · rw [registers_of_turn ht]
    cases hid : m.task? t s with
    | some i => exact (h.advance_holds hid).2.1
    | none =>
      rcases h.advance_enrolls hb ht hid with ⟨hn, hp⟩ | ⟨i, hi, -, hp, -⟩
      · rw [hn]
        exact hp
      · rw [hi]
        exact hp
  · unfold registers
    simp only [hn]
    rfl

theorem External.tenures (h : External m m') (hm : Tasked m) (s : Nat) :
    (m'.scheduler s).placed = (m.scheduler s).placed ∧
      (∀ i, (m'.scheduler s).task i = (m.scheduler s).task i) ∧
      ∀ t, m'.task? t s = m.task? t s ∨ m'.task? t s = none := by
  rcases h.tasks_or_end with ⟨hs, -, ht⟩ | ⟨u, rfl⟩
  · have hsch : m'.scheduler s = m.scheduler s := congrArg (Table.get · s) hs
    rw [hsch]
    exact ⟨rfl, fun _ => rfl, fun t => .inl (task?_of_tasks (ht t) s)⟩
  · refine ⟨placed_endThread .., fun i => (scheduler_endThread_keeps hm.wellFormed u none s i).2, fun t => ?_⟩
    rw [task?, tasks_endThread]
    split
    · exact .inr rfl
    · exact .inl rfl

theorem begin_tenures (h : Visited m) (x : Script.Step) (s : Nat) :
    ((m.begin x).1.scheduler s).placed = (m.scheduler s).placed ∧
      (∀ i, ((m.begin x).1.scheduler s).task i = (m.scheduler s).task i) ∧
      ∀ t, (m.begin x).1.task? t s = m.task? t s ∨ (m.begin x).1.task? t s = none := by
  refine h.begin_preserves x (P := fun n => (n.scheduler s).placed = (m.scheduler s).placed ∧
    (∀ i, (n.scheduler s).task i = (m.scheduler s).task i) ∧
    ∀ t, n.task? t s = m.task? t s ∨ n.task? t s = none) (fun n n' hv he hn => ?_)
    ⟨rfl, fun _ => rfl, fun _ => .inl rfl⟩
  obtain ⟨hp, ht, hid⟩ := he.tenures hv.tasked s
  refine ⟨hp.trans hn.1, fun i => (ht i).trans (hn.2.1 i), fun t => ?_⟩
  rcases hid t with hid | hid
  · rw [hid]
    exact hn.2.2 t
  · exact .inr hid

theorem begin_keeps (h : Visited m) (x : Script.Step) (hid : m.task? t s = some i) :
    (m.begin x).1.task? t s = some i ∨ (m.begin x).1.Ended t := by
  refine (h.begin_preserves x (P := fun n => t < n.threads.size ∧ (n.task? t s = some i ∨ n.Ended t))
    (fun n n' hv he ⟨hlt, hn⟩ => ⟨Nat.lt_of_lt_of_le hlt he.threads_le, ?_⟩)
    ⟨lt_size_of_task? hid, .inl hid⟩).2
  rcases hn with hn | ⟨q, hq⟩
  · exact Change.task? (.external he) hn
  · exact .inr ⟨q, he.ended hlt hq⟩

theorem placed_of_new {workers : List Nat} {host : Nat} (h : Machine.new workers host = .ok m) (s : Nat) :
    (m.scheduler s).placed = 0 := by
  have hone {w : Nat} {c : Scheduler} (h : Scheduler.new w = .ok c) : c.placed = 0 := by
    unfold Scheduler.new at h
    split at h
    · cases h
    · obtain rfl := Except.ok.inj h
      rfl
  have hall {ws : List Nat} {cs : List Scheduler} (h : ws.mapM Scheduler.new = .ok cs) :
      ∀ c ∈ cs, c.placed = 0 := by
    induction ws generalizing cs with
    | nil =>
      obtain rfl := Except.ok.inj h
      exact nofun
    | cons w ws ih =>
      rw [List.mapM_cons] at h
      cases hw : Scheduler.new w with
      | error f =>
        rw [hw] at h
        cases h
      | ok c =>
        cases hr : ws.mapM Scheduler.new with
        | error f =>
          rw [hw, hr] at h
          cases h
        | ok rest =>
          rw [hw, hr] at h
          obtain rfl := Except.ok.inj h
          intro c' hc
          rcases List.mem_cons.1 hc with rfl | hc
          · exact hone hw
          · exact ih hr c' hc
  obtain ⟨cs, hcs, rfl⟩ := new_eq h
  show ((⟨cs⟩ : Table Scheduler).get s).placed = 0
  by_cases hs : s < cs.length
  · rw [Table.get, List.getD_eq_getElem _ _ hs]
    exact hall hcs _ (List.getElem_mem hs)
  · rw [Table.get_of_size_le (Nat.le_of_not_lt hs)]
    rfl

/-- A scheduler has placed as many tasks as threads have become tasks of it. -/
theorem Trail.placed {p : Machine → Bool} (h : Trail p m₀ m steps) (hr : Reachable m₀) (s : Nat) :
    (m.scheduler s).placed = (m₀.scheduler s).placed + steps.countP (registers s) := by
  induction h with
  | refl => rfl
  | begin h _ x ih => exact (begin_tenures (h.reachable hr).visited x s).1.trans ih
  | step h _ hb hs ih =>
    rw [(h.reachable hr).placed_step hb hs s, ih, List.countP_cons, Nat.add_assoc]

theorem Reachable.workers_pos (h : Reachable m) (hid : m.task? u s = some i) :
    0 < (m.scheduler s).workers := by
  induction h generalizing u i with
  | new hm =>
    obtain ⟨cs, -, rfl⟩ := new_eq hm
    rw [task?, thread, Table.get_empty] at hid
    cases hid
  | @begin m h x ih =>
    rcases (begin_tenures h.visited x s).2.2 u with he | he
    · have hp := ih (he.symm.trans hid)
      refine Nat.lt_of_lt_of_eq hp (Eq.symm ?_)
      exact h.visited.begin_preserves x (P := fun n => (n.scheduler s).workers = (m.scheduler s).workers)
        (fun n n' hv he hn => ((Act.external he).service.choose_spec.workers hv.tasked (hn ▸ hp)).trans hn)
          rfl
    · rw [he] at hid
      cases hid
  | @step m m' h hb hs ih =>
    rcases step_cases hs with ⟨t, ht, rfl⟩ | ⟨t, rest, hn, hr, rfl⟩
    · have hp : 0 < (m.scheduler s).workers := by
        cases hold : m.task? u s with
        | some j => exact ih hold
        | none =>
          by_cases hu : u = t
          · subst hu
            rcases h.advance_enrolls hb ht hold with ⟨hn, -⟩ | ⟨j, -, hc, -⟩
            · rw [hn] at hid
              cases hid
            · exact h.workers_pos_of_callsScheduler hc
          · rw [h.advance_ignores hb ht hu, hold] at hid
            cases hid
      rw [h.workers_advance hb ht hp]
      exact hp
    · exact ih hid

/-- In every run: no two threads have the same task of a scheduler, as long as there are fewer threads
than slots; tasks are on workers that exist; a thread keeps its task until it ends; the worker, the depth
of pins, the bond and the priority of a task change only in steps of its thread that call the scheduler;
and a thread becomes a task only in such a step, on the worker whose turn it is. -/
theorem tasks_are_held_alone {workers : List Nat} {host : Nat} (hnew : Machine.new workers host = .ok m₀)
    (h : FreeTrail m₀ m steps) (s : Nat) :
    (m.threads.size < SlotArray.capacity →
      ∀ t u i, m.task? t s = some i → m.task? u s = some i → t = u) ∧
    (∀ t i, m.task? t s = some i → ((m.scheduler s).task i).worker < (m.scheduler s).workers) ∧
    (∀ x t i,
      (m.task? t s = some i → ((m.begin x).1.task? t s = some i ∨ (m.begin x).1.Ended t) ∧
        (((m.begin x).1.scheduler s).task i).awake = ((m.scheduler s).task i).awake) ∧
      (m.task? t s = none → (m.begin x).1.task? t s = none)) ∧
    ∀ m', m.BuildsIdle → m.step = some m' → ∀ t i,
      (m.task? t s = some i → (m'.task? t s = some i ∨ m'.Ended t) ∧
        (((m'.scheduler s).task i).awake = ((m.scheduler s).task i).awake ∨
          m.turn = some t ∧ m.callsScheduler? t = some s)) ∧
      (m.task? t s = none → m'.task? t s = some i → m.turn = some t ∧ m.callsScheduler? t = some s ∧
        (m'.threads.size < SlotArray.capacity →
          Debut t s i (steps.countP (registers s) % (m.scheduler s).workers) m m')) := by
  have hr : Reachable m := h.reachable (.new hnew)
  have hplaced : (m.scheduler s).placed = steps.countP (registers s) := by
    rw [h.placed (.new hnew), placed_of_new hnew, Nat.zero_add]
  refine ⟨fun hcap t u i ht hu => ?_, fun t i hid => ?_, fun x t i => ⟨fun hid => ⟨?_, ?_⟩, fun hn => ?_⟩,
    fun m' hb hs t i => ⟨fun hid => ?_, fun hn hid => ?_⟩⟩
  · have hlt := ((hr.placed hcap).1.has t s i ht).1
    exact hr.visited.owned.apart t u _ (mem_tasks_of_task? ht) (mem_tasks_of_task? hu) hlt
  · exact (hr.ranged.inRange s (hr.workers_pos hid)).task (hr.visited.tasked.wellFormed s) i
  · exact begin_keeps hr.visited x hid
  · rw [(begin_tenures hr.visited x s).2.1]
  · rcases (begin_tenures hr.visited x s).2.2 t with he | he
    · rw [he, hn]
    · exact he
  · rcases step_cases hs with ⟨u, hu, rfl⟩ | ⟨u, rest, hn, hq, rfl⟩
    · by_cases ht : t = u
      · subst ht
        obtain ⟨hk, -, ha⟩ := hr.advance_holds hid
        refine ⟨hk, ?_⟩
        by_cases hc : m.callsScheduler? t = some s
        · exact .inr ⟨hu, hc⟩
        · exact .inl (ha hc)
      · obtain ⟨⟨b, hsp⟩, hk⟩ := hr.advance_spares hb hu ht hid
        refine ⟨.inl hk, .inl ?_⟩
        rw [hsp]
        rfl
    · exact ⟨.inl hid, .inl rfl⟩
  · rcases step_cases hs with ⟨u, hu, rfl⟩ | ⟨u, rest, hnone, hq, rfl⟩
    · by_cases ht : t = u
      · subst ht
        rcases hr.advance_enrolls hb hu hn with ⟨hnone, -⟩ | ⟨j, hj, hc, -, hd⟩
        · rw [hnone] at hid
          cases hid
        · obtain rfl := Option.some.inj (hj.symm.trans hid)
          exact ⟨hu, hc, hplaced ▸ hd⟩
      · rw [hr.advance_ignores hb hu ht, hn] at hid
        cases hid
    · cases hn.symm.trans (show m.task? t s = some i from hid)

/-- Two threads have been tasks of a scheduler over three workers, one of them, pinned, has ended, and the
turn is with a third one that asks for its worker. -/
def vacated : Machine × List (Machine × Machine) :=
  let m : Machine := { schedulers := ⟨[{ workers := 3 }]⟩, named := 1 }
  let q := m.follow [.act 0 (.scheduler 0 .pin), .act 1 (.scheduler 0 (.setPriority .highest)), .exit 0]
  let n := (q.1.begin (.act 2 (.scheduler 0 .currentWorker))).1
  (n.run 1, trailRun 1 n ++ q.2)

/-- The third thread gets the slot of the first one, and is on the third worker. -/
theorem slot_of_ended_thread_is_fresh :
    FreeTrail { schedulers := ⟨[{ workers := 3 }]⟩, named := 1 } vacated.1 vacated.2 ∧
      vacated.1.threads.size < SlotArray.capacity ∧ vacated.1.task? 1 0 = some 1 ∧
      vacated.1.task? 2 0 = none ∧ vacated.1.turn = some 2 ∧ vacated.1.callsScheduler? 2 = some 0 ∧
      (vacated.1.advance 2).task? 2 0 = some 0 ∧ ((vacated.1.scheduler 0).task 0).pinDepth = 1 ∧
      Debut 2 0 0 2 vacated.1 (vacated.1.advance 2) ∧
      (((vacated.1.advance 2).scheduler 0).task 1).priority = .highest := by
  have hnew : Machine.new [3] 1 = .ok { schedulers := ⟨[{ workers := 3 }]⟩, named := 1 } := rfl
  have htrail : FreeTrail { schedulers := ⟨[{ workers := 3 }]⟩, named := 1 } vacated.1 vacated.2 :=
    ((Trail.refl.follow _ (by decide +kernel)).begin rfl _).run (by decide +kernel)
  have hstep : vacated.1.step = some (vacated.1.advance 2) := by
    rw [Machine.step, show vacated.1.turn = some 2 by decide +kernel]
  have hidle : vacated.1.BuildsIdle := buildsIdle_of_buildsPlain (by decide +kernel)
  have hsize : (vacated.1.advance 2).threads.size < SlotArray.capacity := by decide +kernel
  have howned := tasks_are_held_alone hnew htrail 0
  have hdebut := ((howned.2.2.2 _ hidle hstep 2 0).2 (by decide +kernel) (by decide +kernel)).2.2 hsize
  have hcount : vacated.2.countP (registers 0) % (vacated.1.scheduler 0).workers = 2 := by decide +kernel
  rw [hcount] at hdebut
  exact ⟨htrail, by decide +kernel, by decide +kernel, by decide +kernel, by decide +kernel,
    by decide +kernel, by decide +kernel, by decide +kernel, hdebut, by decide +kernel⟩

end GracePeriod.Machine
