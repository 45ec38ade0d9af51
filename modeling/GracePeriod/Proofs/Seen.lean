import GracePeriod.Proofs.SectionSteps
import GracePeriod.Proofs.Seats

namespace GracePeriod.Machine

variable {b : Bool} {m m' : Machine} {t u s c i : Nat} {x : Task}

/-- Scheduler `s` sees thread `t` as `x`. Of one that has no task, all that counts is that it is not
pinned. -/
inductive Sees (m : Machine) (t s : Nat) (x : Task) : Prop
  | task (i : Nat) (h : Stands m t s i x)
  | fresh (hn : m.task? t s = none) (hw : (m.scheduler s).tasks.WellFormed) (hp : x.pinDepth = 0)

theorem enroll_ne (hc : c ≠ s) (m : Machine) (t : Nat) :
    (m.enroll t c).scheduler s = m.scheduler s ∧ (m.enroll t c).task? t s = m.task? t s := by
  rcases enroll_cases m t c with ⟨-, he⟩ | ⟨-, he⟩ <;> rw [he]
  · exact ⟨rfl, rfl⟩
  · refine ⟨Table.get_set_ne _ hc.symm _, ?_⟩
    rw [Machine.task?, thread_modifyThread_self]
    show List.lookup s ((m.thread t).tasks ++ [(c, (m.scheduler c).place.1)]) = _
    rw [List.lookup_append, List.lookup_cons, beq_eq_false_iff_ne.2 hc.symm]
    exact Option.or_none

theorem stands_enroll_none (hn : m.task? t s = none) (hw : (m.scheduler s).tasks.WellFormed) :
    ∃ w, Stands (m.enroll t s) t s (m.scheduler s).place.1 { worker := w } := by
  refine ⟨(m.scheduler s).placed % (m.scheduler s).workers, task?_enroll_none hn, ?_, fun hlt => ?_⟩
  all_goals rw [scheduler_enroll_none hn]
  · exact (SlotArray.wellFormed_setD (SlotArray.wellFormed_acquire hw) ..)
  · exact ⟨(Scheduler.place_spec hw hlt).1, congrArg Task.withoutFlags (Scheduler.task_place_self hw hlt)⟩

/-- What others do in a step is no concern of a thread. -/
theorem Reachable.advance_ignores (h : Reachable m) (hb : m.BuildsIdle) (hu : m.turn = some u) (ht : t ≠ u) :
    (m.advance u).task? t s = m.task? t s := by
  refine task?_of_tasks ?_ s
  exact h.advance_services hb hu (P := fun n => (n.thread t).tasks = (m.thread t).tasks)
    (fun _ _ _ hs hn => (hs.tasks_ne ht).trans hn) rfl

namespace Sees

theorem of_tasks (h : Sees m t s x) (hs : (m'.scheduler s).tasks = (m.scheduler s).tasks)
    (ht : m'.task? t s = m.task? t s) : Sees m' t s x := by
  cases h with
  | task i h => exact .task i (h.of_tasks hs ht)
  | fresh hn hw hp => exact .fresh (ht.trans hn) (hs ▸ hw) hp

theorem same (h : Sees m t s x) (hs : m'.scheduler s = m.scheduler s) (ht : m'.task? t s = m.task? t s) :
    Sees m' t s x := h.of_tasks (congrArg Scheduler.tasks hs) ht

theorem of_eq (h : Sees m t s x) (hs : m'.schedulers = m.schedulers)
    (ht : (m'.thread t).tasks = (m.thread t).tasks) : Sees m' t s x :=
  h.same (congrArg (Table.get · s) hs) (task?_of_tasks ht s)

theorem enrolled (h : Sees m t s x) :
    ∃ i y, Stands (m.enroll t s) t s i y ∧ Task.Stays b x y := by
  cases h with
  | task i h => exact ⟨i, x, by rwa [h.enroll_eq], .refl b x⟩
  | fresh hn hw hp =>
    obtain ⟨w, hy⟩ := stands_enroll_none hn hw
    exact ⟨_, _, hy, hp.symm, fun _ hx => absurd hp hx⟩

theorem changeTask (h : Sees m t s x) {f : Task → Task}
    (hf : ∀ x : Task, (f x).withoutFlags = (f x.withoutFlags).withoutFlags) :
    ∃ y, Sees (m.changeTask t s f) t s (f y) ∧ Task.Stays b x y := by
  obtain ⟨i, y, hy, hxy⟩ := h.enrolled (b := b)
  refine ⟨y, .task i ?_, hxy⟩
  have hc := hy.changeTask hf
  rwa [Machine.changeTask, hy.enroll_eq] at hc

theorem changeTask_ne (h : Sees m t s x) (hc : c ≠ s) (f : Task → Task) :
    Sees (m.changeTask t c f) t s x := by
  obtain ⟨hs, ht⟩ := enroll_ne hc m t
  refine h.same (Eq.trans ?_ hs) ht
  exact (scheduler_modifyScheduler ..).trans (if_neg hc.symm)

theorem advance (h : Sees m t s x) (hr : Reachable m) (hb : m.BuildsIdle) (hu : m.turn = some u)
    (ht : t ≠ u) : Sees (m.advance u) t s x := by
  cases h with
  | task i h => exact .task i (h.advance hr hb hu ht)
  | fresh hn hw hp =>
    have hr' : Reachable (m.advance u) := hr.step hb (by rw [step, hu])
    exact .fresh ((hr.advance_ignores hb hu ht).trans hn) (hr'.visited.tasked.wellFormed s) hp

theorem external (h : Sees m t s x) (hv : Visited m) (he : External m m')
    (hl : t < m.threads.size → ¬m'.Ended t) : Sees m' t s x := by
  cases h with
  | task i h => exact .task i (h.external hv he (hl (lt_size_of_task? h.task?)))
  | fresh hn hw hp =>
    refine .fresh ?_ ((hv.act (.external he)).tasked.wellFormed s) hp
    rcases he.tasks_or_end with ⟨-, -, htasks⟩ | ⟨u, rfl⟩
    · exact (task?_of_tasks (htasks t) s).trans hn
    · -- who ends gives up all tasks, and others give up none
      rw [Machine.task?, tasks_endThread]
      split
      · rfl
      · exact hn

theorem view (h : Sees m t s x) (hi : ∀ i, (m.enroll t s).task? t s = some i → i < SlotArray.capacity) :
    Task.Stays b x (m.view t s) := by
  obtain ⟨i, y, hy, hxy⟩ := h.enrolled (b := b)
  have heq : (m.view t s).withoutFlags = y.withoutFlags := hy.task_eq (hi i hy.task?)
  exact hxy.trans ⟨(congrArg Task.pinDepth heq :), fun _ _ => (congrArg Task.worker heq :)⟩

theorem pinDepth_view (h : Sees m t s x) (hi : (m.enroll t s).task? t s = some i) :
    (m.view t s).pinDepth = if i < SlotArray.capacity then x.pinDepth else 0 := by
  split
  · rename_i hlt
    exact (h.view (b := true) fun j hj => Option.some.inj (hj.symm.trans hi) ▸ hlt).pinDepth
  · rename_i hle
    obtain ⟨j, y, hy, -⟩ := h.enrolled (b := true)
    obtain rfl : j = i := Option.some.inj (hy.task?.symm.trans hi)
    have hview := hy.view_of_le (Nat.le_of_not_lt hle)
    rw [Machine.view, hy.enroll_eq] at hview
    rw [Machine.view, hview]
    rfl

end Sees

theorem Reachable.room (hr : Reachable m) (ht : m.threads.size < SlotArray.capacity)
    (hi : (m.enroll t s).task? t s = some i) : i < SlotArray.capacity :=
  (((hr.placed ht).1.enroll hr.visited.tasked ht t s).has t s i hi).1

theorem wellFormed_modifyScheduler {f : Scheduler → Scheduler}
    (hw : ∀ c, (m.scheduler c).tasks.WellFormed)
    (hf : (f (m.scheduler c)).tasks.WellFormed) (s : Nat) :
    ((m.modifyScheduler c f).scheduler s).tasks.WellFormed := by
  rw [scheduler_modifyScheduler]
  split
  · rename_i hs
    exact hs ▸ hf
  · exact hw s

theorem wellFormed_enroll (hw : ∀ c, (m.scheduler c).tasks.WellFormed) (t c s : Nat) :
    ((m.enroll t c).scheduler s).tasks.WellFormed := by
  by_cases hc : c = s
  · subst hc
    cases h : m.task? t c with
    | some i =>
      rw [enroll_of_task? h]
      exact hw c
    | none =>
      rw [scheduler_enroll_none h]
      exact Scheduler.wellFormed_place (hw c)
  · rw [(enroll_ne hc m t).1]
    exact hw s

theorem KeepsPin.wellFormed (h : KeepsPin b t s m m') (hw : ∀ c, (m.scheduler c).tasks.WellFormed) (c : Nat) :
    (m'.scheduler c).tasks.WellFormed := by
  cases h with
  | still h =>
    rw [scheduler, h.schedulers]
    exact hw c
  | enroll c' => exact wellFormed_enroll hw t c' c
  | change c' f ha hf =>
    have he := wellFormed_enroll hw t c'
    exact wellFormed_modifyScheduler he (SlotArray.wellFormed_setD (he c') ..) c
  | adjust c' f hf =>
    refine wellFormed_modifyScheduler hw ?_ c
    rw [hf]
    exact hw c'
  | endPause c' id => exact wellFormed_modifyScheduler hw (SlotArray.wellFormed_setD (hw c') ..) c
  | addScheduler n =>
    rw [scheduler_push]
    split
    · exact SlotArray.wellFormed_empty
    · exact hw c
  | wait e k c' target he hs => exact hw c

theorem KeepsPin.sees (h : KeepsPin b t s m m') (hw : ∀ c, (m.scheduler c).tasks.WellFormed)
    (hx : Sees m t s x) : ∃ y, Sees m' t s y ∧ Task.Stays b x y := by
  have hsame {m' : Machine} (h : Sees m' t s x) : ∃ y, Sees m' t s y ∧ Task.Stays b x y :=
    ⟨x, h, .refl b x⟩
  cases h with
  | still h => exact hsame (hx.of_eq h.schedulers h.tasks)
  | enroll c =>
    by_cases hc : c = s
    · subst hc
      obtain ⟨i, y, hy, hxy⟩ := hx.enrolled (b := b)
      exact ⟨y, .task i hy, hxy⟩
    · obtain ⟨hs, ht⟩ := enroll_ne hc m t
      exact hsame (hx.same hs ht)
  | change c f ha hf =>
    by_cases hc : c = s
    · subst hc
      obtain ⟨y, hy, hxy⟩ := hx.changeTask (b := b) ha
      exact ⟨f y, hy, hxy.trans (hf rfl y)⟩
    · exact hsame (hx.changeTask_ne hc f)
  | adjust c f hf =>
    refine hsame (hx.of_tasks ?_ rfl)
    rw [scheduler_modifyScheduler]
    split
    · exact hf _
    · rfl
  | endPause c id =>
    refine hsame ?_
    cases hx with
    | task i h => exact .task i (h.endPause hw c id)
    | fresh hn _ hp =>
      have hd : KeepsPin b t s m (m.endPause c id) := .endPause m c id
      exact .fresh hn (hd.wellFormed hw s) hp
  | addScheduler n =>
    refine hsame (hx.of_tasks ?_ rfl)
    rw [scheduler_push]
    split
    · -- where there was no scheduler, nothing was kept
      rename_i hs
      rw [scheduler, Table.get_of_size_le (Nat.le_of_eq hs.symm)]
      rfl
    · rfl
  | wait e k c target he hs =>
    exact hsame (hx.of_eq rfl (part_modifyThread Thread.tasks m t t fun _ => rfl))

theorem KeepsPins.sees (h : KeepsPins b t s m m') (hw : ∀ c, (m.scheduler c).tasks.WellFormed)
    (hx : Sees m t s x) : ∃ y, Sees m' t s y ∧ Task.Stays b x y := by
  suffices hall : (∀ c, (m'.scheduler c).tasks.WellFormed) ∧
      ∃ y, Sees m' t s y ∧ Task.Stays b x y from hall.2
  induction h with
  | refl => exact ⟨hw, x, hx, .refl b x⟩
  | tail _ hd ih =>
    obtain ⟨hw', y, hy, hxy⟩ := ih
    obtain ⟨z, hz, hyz⟩ := hd.sees hw' hy
    exact ⟨hd.wellFormed hw', z, hz, hxy.trans hyz⟩

theorem KeepsPin.task? (h : KeepsPin b t s m m') (hi : m.task? t c = some i) : m'.task? t c = some i := by
  have henroll (c' : Nat) : (m.enroll t c').task? t c = some i :=
    (show Move .all t m (m.enroll t c') from .enroll m c').task? hi
  cases h with
  | still h => exact (task?_of_tasks h.tasks c).trans hi
  | enroll c' | change c' => exact henroll c'
  | adjust | endPause | addScheduler => exact hi
  | wait e k q target =>
    have ht : ((m.push t (.grace e k q target)).thread t).tasks = (m.thread t).tasks :=
      part_modifyThread Thread.tasks m t t fun _ => rfl
    exact (task?_of_tasks ht c).trans hi

theorem KeepsPins.task? (h : KeepsPins b t s m m') (hi : m.task? t c = some i) : m'.task? t c = some i := by
  induction h with
  | refl => exact hi
  | tail _ hd ih => exact hd.task? ih

end GracePeriod.Machine
