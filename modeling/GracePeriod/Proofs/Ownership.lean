import GracePeriod.Proofs.Placement

namespace GracePeriod

open SlotArray

namespace Scheduler

variable {c : Scheduler} {id i : Nat}

theorem isTaken_release_ne (hw : c.tasks.WellFormed) (h : c.tasks.isTaken i = true) (hi : i ≠ id) :
    (c.release id).tasks.isTaken i = true := by
  rcases release_cases hw id with ⟨-, hr⟩ | ⟨-, hr⟩
  · rwa [hr]
  · rwa [isTaken, hr.look_eq, if_neg hi]

theorem isTaken_place (hw : c.tasks.WellFormed) (h : c.tasks.isTaken i = true) :
    c.place.2.tasks.isTaken i = true := by
  exact (isTaken_setD (wellFormed_acquire hw) ..).trans (isTaken_acquire hw h)

theorem isTaken_place_self (hw : c.tasks.WellFormed) (hc : c.place.1 < capacity) :
    c.tasks.isTaken c.place.1 = false ∧ c.place.2.tasks.isTaken c.place.1 = true := by
  obtain ⟨hr, hf, -⟩ := acquire_spec hw hc
  refine ⟨hf, (isTaken_setD hr.wellFormed ..).trans ?_⟩
  exact congrArg Cell.occupied hr.look_self

end Scheduler

namespace Machine

variable {scope : Scope} {m m' : Machine} {t u s id e d : Nat} {k : Kind}

/-- Slots in which a thread has a task are taken, and belong to no other thread. -/
structure Owned (m : Machine) : Prop where
  taken : ∀ u, ∀ p ∈ (m.thread u).tasks, p.2 < capacity →
    (m.scheduler p.1).tasks.isTaken p.2 = true
  apart : ∀ u v, ∀ p ∈ (m.thread u).tasks, p ∈ (m.thread v).tasks → p.2 < capacity → u = v

theorem mem_tasks_of_task? (h : m.task? u s = some id) : (s, id) ∈ (m.thread u).tasks := by
  obtain ⟨l₁, l₂, hl, -⟩ := List.lookup_eq_some_iff.1 h
  exact hl ▸ List.mem_append_right _ List.mem_cons_self

theorem scheduler_foldl_release_keeps (hw : ∀ s, (m.scheduler s).tasks.WellFormed)
    (l : List (Nat × Nat)) (s i : Nat) :
    let c := (l.foldl (fun m p => m.modifyScheduler p.1 (·.release p.2)) m).scheduler s
    ((m.scheduler s).tasks.isTaken i = true → (s, i) ∉ l → c.tasks.isTaken i = true) ∧
      c.task i = (m.scheduler s).task i := by
  induction l generalizing m with
  | nil => exact ⟨fun hi _ => hi, rfl⟩
  | cons p l ih =>
    have hone (s : Nat) := scheduler_modifyScheduler m p.1 s (·.release p.2)
    have hw' (s : Nat) :
        ((m.modifyScheduler p.1 (·.release p.2)).scheduler s).tasks.WellFormed := by
      rw [hone]
      split
      · exact Scheduler.wellFormed_release (hw s) p.2
      · exact hw s
    obtain ⟨ht, hv⟩ := ih hw'
    refine ⟨fun hi hl => ht ?_ (List.not_mem_of_not_mem_cons hl), hv.trans ?_⟩
    · rw [hone]
      split
      · rename_i hs
        refine Scheduler.isTaken_release_ne (hw s) hi ?_
        rintro rfl
        exact hl (hs ▸ List.mem_cons_self)
      · exact hi
    · rw [hone]
      split
      · exact Scheduler.task_release (hw s) p.2 i
      · rfl

theorem scheduler_endThread_keeps (hw : ∀ s, (m.scheduler s).tasks.WellFormed) (t : Nat)
    (p : Option Payload) (s i : Nat) :
    ((m.scheduler s).tasks.isTaken i = true → (s, i) ∉ (m.thread t).tasks →
      ((m.endThread t p).scheduler s).tasks.isTaken i = true) ∧
      ((m.endThread t p).scheduler s).task i = (m.scheduler s).task i := by
  have hs : (m.endThread t p).schedulers = ((m.thread t).tasks.foldl
      (fun m p => m.modifyScheduler p.1 (·.release p.2)) m).schedulers := by
    rw [endThread_eq, wakeAll_eq]
    rfl
  have hc : (m.endThread t p).scheduler s = ((m.thread t).tasks.foldl
      (fun m p => m.modifyScheduler p.1 (·.release p.2)) m).scheduler s := congrArg (Table.get · s) hs
  rw [hc]
  exact scheduler_foldl_release_keeps hw _ s i

namespace Owned

theorem new {workers : List Nat} {host : Nat} (h : Machine.new workers host = .ok m) : Owned m := by
  obtain ⟨cs, -, rfl⟩ := new_eq h
  have hnone (u : Nat) {p : Nat × Nat}
      (hp : p ∉ (thread { schedulers := ⟨cs⟩, named := workers.length, hostWorkers := host } u).tasks →
        False) : False := hp (by rw [thread, Table.get_empty]; exact List.not_mem_nil)
  exact ⟨fun u p hp => (hnone u fun hn => hn hp).elim, fun u _ p hp => (hnone u fun hn => hn hp).elim⟩

theorem same (h : Owned m) (ht : ∀ u, ∀ p ∈ (m'.thread u).tasks, p ∈ (m.thread u).tasks)
    (hs : ∀ u, ∀ p ∈ (m'.thread u).tasks, (m.scheduler p.1).tasks.isTaken p.2 = true →
      (m'.scheduler p.1).tasks.isTaken p.2 = true) : Owned m' :=
  ⟨fun u p hp hlt => hs u p hp (h.taken u p (ht u p hp) hlt),
    fun u v p hu hv hlt => h.apart u v p (ht u p hu) (ht v p hv) hlt⟩

theorem of_eq (h : Owned m) (hs : m'.schedulers = m.schedulers)
    (ht : ∀ u, (m'.thread u).tasks = (m.thread u).tasks) : Owned m' := by
  refine h.same (fun u p hp => ht u ▸ hp) fun u p _ hi => ?_
  rwa [scheduler, hs]

theorem enroll (h : Owned m) (hm : Tasked m) (t c : Nat) : Owned (m.enroll t c) := by
  rcases enroll_cases m t c with ⟨-, he⟩ | ⟨hnone, he⟩
  · rwa [he]
  have hsch (s : Nat) : (m.enroll t c).scheduler s =
      if s = c then (m.scheduler c).place.2 else m.scheduler s := by
    rw [he]
    exact Table.get_set ..
  have hkeep {s i : Nat} (hi : (m.scheduler s).tasks.isTaken i = true) :
      ((m.enroll t c).scheduler s).tasks.isTaken i = true := by
    rw [hsch]
    split
    · rename_i hs
      subst hs
      exact Scheduler.isTaken_place (hm.wellFormed s) hi
    · exact hi
  have htasks (u : Nat) : ∀ p ∈ ((m.enroll t c).thread u).tasks,
      p ∈ (m.thread u).tasks ∨ u = t ∧ p = (c, (m.scheduler c).place.1) := by
    intro p hp
    rw [he, thread_modifyThread] at hp
    split at hp
    · rename_i hu
      subst hu
      rcases List.mem_append.1 hp with hp | hp
      · exact .inl hp
      · exact .inr ⟨rfl, List.mem_singleton.1 hp⟩
    · exact .inl hp
  -- a slot that is handed out has been free, so nobody held it
  have hfree {v : Nat} (hlt : (m.scheduler c).place.1 < capacity)
      (hp : (c, (m.scheduler c).place.1) ∈ (m.thread v).tasks) : False := by
    have hf := (Scheduler.isTaken_place_self (hm.wellFormed c) hlt).1
    rw [h.taken v _ hp hlt] at hf
    cases hf
  refine ⟨fun u p hp hlt => ?_, fun u v p hu hv hlt => ?_⟩
  · rcases htasks u p hp with hp | ⟨-, rfl⟩
    · exact hkeep (h.taken u p hp hlt)
    · rw [hsch, if_pos rfl]
      exact (Scheduler.isTaken_place_self (hm.wellFormed c) hlt).2
  · rcases htasks u p hu with hu | ⟨hu, hp⟩ <;> rcases htasks v p hv with hv | ⟨hv, hp'⟩
    · exact h.apart u v p hu hv hlt
    · rw [hp'] at hu hlt
      exact (hfree hlt hu).elim
    · rw [hp] at hv hlt
      exact (hfree hlt hv).elim
    · rw [hu, hv]

theorem modifyScheduler (h : Owned m) (hm : Tasked m) (c : Nat) {f : Scheduler → Scheduler}
    (hf : Scheduler.Keeps f) : Owned (m.modifyScheduler c f) := by
  refine h.same (fun _ _ hp => hp) fun u p _ hi => ?_
  rw [scheduler_modifyScheduler]
  split
  · rwa [((hf _).2 (hm.wellFormed _)).2]
  · exact hi

theorem push (h : Owned m) (n : Nat) :
    Owned { m with schedulers := m.schedulers.push { workers := n } } := by
  refine h.same (fun _ _ hp => hp) fun u p _ hi => ?_
  rw [scheduler_push, if_neg]
  · exact hi
  · intro hp
    rw [scheduler, Table.get_of_size_le (Nat.le_of_eq hp.symm)] at hi
    cases hi

theorem endThread (h : Owned m) (hm : Tasked m) (t : Nat) (p : Option Payload) :
    Owned (m.endThread t p) := by
  have htasks (u : Nat) : ∀ q ∈ ((m.endThread t p).thread u).tasks,
      u ≠ t ∧ q ∈ (m.thread u).tasks := by
    intro q hq
    rw [tasks_endThread] at hq
    split at hq
    · cases hq
    · exact ⟨‹_›, hq⟩
  refine ⟨fun u q hq hlt => ?_, fun u v q hu hv => h.apart u v q (htasks u q hu).2 (htasks v q hv).2⟩
  obtain ⟨hu, hq⟩ := htasks u q hq
  exact (scheduler_endThread_keeps hm.wellFormed t p q.1 q.2).1 (h.taken u q hq hlt) fun hc =>
    hu (h.apart u t q hq hc hlt)

theorem move (h : Owned m) (hm : Tasked m) (hv : Move scope t m m') : Owned m' := by
  cases hv with
  | control c | push f hf | stack fs hs =>
    exact h.of_eq rfl fun u => part_modifyThread Thread.tasks m t u fun _ => rfl
  | enroll s => exact h.enroll hm t s
  | scheduler s f hf => exact h.modifyScheduler hm s hf
  | addScheduler n => exact h.push n
  | notify d =>
    exact h.of_eq (by rw [notify_eq]) (part_notify Thread.tasks (fun _ _ => rfl) m d)
  | openSection e k hs =>
    have hi := Inside.openSection m t e k
    exact h.of_eq (by rw [hi.eq]) (hi.part Thread.tasks fun _ _ => rfl)
  | closeSection e k =>
    have hi := Inside.closeSection m t e k
    exact h.of_eq (by rw [hi.eq]) (hi.part Thread.tasks fun _ _ => rfl)
  | startEngine slot c p hc =>
    exact h.of_eq rfl (part_startEngine Thread.tasks (fun _ _ _ => rfl) m slot c p)
  | spawnTask name passes =>
    exact h.of_eq rfl (part_spawnDrain Thread.tasks m .bare name
      { work := .scripted passes, holders := 1 } rfl)
  | _ => exact h.of_eq rfl fun _ => rfl

theorem change (h : Owned m) (hm : Tasked m) (hc : Change m m') : Owned m' := by
  cases hc with
  | move ht hv => exact h.move hm hv
  | leave ht hl =>
    rcases hl.tasks_or_end with ⟨hs, -, ht⟩ | ⟨p, rfl⟩
    · exact h.of_eq hs ht
    · exact h.endThread hm ..
  | pick hn hr => exact h.of_eq rfl fun _ => rfl
  | external he =>
    rcases he.tasks_or_end with ⟨hs, -, ht⟩ | ⟨t, rfl⟩
    · exact h.of_eq hs ht
    · exact h.endThread hm ..

end Owned

theorem Visited.owned (h : Visited m) : Owned m := by
  refine (h.induction (P := fun m => Tasked m ∧ Owned m)
    (fun workers host m hm => ⟨?_, .new hm⟩) fun _ _ h hc => ⟨h.1.change hc, h.2.change h.1 hc⟩).2
  exact (Reachable.new hm).visited.tasked

theorem Owned.has (h : Owned m) (hm : Tasked m) (hid : m.task? u s = some id) (hlt : id < capacity) :
    (m.scheduler s).Has id :=
  Scheduler.has_of_isTaken (hm.wellFormed s) (h.taken u _ (mem_tasks_of_task? hid) hlt)

theorem Service.tasks_ne (h : Service u m m') (ht : t ≠ u) :
    (m'.thread t).tasks = (m.thread t).tasks := by
  cases h with
  | none _ _ htasks => exact htasks t
  | enroll c he =>
    subst he
    rcases enroll_cases m u c with ⟨-, he⟩ | ⟨-, he⟩ <;> rw [he]
    exact congrArg Thread.tasks (thread_modifyThread_ne _ _ ht)
  | change c f hk hst hsp he =>
    subst he
    rfl
  | added n hn he =>
    subst he
    rfl
  | ended p he =>
    subst he
    have hl : Leave u m (m.endThread u p) := .endThread m p
    exact hl.part_ne Thread.tasks (fun _ _ => rfl) ht

theorem Service.task?_eq (h : Service u m m') (ht : t ≠ u) (hid : m.task? t s = some id) :
    m'.task? t s = some id := (task?_of_tasks (h.tasks_ne ht) s).trans hid

theorem Owned.enroll_spares (ho : Owned m) (hm : Tasked m) (u c : Nat)
    (hid : m.task? t s = some id) (hlt : id < capacity) :
    Scheduler.Spares (m.scheduler s) ((m.enroll u c).scheduler s) id := by
  rcases enroll_cases m u c with ⟨-, he⟩ | ⟨-, he⟩
  · rw [he]
    exact Scheduler.spares_of_eq rfl
  have hsch : (m.enroll u c).scheduler s =
      if s = c then (m.scheduler c).place.2 else m.scheduler s := by
    rw [he]
    exact Table.get_set ..
  rw [hsch]
  split
  · rename_i hs
    subst hs
    refine Scheduler.spares_of_eq (Scheduler.task_place_ne (hm.wellFormed s) ?_)
    rintro rfl
    have hf := (Scheduler.isTaken_place_self (hm.wellFormed s) hlt).1
    rw [ho.taken t _ (mem_tasks_of_task? hid) hlt] at hf
    cases hf
  · exact Scheduler.spares_of_eq rfl

/-- A thread leaves the tasks of other threads as they are, up to pauses. -/
theorem Service.spares (h : Service u m m') (ho : Owned m) (hm : Tasked m) (ht : t ≠ u)
    (hid : m.task? t s = some id) : Scheduler.Spares (m.scheduler s) (m'.scheduler s) id := by
  -- a task without a slot is not kept anywhere
  have hnone (hw : (m'.scheduler s).tasks.WellFormed) (hlt : ¬id < capacity) :
      Scheduler.Spares (m.scheduler s) (m'.scheduler s) id := by
    refine Scheduler.spares_of_eq ?_
    rw [Scheduler.task_of_le hw (Nat.le_of_not_lt hlt),
      Scheduler.task_of_le (hm.wellFormed s) (Nat.le_of_not_lt hlt)]
  cases h with
  | none hs => exact Scheduler.spares_of_eq (by rw [scheduler, hs, scheduler])
  | enroll c he =>
    subst he
    by_cases hlt : id < capacity
    · exact ho.enroll_spares hm u c hid hlt
    · exact hnone ((hm.enroll u c).wellFormed s) hlt
  | change c f hk hst hsp he =>
    subst he
    by_cases hlt : id < capacity
    · rw [scheduler_modifyScheduler]
      split
      · rename_i hs
        subst hs
        refine hsp (hm.wellFormed s) id fun hu => ht ?_
        exact ho.apart t u _ (mem_tasks_of_task? hid) (mem_tasks_of_task? hu) hlt
      · exact Scheduler.spares_of_eq rfl
    · exact hnone ((hm.modifyScheduler c fun _ hc => ((hk _).2 hc).1).wellFormed s) hlt
  | added n hn he =>
    subst he
    rw [scheduler_push]
    split
    · rename_i hs
      rw [scheduler, Table.get_of_size_le (Nat.le_of_eq hs.symm)]
      exact Scheduler.spares_of_eq rfl
    · exact Scheduler.spares_of_eq rfl
  | ended p he =>
    subst he
    exact Scheduler.spares_of_eq (scheduler_endThread_keeps hm.wellFormed u p s id).2

theorem Reachable.advance_spares (h : Reachable m) (hb : m.BuildsIdle) (hu : m.turn = some u)
    (ht : t ≠ u) (hid : m.task? t s = some id) :
    Scheduler.Spares (m.scheduler s) ((m.advance u).scheduler s) id ∧
      (m.advance u).task? t s = some id := by
  refine h.advance_services hb hu (P := fun n =>
    Scheduler.Spares (m.scheduler s) (n.scheduler s) id ∧ n.task? t s = some id)
    (fun n n' hv hs hn => ?_) ⟨Scheduler.spares_of_eq rfl, hid⟩
  exact ⟨hn.1.trans (hs.spares hv.owned hv.tasked ht hn.2), hs.task?_eq ht hn.2⟩

theorem External.spares (h : External m m') (hm : Tasked m) (ht : ¬m'.Ended t) (hid : m.task? t s = some id) :
    Scheduler.Spares (m.scheduler s) (m'.scheduler s) id ∧ m'.task? t s = some id := by
  rcases h.tasks_or_end with ⟨hs, -, htasks⟩ | ⟨u, rfl⟩
  · exact ⟨Scheduler.spares_of_eq (by rw [scheduler, hs, scheduler]),
      (task?_of_tasks (htasks t) s).trans hid⟩
  · refine ⟨Scheduler.spares_of_eq (scheduler_endThread_keeps hm.wellFormed u none s id).2, ?_⟩
    have hu : t ≠ u := by
      rintro rfl
      exact ht ⟨none, status_endThread_self ..⟩
    have hl : Leave u m (m.endThread u none) := .endThread m none
    exact (task?_of_tasks (hl.part_ne Thread.tasks (fun _ _ => rfl) hu) s).trans hid

theorem Action.serves (h : Action scope t m m') (hd : m'.Serves d e k) : m.Serves d e k ∨
    m'.schedulers = m.schedulers ∧ ((m'.engine e).access.scheduler < m.named ∨
      0 < (m.scheduler (m'.engine e).access.scheduler).workers) := by
  have hsame {n : Machine} (hn : ∀ d, (n.drain d).work = (m.drain d).work) (hd : n.Serves d e k) :
      m.Serves d e k := (hn d).symm.trans hd
  have hnotify {n n' : Machine} (d' : Nat) (hn : ∀ d, (n.drain d).work = (m.drain d).work)
      (he : n' = n.notify d') (hd : n'.Serves d e k) : m.Serves d e k :=
    hsame (fun d => he ▸ (part_drain_notify Drain.work (fun _ _ => rfl) n d' d).trans (hn d)) hd
  have hmod {n : Machine} (hn : n.drains = m.drains) (d' : Nat) {f : Drain → Drain}
      (hf : ∀ x, (f x).work = x.work) (d : Nat) :
      ((n.modifyDrain d' f).drain d).work = (m.drain d).work :=
    (part_modifyDrain Drain.work n d' d hf).trans (work_of_drains hn d)
  cases h with
  | count d' f hf => exact .inl (hsame (hmod rfl d' fun x => (hf x).1) hd)
  | request d' _ =>
    exact .inl (hnotify d' (hmod rfl d' (f := fun x => { x with tickets := x.tickets.request })
      fun _ => rfl) rfl hd)
  | close d' =>
    exact .inl (hnotify d' (hmod rfl d' (f := fun x => { x with tickets := x.tickets.close })
      fun _ => rfl) rfl hd)
  | complete d' n _ =>
    exact .inl (hnotify d' (hmod rfl d' (f := fun x => { x with tickets := x.tickets.complete n })
      fun _ => rfl) rfl hd)
  | enqueue e' k' c _ =>
    refine .inl (hnotify _ (hmod (n := (m.modifyEngine e' fun x =>
      x.setQueue k' (x.queue k' ++ [c])).mark t e' k' (.queued c)) rfl _
        (f := fun x => { x with tickets := x.tickets.request }) fun _ => rfl) rfl hd)
  | enroll s => exact .inl (hsame (work_of_drains (by rw [enroll_eq])) hd)
  | openSection e' k' _ => exact .inl (hsame (work_of_drains (Inside.openSection m t e' k').drains) hd)
  | closeSection e' k' => exact .inl (hsame (work_of_drains (Inside.closeSection m t e' k').drains) hd)
  | spawnTask name passes =>
    rcases Serves.of_spawnDrain (x := { work := .scripted passes, holders := 1 }) hd with ⟨-, hw⟩ | ⟨-, hd⟩
    · cases hw
    · exact .inl hd
  | startEngine slot c p hc hs =>
    by_cases he : e = m.engines.size
    · have ha : ((m.startEngine slot c p).2.engine e).access = p :=
        congrArg Engine.access ((Table.get_push ..).trans (if_pos he))
      rw [ha]
      exact .inr ⟨rfl, hs⟩
    · have hspawn {n : Machine} {name : ThreadName} {systemName : String} {k' : Kind}
          (hd : (n.spawnDrain name systemName { work := .callbacks m.engines.size k' }).2.Serves d e k) :
          n.Serves d e k := by
        rcases hd.of_spawnDrain with ⟨-, hw⟩ | ⟨-, hd⟩
        · exact absurd (Work.callbacks.inj hw).1.symm he
        · exact hd
      have hsecond : (m.startSecond slot c).Serves d e k := hd
      exact .inl (hspawn (hspawn hsecond))
  | _ => exact .inl hd

theorem Act.serves (h : Act m m') (hd : m'.Serves d e k) : m.Serves d e k ∨
    m'.schedulers = m.schedulers ∧ ((m'.engine e).access.scheduler < m.named ∨
      0 < (m.scheduler (m'.engine e).access.scheduler).workers) := by
  cases h with
  | action _ h => exact h.serves hd
  | leave _ h => exact .inl ((h.work_eq d).symm.trans hd)
  | external h => exact .inl ((h.work_eq d).symm.trans hd)
  | _ => exact .inl hd

theorem Reachable.hasWorkers (h : Reachable m) (hd : m.Serves d e k) :
    0 < (m.scheduler (m.engine e).access.scheduler).workers := by
  refine (h.act_induction (P := fun m => Ranged m ∧ ∀ d e k, m.Serves d e k →
    0 < (m.scheduler (m.engine e).access.scheduler).workers)
    (fun workers host m hm => ⟨.new hm, fun d e k hd => ?_⟩) fun m m' hv ih ha => ?_).2 d e k hd
  · obtain ⟨cs, -, rfl⟩ := new_eq hm
    rw [Serves, drain, Table.get_empty] at hd
    cases hd
  · obtain ⟨hr, hw⟩ := ih
    obtain ⟨t, hs⟩ := ha.service
    refine ⟨hr.service hv.tasked hs, fun d e k hd => ?_⟩
    rcases ha.serves hd with hd | ⟨hsch, hp⟩
    · have hp := hw d e k hd
      rw [ha.access (hv.drainsAssigned.engine d e k hd), hs.workers hv.tasked hp]
      exact hp
    · rw [scheduler, hsch]
      exact hp.elim (hr.named _) id

end Machine

end GracePeriod
