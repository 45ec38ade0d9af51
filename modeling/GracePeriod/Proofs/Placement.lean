import GracePeriod.Proofs.Act
import GracePeriod.Proofs.Grace
import GracePeriod.Proofs.ReaderCount

namespace GracePeriod

open History SlotArray

namespace Machine

variable {scope : Scope} {m m' : Machine} {t u s id e w i : Nat} {k : Kind} {target : UInt32}

/-- What an act does to schedulers and to the tasks of threads. -/
inductive Service (t : Nat) (m m' : Machine) : Prop
  | none (hs : m'.schedulers = m.schedulers) (hn : m'.named = m.named)
      (ht : ∀ u, (m'.thread u).tasks = (m.thread u).tasks)
  | enroll (s : Nat) (h : m' = m.enroll t s)
  | change (s : Nat) (f : Scheduler → Scheduler) (hk : Scheduler.Keeps f)
      (hs : (m.scheduler s).tasks.WellFormed →
        Scheduler.Steady (m.scheduler s) (f (m.scheduler s)))
      (ho : (m.scheduler s).tasks.WellFormed → ∀ i, m.task? t s ≠ some i →
        Scheduler.Spares (m.scheduler s) (f (m.scheduler s)) i)
      (h : m' = m.modifyScheduler s f)
  | added (n : Nat) (hn : 0 < n)
      (h : m' = { m with schedulers := m.schedulers.push { workers := n } })
  | ended (p : Option Payload) (h : m' = m.endThread t p)

theorem Inside.service (h : Inside t m m') : Service t m m' :=
  .none (by rw [h.eq]) (by rw [h.eq]) (h.part Thread.tasks fun _ _ => rfl)

theorem Action.service (h : Action scope t m m') : Service t m m' := by
  have hthread (f : Thread → Thread) (hf : ∀ x, (f x).tasks = x.tasks) :
      Service t m (m.modifyThread t f) :=
    .none rfl rfl fun u => part_modifyThread Thread.tasks m t u hf
  have hrest (n : Machine) (d : Nat) (hn : n.schedulers = m.schedulers) (hd : n.named = m.named)
      (ht : n.threads = m.threads) : Service t m (n.notify d) := by
    refine .none ?_ ?_ fun u => ?_
    · rw [notify_eq]
      exact hn
    · rw [notify_eq]
      exact hd
    · rw [part_notify Thread.tasks (fun _ _ => rfl), thread, ht]
      rfl
  cases h with
  | control c | push f hf hb => exact hthread _ fun _ => rfl
  | enroll s => exact .enroll s rfl
  | scheduler s f hf hs ho => exact .change s f hf hs ho rfl
  | addScheduler n hn => exact .added n hn rfl
  | request d hd => exact hrest (m.modifyDrain d _) d rfl rfl rfl
  | close d => exact hrest (m.modifyDrain d _) d rfl rfl rfl
  | complete d n hn => exact hrest (m.modifyDrain d _) d rfl rfl rfl
  | enqueue e k c hk => exact hrest (Machine.modifyDrain (Machine.mark _ t e k _) _ _) _ rfl rfl rfl
  | openSection e k hs => exact (Inside.openSection m t e k).service
  | closeSection e k => exact (Inside.closeSection m t e k).service
  | startEngine slot c p hc hs =>
    exact .none rfl rfl (part_startEngine Thread.tasks (fun _ _ _ => rfl) m slot c p)
  | spawnTask name passes =>
    exact .none rfl rfl fun u => part_spawnDrain Thread.tasks m .bare name
      { work := .scripted passes, holders := 1 } rfl u
  | _ => exact .none rfl rfl fun _ => rfl

theorem Act.service (h : Act m m') : ∃ t, Service t m m' := by
  cases h with
  | action ht h => exact ⟨_, h.service⟩
  | @stack t _ ht fs =>
    exact ⟨t, .none rfl rfl fun u => part_modifyThread Thread.tasks m t u fun _ => rfl⟩
  | barrier | pick => exact ⟨0, .none rfl rfl fun _ => rfl⟩
  | @leave t _ _ ht h =>
    rcases h.tasks_or_end with ⟨hs, hn, ht⟩ | ⟨p, h⟩
    · exact ⟨t, .none hs hn ht⟩
    · exact ⟨t, .ended p h⟩
  | external h =>
    rcases h.tasks_or_end with ⟨hs, hn, ht⟩ | ⟨t, h⟩
    · exact ⟨0, .none hs hn ht⟩
    · exact ⟨t, .ended none h⟩

/-- What survives all that a thread does to schedulers and tasks survives its turn. -/
theorem Reachable.advance_services {P : Machine → Prop} (h : Reachable m) (hb : m.BuildsIdle)
    (ht : m.turn = some t) (hs : ∀ n n', Visited n → Service t n n' → P n → P n') (hm : P m) :
    P (m.advance t) := by
  refine h.advance_induction hb ht (fun _ n n' hv _ hd => hs n n' hv hd.service)
    (fun n fs hv _ => hs n _ hv (.none rfl rfl fun u => part_modifyThread Thread.tasks n t u fun _ => rfl))
    (fun n e k v _ hv _ => hs n _ hv (.none rfl rfl fun _ => rfl))
    (fun n n' hv _ hl => hs n n' hv ?_) hm
  rcases hl.tasks_or_end with ⟨hs, hn, ht⟩ | ⟨p, he⟩
  · exact .none hs hn ht
  · exact .ended p he

theorem scheduler_enroll_steady (hw : (m.scheduler s).tasks.WellFormed) (t c : Nat) :
    Scheduler.Steady (m.scheduler c) ((m.enroll t s).scheduler c) := by
  rcases enroll_cases m t s with ⟨-, h⟩ | ⟨-, h⟩ <;> rw [h]
  · exact .refl _
  · show Scheduler.Steady _ ((m.schedulers.set s (m.scheduler s).place.2).get c)
    rw [Table.get_set]
    split
    · rename_i hc
      rw [hc]
      exact Scheduler.steady_place hw
    · exact .refl _

theorem scheduler_modifyScheduler_steady {f : Scheduler → Scheduler}
    (hf : Scheduler.Steady (m.scheduler s) (f (m.scheduler s))) (c : Nat) :
    Scheduler.Steady (m.scheduler c) ((m.modifyScheduler s f).scheduler c) := by
  rw [scheduler_modifyScheduler]
  split
  · rename_i hc
    rw [hc]
    exact hf
  · exact .refl _

theorem Service.steady (h : Service t m m') (hm : Tasked m) (s : Nat) :
    Scheduler.Steady (m.scheduler s) (m'.scheduler s) ∨
      m.scheduler s = default ∧ (m'.scheduler s).tasks = {} ∧ 0 < (m'.scheduler s).workers := by
  cases h with
  | none hs hn ht =>
    rw [scheduler, scheduler, hs]
    exact .inl (.refl _)
  | enroll c h =>
    rw [h]
    exact .inl (scheduler_enroll_steady (hm.wellFormed c) t s)
  | change c f hk hs ho h =>
    rw [h]
    exact .inl (scheduler_modifyScheduler_steady (hs (hm.wellFormed c)) s)
  | added n hn h =>
    rw [h, scheduler_push]
    split
    · rename_i hs
      exact .inr ⟨Table.get_of_size_le (Nat.le_of_eq hs.symm), rfl, hn⟩
    · exact .inl (.refl _)
  | ended p h =>
    rw [h]
    exact .inl (scheduler_endThread hm.wellFormed t p s).2.1

theorem Service.workers (h : Service t m m') (hm : Tasked m) (hs : 0 < (m.scheduler s).workers) :
    (m'.scheduler s).workers = (m.scheduler s).workers := by
  rcases h.steady hm s with h | ⟨h, -⟩
  · exact h.workers
  · rw [h] at hs
    cases hs

theorem Service.has (h : Service t m m') (hm : Tasked m) (hid : (m.scheduler s).Has id) :
    (m'.scheduler s).Has id := by
  rcases h.steady hm s with h | ⟨h, -⟩
  · exact hid.mono h.length_le
  · rw [h] at hid
    exact absurd hid (Scheduler.not_has_of_empty rfl)

theorem Service.named (h : Service t m m') : m'.named = m.named := by
  cases h with
  | none hs hn ht => exact hn
  | enroll c h => rw [h, enroll_eq]
  | change c f hk hs ho h => rw [h]; rfl
  | added n hn h => rw [h]
  | ended p h => rw [h, endThread_eq, wakeAll_eq, bury_eq]

/-- Tasks are on workers that exist, and schedulers that can be named have workers. -/
structure Ranged (m : Machine) : Prop where
  inRange : ∀ s, 0 < (m.scheduler s).workers → (m.scheduler s).InRange
  named : ∀ s < m.named, 0 < (m.scheduler s).workers

namespace Ranged

theorem new {workers : List Nat} {host : Nat} (h : Machine.new workers host = .ok m) :
    Ranged m := by
  obtain ⟨cs, hcs, rfl⟩ := new_eq h
  have hget := Scheduler.get_of_mapM_new hcs
  exact ⟨fun s hs => Scheduler.inRange_of_empty (hget s).1 hs, fun s hs => (hget s).2 hs⟩

theorem service (h : Ranged m) (hm : Tasked m) (hs : Service t m m') : Ranged m' := by
  refine ⟨fun s hp => ?_, fun s hlt => ?_⟩
  · rcases hs.steady hm s with hst | ⟨-, ht, hw⟩
    · exact hst.inRange (h.inRange s (hst.workers ▸ hp))
    · exact Scheduler.inRange_of_empty ht hw
  · have hp := h.named s (hs.named ▸ hlt)
    rw [hs.workers hm hp]
    exact hp

end Ranged

theorem Reachable.ranged (h : Reachable m) : Ranged m :=
  h.act_induction (fun _ _ _ hm => .new hm) fun _ _ hv hr ha =>
    hr.service hv.tasked ha.service.choose_spec

theorem Changes.access (h : Changes m m') (he : e < m.engines.size) :
    e < m'.engines.size ∧ (m'.engine e).access = (m.engine e).access :=
  h.preserves (P := fun n => e < n.engines.size ∧ (n.engine e).access = (m.engine e).access)
    (fun _ _ hn hc => ⟨Nat.lt_of_lt_of_le hn.1 hc.engines_le, (hc.access hn.1).trans hn.2⟩) ⟨he, rfl⟩

theorem Act.access (h : Act m m') (he : e < m.engines.size) :
    (m'.engine e).access = (m.engine e).access := (h.changes.access he).2

/-- A slot that is taken belongs to a thread, and every thread can be asked for its tasks. -/
structure Placed (m : Machine) : Prop where
  owned : ∀ s i, (m.scheduler s).tasks.isTaken i = true → ∃ u, m.task? u s = some i
  has : ∀ u s id, m.task? u s = some id → (m.scheduler s).Has id

theorem lt_size_of_task? (h : m.task? u s = some id) : u < m.threads.size := by
  refine Nat.lt_of_not_le fun hle => ?_
  rw [task?, thread_of_size_le hle] at h
  cases h

namespace Placed

theorem acquire_le (h : Placed m) (hw : (m.scheduler s).tasks.WellFormed) :
    (m.scheduler s).tasks.acquire.1 ≤ m.threads.size := by
  have hsub : (m.scheduler s).tasks.toList.map Prod.fst ⊆
      (List.range m.threads.size).filterMap (m.task? · s) := by
    intro i hi
    obtain ⟨⟨i, v⟩, hp, rfl⟩ := List.mem_map.1 hi
    obtain ⟨u, hu⟩ := h.owned s i ((mem_toList hw).1 hp).1
    exact List.mem_filterMap.2 ⟨u, List.mem_range.2 (lt_size_of_task? hu), hu⟩
  have hle := ((nodup_toList hw).subperm hsub).length_le
  rw [List.length_map] at hle
  refine (SlotArray.acquire_le hw).trans (hle.trans ?_)
  exact (List.length_filterMap_le ..).trans (Nat.le_of_eq List.length_range)

theorem service (h : Placed m) (hm : Tasked m) (hs : Service t m m')
    (ho : ∀ s i, (m'.scheduler s).tasks.isTaken i = true → ∃ u, m'.task? u s = some i)
    (hh : ∀ u s id, m'.task? u s = some id → m.task? u s = some id ∨ (m'.scheduler s).Has id) :
    Placed m' := by
  refine ⟨ho, fun u s id hid => ?_⟩
  rcases hh u s id hid with hid | hid
  · exact hs.has hm (h.has u s id hid)
  · exact hid

theorem new {workers : List Nat} {host : Nat} (h : Machine.new workers host = .ok m) :
    Placed m := by
  obtain ⟨cs, hcs, rfl⟩ := new_eq h
  have hget := Scheduler.get_of_mapM_new hcs
  refine ⟨fun s i hi => ?_, fun u s id hid => ?_⟩
  · rw [isTaken, scheduler, (hget s).1, look_empty] at hi
    cases hi
  · rw [task?, thread, Table.get_empty] at hid
    cases hid

theorem enroll (h : Placed m) (hm : Tasked m) (hlt : m.threads.size < capacity) (t c : Nat) :
    Placed (m.enroll t c) := by
  have hs : Service t m (m.enroll t c) := .enroll c rfl
  rcases enroll_cases m t c with ⟨-, he⟩ | ⟨hnone, he⟩
  · rwa [he]
  · have hroom : (m.scheduler c).tasks.acquire.1 < capacity :=
      Nat.lt_of_le_of_lt (h.acquire_le (hm.wellFormed c)) hlt
    obtain ⟨hhas, htaken⟩ := Scheduler.place_spec (hm.wellFormed c) hroom
    have hsch (s : Nat) : (m.enroll t c).scheduler s =
        if s = c then (m.scheduler c).place.2 else m.scheduler s := by
      rw [he]
      exact Table.get_set ..
    have htask (u s : Nat) : (m.enroll t c).task? u s = if u = t ∧ s = c then
        some (m.scheduler c).place.1 else m.task? u s := by
      rw [he, task?, thread_modifyThread]
      by_cases hu : u = t
      · subst hu
        rw [if_pos rfl]
        show List.lookup s ((m.thread u).tasks ++ [(c, (m.scheduler c).place.1)]) = _
        rw [List.lookup_append]
        by_cases hsc : s = c
        · subst hsc
          rw [show List.lookup s (m.thread u).tasks = none from hnone]
          simp
        · rw [List.lookup_cons, beq_eq_false_iff_ne.2 hsc, if_neg fun hc => hsc hc.2]
          exact Option.or_none
      · simp [hu, task?, thread]
    refine h.service hm hs (fun s i hi => ?_) fun u s id hid => ?_
    · rw [hsch] at hi
      split at hi
      · rename_i hsc
        subst hsc
        rcases htaken i hi with rfl | hi
        · exact ⟨t, (htask t s).trans (if_pos ⟨rfl, rfl⟩)⟩
        · obtain ⟨u, hu⟩ := h.owned s i hi
          refine ⟨u, (htask u s).trans ((if_neg ?_).trans hu)⟩
          rintro ⟨rfl, -⟩
          rw [hnone] at hu
          cases hu
      · rename_i hsc
        obtain ⟨u, hu⟩ := h.owned s i hi
        exact ⟨u, (htask u s).trans ((if_neg fun hc => hsc hc.2).trans hu)⟩
    · rw [htask] at hid
      split at hid
      · rename_i hus
        obtain rfl := Option.some.inj hid
        rw [hsch, if_pos hus.2]
        exact .inr hhas
      · exact .inl hid

theorem act (h : Placed m) (hm : Tasked m) (hlt : m.threads.size < capacity) (ha : Act m m') :
    Placed m' := by
  obtain ⟨t, hs⟩ := ha.service
  have hkeep (ht : ∀ u, (m'.thread u).tasks = (m.thread u).tasks)
      (htk : ∀ s i, (m'.scheduler s).tasks.isTaken i = true →
        (m.scheduler s).tasks.isTaken i = true) : Placed m' := by
    refine h.service hm hs (fun s i hi => ?_) fun u s id hid => .inl ?_
    · obtain ⟨u, hu⟩ := h.owned s i (htk s i hi)
      exact ⟨u, (task?_of_tasks (ht u) s).trans hu⟩
    · exact (task?_of_tasks (ht u) s).symm.trans hid
  cases hs with
  | none hsch hn ht =>
    refine hkeep ht fun s i hi => ?_
    rw [scheduler, hsch] at hi
    exact hi
  | enroll c he =>
    rw [he]
    exact h.enroll hm hlt t c
  | change c f hk hf ho he =>
    subst he
    refine hkeep (fun _ => rfl) fun s i hi => ?_
    rw [scheduler_modifyScheduler] at hi
    split at hi
    · exact ((hk _).2 (hm.wellFormed s)).2 i ▸ hi
    · exact hi
  | added n hn he =>
    subst he
    refine hkeep (fun _ => rfl) fun s i hi => ?_
    rw [scheduler_push] at hi
    split at hi
    · rw [isTaken, look_empty] at hi
      cases hi
    · exact hi
  | ended p he =>
    subst he
    have hend := scheduler_endThread hm.wellFormed t p
    have htask (u s : Nat) : (m.endThread t p).task? u s = if u = t then none else m.task? u s := by
      rw [task?, tasks_endThread]
      split <;> rfl
    refine h.service hm (.ended p rfl) (fun s i hi => ?_) fun u s id hid => .inl ?_
    · obtain ⟨hi, hne⟩ := (hend s).2.2 i hi
      obtain ⟨u, hu⟩ := h.owned s i hi
      refine ⟨u, (htask u s).trans ((if_neg ?_).trans hu)⟩
      rintro rfl
      obtain ⟨l₁, l₂, hl, -⟩ := List.lookup_eq_some_iff.1 hu
      exact hne (hl ▸ List.mem_append_right _ List.mem_cons_self)
    · rw [htask] at hid
      split at hid
      · cases hid
      · exact hid

end Placed

end Machine

end GracePeriod
