import GracePeriod.Proofs.Record
import GracePeriod.Proofs.Stack

namespace GracePeriod

namespace Scheduler

open SlotArray

theorem wellFormed_place {s : Scheduler} (h : s.tasks.WellFormed) : s.place.2.tasks.WellFormed :=
  wellFormed_setD (wellFormed_acquire h) _ _

theorem place_le {s : Scheduler} (h : s.tasks.WellFormed) : s.place.1 ≤ capacity :=
  acquire_le_capacity h

theorem of_mapM_new {ws : List Nat} {cs : List Scheduler} (h : ws.mapM Scheduler.new = .ok cs) :
    cs.length = ws.length ∧ ∀ c ∈ cs, c.tasks = {} ∧ 0 < c.workers := by
  induction ws generalizing cs with
  | nil =>
    obtain rfl := Except.ok.inj h
    exact ⟨rfl, nofun⟩
  | cons w ws ih =>
    rw [List.mapM_cons] at h
    unfold Scheduler.new at h
    split at h
    · cases h
    · rename_i hw
      cases hr : ws.mapM Scheduler.new with
      | error f =>
        unfold Scheduler.new at hr
        rw [hr] at h
        cases h
      | ok rest =>
        obtain ⟨hlen, hall⟩ := ih hr
        unfold Scheduler.new at hr
        rw [hr] at h
        obtain rfl := Except.ok.inj h
        refine ⟨congrArg (· + 1) hlen, fun c hc => ?_⟩
        rcases List.mem_cons.1 hc with rfl | hc
        · exact ⟨rfl, Nat.pos_of_ne_zero hw⟩
        · exact hall c hc

theorem get_of_mapM_new {ws : List Nat} {cs : List Scheduler} (h : ws.mapM Scheduler.new = .ok cs)
    (s : Nat) : ((⟨cs⟩ : Table Scheduler).get s).tasks = {} ∧
      (s < ws.length → 0 < ((⟨cs⟩ : Table Scheduler).get s).workers) := by
  obtain ⟨hlen, hall⟩ := of_mapM_new h
  by_cases hs : s < cs.length
  · have hg : (⟨cs⟩ : Table Scheduler).get s = cs[s] := by simp [Table.get, hs]
    rw [hg]
    obtain ⟨ht, hw⟩ := hall _ (List.getElem_mem hs)
    exact ⟨ht, fun _ => hw⟩
  · rw [Table.get_of_size_le (Nat.le_of_not_lt hs)]
    exact ⟨rfl, fun hlt => absurd (hlt.trans_eq hlen.symm) hs⟩

end Scheduler

namespace Machine

variable {scope : Scope} {m m' : Machine} {t u s id : Nat}

/-- The slots of all schedulers are in order, and threads have tasks that slots can name. -/
structure Tasked (m : Machine) : Prop where
  wellFormed : ∀ s, (m.scheduler s).tasks.WellFormed
  le_capacity : ∀ t, ∀ p ∈ (m.thread t).tasks, p.2 ≤ SlotArray.capacity

theorem scheduler_foldl_release (hw : ∀ s, (m.scheduler s).tasks.WellFormed)
    (l : List (Nat × Nat)) (s : Nat) :
    let c := (l.foldl (fun m p => m.modifyScheduler p.1 (·.release p.2)) m).scheduler s
    c.tasks.WellFormed ∧ Scheduler.Steady (m.scheduler s) c ∧
      ∀ i, c.tasks.isTaken i = true → (m.scheduler s).tasks.isTaken i = true ∧ (s, i) ∉ l := by
  induction l generalizing m with
  | nil => exact ⟨hw s, .refl _, fun i hi => ⟨hi, List.not_mem_nil⟩⟩
  | cons p l ih =>
    have hone (s : Nat) := scheduler_modifyScheduler m p.1 s (·.release p.2)
    have hw' (s : Nat) :
        ((m.modifyScheduler p.1 (·.release p.2)).scheduler s).tasks.WellFormed := by
      rw [hone]
      split
      · exact Scheduler.wellFormed_release (hw s) p.2
      · exact hw s
    obtain ⟨hwf, hst, ht⟩ := ih hw'
    refine ⟨hwf, ?_, fun i hi => ?_⟩
    · refine Scheduler.Steady.trans ?_ hst
      rw [hone]
      split
      · exact Scheduler.steady_release (hw s) p.2
      · exact .refl _
    · obtain ⟨hi, hl⟩ := ht i hi
      rw [hone] at hi
      split at hi
      · obtain ⟨hi, hne⟩ := Scheduler.isTaken_release (hw s) hi
        refine ⟨hi, fun hc => (List.mem_cons.1 hc).elim (fun hp => hne ?_) hl⟩
        rw [← hp]
      · rename_i hs
        refine ⟨hi, fun hc => (List.mem_cons.1 hc).elim (fun hp => hs ?_) hl⟩
        rw [← hp]

theorem scheduler_endThread (hw : ∀ s, (m.scheduler s).tasks.WellFormed) (t : Nat)
    (p : Option Payload) (s : Nat) :
    ((m.endThread t p).scheduler s).tasks.WellFormed ∧
      Scheduler.Steady (m.scheduler s) ((m.endThread t p).scheduler s) ∧
      ∀ i, ((m.endThread t p).scheduler s).tasks.isTaken i = true →
        (m.scheduler s).tasks.isTaken i = true ∧ (s, i) ∉ (m.thread t).tasks := by
  have hs : (m.endThread t p).schedulers = ((m.thread t).tasks.foldl
      (fun m p => m.modifyScheduler p.1 (·.release p.2)) m).schedulers := by
    rw [endThread_eq, wakeAll_eq]
    rfl
  rw [scheduler, hs]
  exact scheduler_foldl_release hw _ s

theorem tasks_endThread (m : Machine) (t : Nat) (p : Option Payload) (u : Nat) :
    ((m.endThread t p).thread u).tasks = if u = t then [] else (m.thread u).tasks := by
  split
  · rename_i hu
    rw [hu, thread_endThread_self]
  · rename_i hu
    rcases thread_endThread_ne m hu p with h | ⟨-, h⟩ <;> rw [h]

namespace Tasked

theorem task?_le (h : Tasked m) (hid : m.task? t s = some id) : id ≤ SlotArray.capacity := by
  obtain ⟨l₁, l₂, hl, -⟩ := List.lookup_eq_some_iff.1 hid
  exact h.le_capacity t (s, id) (by rw [hl]; exact List.mem_append_right _ List.mem_cons_self)

theorem same (h : Tasked m) (hs : m'.schedulers = m.schedulers)
    (ht : ∀ u, (m'.thread u).tasks = (m.thread u).tasks ∨ (m'.thread u).tasks = []) :
    Tasked m' := by
  refine ⟨fun s => ?_, fun u p hp => ?_⟩
  · rw [scheduler, hs]
    exact h.wellFormed s
  · rcases ht u with hu | hu <;> rw [hu] at hp
    · exact h.le_capacity u p hp
    · cases hp

theorem modifyScheduler (h : Tasked m) (s : Nat) {f : Scheduler → Scheduler}
    (hf : ∀ c : Scheduler, c.tasks.WellFormed → (f c).tasks.WellFormed) :
    Tasked (m.modifyScheduler s f) := by
  refine ⟨fun c => ?_, h.le_capacity⟩
  rw [scheduler_modifyScheduler]
  split
  · exact hf _ (h.wellFormed c)
  · exact h.wellFormed c

theorem enroll (h : Tasked m) (t s : Nat) : Tasked (m.enroll t s) := by
  rcases enroll_cases m t s with ⟨-, he⟩ | ⟨-, he⟩ <;> rw [he]
  · exact h
  · refine ⟨fun c => ?_, fun u p hp => ?_⟩
    · have hg : (({ m with schedulers := m.schedulers.set s (m.scheduler s).place.2 } :
          Machine).modifyThread t fun x =>
            { x with tasks := x.tasks ++ [(s, (m.scheduler s).place.1)] }).scheduler c =
          if c = s then (m.scheduler s).place.2 else m.scheduler c := Table.get_set ..
      rw [hg]
      split
      · exact Scheduler.wellFormed_place (h.wellFormed s)
      · exact h.wellFormed c
    · rw [thread_modifyThread] at hp
      split at hp
      · rcases List.mem_append.1 hp with hp | hp
        · exact h.le_capacity u p hp
        · rw [List.mem_singleton.1 hp]
          exact Scheduler.place_le (h.wellFormed s)
      · exact h.le_capacity u p hp

theorem move (h : Tasked m) (hm : Move scope t m m') : Tasked m' := by
  cases hm with
  | control c | push f hf | stack fs hs =>
    exact h.same rfl fun u => .inl (part_modifyThread Thread.tasks m t u fun _ => rfl)
  | enroll s => exact h.enroll t s
  | scheduler s f hf => exact h.modifyScheduler s fun c hc => ((hf c).2 hc).1
  | addScheduler n =>
    refine ⟨fun c => ?_, h.le_capacity⟩
    rw [scheduler_push]
    split
    · exact SlotArray.wellFormed_empty
    · exact h.wellFormed c
  | notify d =>
    exact h.same (by rw [notify_eq]) fun u =>
      .inl (part_notify Thread.tasks (fun _ _ => rfl) m d u)
  | openSection e k hs =>
    have hi := Inside.openSection m t e k
    exact h.same (by rw [hi.eq]) fun u => .inl (hi.part Thread.tasks (fun _ _ => rfl) u)
  | closeSection e k =>
    have hi := Inside.closeSection m t e k
    exact h.same (by rw [hi.eq]) fun u => .inl (hi.part Thread.tasks (fun _ _ => rfl) u)
  | startEngine slot c p hc =>
    exact h.same rfl fun u => .inl (part_startEngine Thread.tasks (fun _ _ _ => rfl) m slot c p u)
  | spawnTask name passes =>
    exact h.same rfl fun u => .inl (part_spawnDrain Thread.tasks _ _ _ _ rfl u)
  | _ => exact h.same rfl fun _ => .inl rfl

theorem endThread (h : Tasked m) (t : Nat) (p : Option Payload) : Tasked (m.endThread t p) := by
  refine ⟨fun s => (scheduler_endThread h.wellFormed t p s).1, fun u q hq => ?_⟩
  rw [tasks_endThread] at hq
  split at hq
  · cases hq
  · exact h.le_capacity u q hq

end Tasked

theorem Leave.tasks_or_end (h : Leave t m m') :
    (m'.schedulers = m.schedulers ∧ m'.named = m.named ∧
      ∀ u, (m'.thread u).tasks = (m.thread u).tasks) ∨ ∃ p, m' = m.endThread t p := by
  cases h with
  | idle hs => exact .inl ⟨rfl, rfl, fun u => part_modifyThread Thread.tasks m t u fun _ => rfl⟩
  | park p => exact .inl ⟨rfl, rfl, fun u => part_modifyThread Thread.tasks m t u fun _ => rfl⟩
  | waitFor d =>
    refine .inl ⟨rfl, rfl, fun u => ?_⟩
    have hd : ((m.done t).thread u).tasks = (m.thread u).tasks :=
      part_modifyThread Thread.tasks m t u fun _ => rfl
    exact (part_modifyThread Thread.tasks ((m.done t).modifyDrain d _) t u
      (f := fun x => { x with status := .waiting d }) fun _ => rfl).trans hd
  | join v =>
    refine .inl ⟨?_, ?_, part_join Thread.tasks (fun _ _ => rfl) m t v⟩ <;>
    · unfold Machine.join
      dsimp only
      split <;> rfl
  | endThread p => exact .inr ⟨p, rfl⟩

theorem External.tasks_or_end (h : External m m') :
    (m'.schedulers = m.schedulers ∧ m'.named = m.named ∧
      ∀ u, (m'.thread u).tasks = (m.thread u).tasks) ∨ ∃ t, m' = m.endThread t none := by
  have hwake := part_wake Thread.tasks fun _ _ => rfl
  cases h with
  | actor _ i =>
    refine .inl ⟨rfl, rfl, fun u => ?_⟩
    have hg : (m.spawn { name := .actor i, systemName := ThreadName.text (.actor i),
                         status := .idle }).2.thread u = if u = m.threads.size then
        { name := .actor i, systemName := ThreadName.text (.actor i), status := .idle }
        else m.thread u := Table.get_push ..
    rw [hg]
    split
    · rename_i hu
      rw [hu, thread_of_size_le (Nat.le_refl _)]
      rfl
    · rfl
  | @resume t _ h => exact .inl ⟨rfl, rfl, hwake m t⟩
  | @fault t _ h text =>
    exact .inl ⟨rfl, rfl, fun u => (hwake _ t u).trans
      (part_modifyThread Thread.tasks m t u fun _ => rfl)⟩
  | @instruct t _ h op =>
    exact .inl ⟨rfl, rfl, fun u => (hwake _ t u).trans
      (part_modifyThread Thread.tasks m t u fun _ => rfl)⟩
  | @exit t _ h => exact .inr ⟨t, rfl⟩

theorem Tasked.change (h : Tasked m) (hc : Change m m') : Tasked m' := by
  cases hc with
  | move ht hm => exact h.move hm
  | leave ht hl =>
    rcases hl.tasks_or_end with ⟨hs, -, ht⟩ | ⟨p, rfl⟩
    · exact h.same hs fun u => .inl (ht u)
    · exact h.endThread ..
  | pick hn hr => exact h.same rfl fun _ => .inl rfl
  | external he =>
    rcases he.tasks_or_end with ⟨hs, -, ht⟩ | ⟨t, rfl⟩
    · exact h.same hs fun u => .inl (ht u)
    · exact h.endThread ..

theorem Visited.tasked (h : Visited m) : Tasked m := by
  refine h.induction (fun workers host m hm => ?_) fun _ _ h hc => h.change hc
  obtain ⟨cs, hcs, rfl⟩ := new_eq hm
  refine ⟨fun s => ?_, fun t p hp => ?_⟩
  · show ((⟨cs⟩ : Table Scheduler).get s).tasks.WellFormed
    rw [(Scheduler.get_of_mapM_new hcs s).1]
    exact SlotArray.wellFormed_empty
  · rw [thread, Table.get_empty] at hp
    cases hp

theorem task?_of_tasks (h : (m'.thread u).tasks = (m.thread u).tasks) (s : Nat) :
    m'.task? u s = m.task? u s := congrArg (List.lookup s) h

theorem Move.task? (h : Move scope t m m') (hid : m.task? u s = some id) :
    m'.task? u s = some id := by
  have hsame {m' : Machine} (h : (m'.thread u).tasks = (m.thread u).tasks) :
      m'.task? u s = some id := (task?_of_tasks h s).trans hid
  cases h with
  | enroll c =>
    rcases enroll_cases m t c with ⟨-, he⟩ | ⟨-, he⟩ <;> rw [he]
    · exact hid
    · rw [Machine.task?, thread_modifyThread]
      split
      · show List.lookup s ((m.thread u).tasks ++ _) = _
        rw [List.lookup_append, show List.lookup s (m.thread u).tasks = some id from hid]
        rfl
      · exact hid
  | control c | push f hf | stack fs hs =>
    exact hsame (part_modifyThread Thread.tasks m t u fun _ => rfl)
  | notify d => exact hsame (part_notify Thread.tasks (fun _ _ => rfl) m d u)
  | openSection e k hs =>
    exact hsame ((Inside.openSection m t e k).part Thread.tasks (fun _ _ => rfl) u)
  | closeSection e k =>
    exact hsame ((Inside.closeSection m t e k).part Thread.tasks (fun _ _ => rfl) u)
  | startEngine slot c p hc =>
    exact hsame (part_startEngine Thread.tasks (fun _ _ _ => rfl) m slot c p u)
  | spawnTask name passes => exact hsame (part_spawnDrain Thread.tasks _ _ _ _ rfl u)
  | _ => exact hid

/-- A thread keeps its tasks until it ends. -/
theorem Change.task? (hc : Change m m') (h : m.task? u s = some id) :
    m'.task? u s = some id ∨ m'.Ended u := by
  have hend (t : Nat) (p : Option Payload) :
      (m.endThread t p).task? u s = some id ∨ (m.endThread t p).Ended u := by
    by_cases hu : u = t
    · rw [hu]
      exact .inr (ended_endThread ..)
    · have hl : Leave t m (m.endThread t p) := .endThread m p
      exact .inl ((task?_of_tasks (hl.part_ne Thread.tasks (fun _ _ => rfl) hu) s).trans h)
  cases hc with
  | move ht hm => exact .inl (hm.task? h)
  | leave ht hl =>
    rcases hl.tasks_or_end with ⟨-, -, ht⟩ | ⟨p, rfl⟩
    · exact .inl ((task?_of_tasks (ht u) s).trans h)
    · exact hend ..
  | pick hn hr => exact .inl h
  | external he =>
    rcases he.tasks_or_end with ⟨-, -, ht⟩ | ⟨t, rfl⟩
    · exact .inl ((task?_of_tasks (ht u) s).trans h)
    · exact hend ..

end Machine

end GracePeriod
