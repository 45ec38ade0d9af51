import GracePeriod.Proofs.Accounts
import GracePeriod.Proofs.Tasks

namespace GracePeriod

open History SlotArray

theorem taskOfWord_of_le {id : Nat} (h : id ≤ capacity) : taskOfWord id = some id := by
  refine if_neg fun hc => ?_
  simp only [capacity, UInt64.size] at h hc
  omega

namespace Machine

variable {scope : Scope} {m m' : Machine} {t u e s id w i : Nat} {k : Kind}

theorem Move.access (h : Move scope t m m') (he : e < m.engines.size) :
    (m'.engine e).access = (m.engine e).access := by
  have hmod (m : Machine) (e' : Nat) {f : Engine → Engine} (hf : ∀ x, (f x).access = x.access) :
      ((m.modifyEngine e' f).engine e).access = (m.engine e).access := by
    rw [engine_modifyEngine]
    split
    · exact hf _
    · rfl
  cases h with
  | handles e' n | register e' k w | advance e' k | enqueue e' k c | detach e' k hs =>
    exact hmod m e' fun _ => rfl
  | openSection e' k hs => exact (Inside.openSection m t e' k).access e
  | closeSection e' k => exact (Inside.closeSection m t e' k).access e
  | enroll c =>
    rw [enroll_eq]
    rfl
  | notify d =>
    rw [notify_eq]
    rfl
  | startEngine slot c p hc =>
    exact congrArg Engine.access ((Table.get_push ..).trans (if_neg (Nat.ne_of_lt he)))
  | _ => rfl

theorem Change.access (h : Change m m') (he : e < m.engines.size) :
    (m'.engine e).access = (m.engine e).access := by
  rcases h.move_or_aside with ⟨t, -, h⟩ | h
  · exact h.access he
  · exact congrArg (fun x : Table Engine => (x.get e).access) h.engines

theorem lt_engines_size (h : (m.domain e k).workers ≠ 0) : e < m.engines.size := by
  refine Nat.lt_of_not_le fun hle => h ?_
  rw [domain, engine, Table.get_of_size_le hle]
  cases k <;> rfl

theorem lt_size_of_place (h : m.place u e k ≠ none) : u < m.threads.size := by
  refine Nat.lt_of_not_le fun hle => h ?_
  rw [place, nests, thread_of_size_le hle]
  exact Nests.place_nil e k

/-- Slots in use name tasks, and the slot of a thread that lives names its own. -/
structure Tags (m : Machine) (e : Nat) (k : Kind) : Prop where
  named : ∀ w i, ((m.domain e k).records.get w).readers.isTaken i = true →
    ∃ id, id ≤ capacity ∧ (((m.domain e k).records.get w).readers.look i).value = taskOfWord id
  own : ∀ u w i, m.place u e k = some (w, i) → m.Ended u ∨
    ∃ id, m.task? u (m.engine e).access.scheduler = some id ∧
      (((m.domain e k).records.get w).readers.look i).value = taskOfWord id

namespace Tags

theorem carry (hc : Change m m') (ho : Orderly m) (he : e < m.engines.size)
    (hu : m.place u e k ≠ none) {v : Option Nat}
    (h : m.Ended u ∨ ∃ id, m.task? u (m.engine e).access.scheduler = some id ∧
      v = taskOfWord id) :
    m'.Ended u ∨ ∃ id, m'.task? u (m'.engine e).access.scheduler = some id ∧
      v = taskOfWord id := by
  rw [hc.access he]
  rcases h with hend | ⟨id, hid, hv⟩
  · exact .inl (hend.change ho (lt_size_of_place hu) hc)
  · rcases hc.task? hid with hid' | hend
    · exact .inr ⟨id, hid', hv⟩
    · exact .inl hend

theorem keep (h : Tags m e k) (hc : Change m m') (ho : Orderly m)
    (he : ∀ u, m.place u e k ≠ none → e < m.engines.size)
    (hp : ∀ u w i, m'.place u e k = some (w, i) → m.place u e k = some (w, i) ∧
      ((m'.domain e k).records.get w).readers.look i = ((m.domain e k).records.get w).readers.look i)
    (ht : ∀ w i, ((m'.domain e k).records.get w).readers.isTaken i = true →
      ((m'.domain e k).records.get w).readers.look i =
        ((m.domain e k).records.get w).readers.look i) : Tags m' e k := by
  refine ⟨fun w i hi => ?_, fun u w i hu => ?_⟩
  · have hl := ht w i hi
    rw [hl]
    rw [isTaken, hl] at hi
    exact h.named w i hi
  · obtain ⟨hu', hl⟩ := hp u w i hu
    have hne : m.place u e k ≠ none := by
      rw [hu']
      exact Option.some_ne_none _
    rw [hl]
    exact carry hc ho (he u hne) hne (h.own u w i hu')

theorem opening (h : Tags m e k) (ha : Accounts m e k) (ho : Orderly m) (htk : Tasked m)
    (hc : Change m m') (h' : Opening t e k w i m m') : Tags m' e k := by
  have he : e < m.engines.size := lt_engines_size (k := k) (Nat.ne_of_gt (Nat.zero_lt_of_lt h'.inside))
  obtain ⟨hfree, -⟩ := (ha.holds w).enter h'.entered
  obtain ⟨id, hid⟩ := Option.isSome_iff_exists.1 h'.enrolled
  have hle := htk.task?_le hid
  have htask : m.taskId t (m.engine e).access.scheduler = id := by rw [taskId, hid]; rfl
  have hlook' := ha.look_opening h'
  rw [htask] at hlook'
  refine ⟨fun v j hj => ?_, fun u v j hu => ?_⟩
  · rw [isTaken, hlook'] at hj
    rw [hlook']
    split
    · exact ⟨id, hle, rfl⟩
    · rename_i hne
      rw [if_neg hne] at hj
      exact h.named v j hj
  · rw [h'.place] at hu
    rw [hlook']
    split at hu
    · rename_i hut
      obtain ⟨rfl, rfl⟩ := Prod.mk.inj (Option.some.inj hu)
      rw [if_pos ⟨rfl, rfl⟩, hut, hc.access he]
      rcases hc.task? hid with hid' | hend
      · exact .inr ⟨id, hid', rfl⟩
      · exact .inl hend
    · have hx := (ha.mem_iff ⟨u, v, j⟩).2 hu
      have hne : ¬(v = w ∧ j = i) := by
        rintro ⟨rfl, rfl⟩
        exact hfree (mem_slotsOn.2 ⟨_, hx, rfl, rfl⟩)
      rw [if_neg hne]
      have hin : m.place u e k ≠ none := by
        rw [hu]
        exact Option.some_ne_none _
      exact carry hc ho he hin (h.own u v j hu)

theorem closing (h : Tags m e k) (ha : Accounts m e k) (ho : Orderly m) (hc : Change m m')
    (he : ∀ u, m.place u e k ≠ none → e < m.engines.size) (h' : Closing t e k w i m m') :
    Tags m' e k := by
  have hlook' := ha.look_closing h'
  refine h.keep hc ho he (fun u v j hu => ?_) fun v j hj => ?_
  · rw [h'.place] at hu
    split at hu
    · cases hu
    · rename_i hut
      refine ⟨hu, (hlook' v j).trans (if_neg ?_)⟩
      rintro ⟨rfl, rfl⟩
      exact hut (ha.eq_of_place hu h'.inside)
  · refine (hlook' v j).trans (if_neg fun hvj => ?_)
    rw [isTaken, hlook', if_pos hvj] at hj
    cases hj

theorem founding (ha : Accounts m e k) (hp : ∀ u, m'.place u e k = m.place u e k)
    (hw : (m.domain e k).workers = 0)
    (hd : ∀ w, ((m'.domain e k).records.get w).readers = {}) : Tags m' e k := by
  refine ⟨fun w i hi => ?_, fun u w i hu => ?_⟩
  · rw [hd, isTaken, look_empty] at hi
    cases hi
  · rw [hp] at hu
    have hx := (ha.mem_iff ⟨u, w, i⟩).2 hu
    rw [ha.sections_eq_nil hw] at hx
    cases hx

theorem change (h : Tags m e k) (ha : Accounts m e k) (ho : Orderly m) (hn : m.NestsUnique)
    (htk : Tasked m) (hc : Change m m') (hs : (m'.history e k).NoneStranded) : Tags m' e k := by
  have he (u : Nat) (hu : m.place u e k ≠ none) : e < m.engines.size := by
    obtain ⟨⟨w, i⟩, hp⟩ := Option.ne_none_iff_exists'.1 hu
    have := (ha.registered _ ((ha.mem_iff ⟨u, w, i⟩).2 hp)).1
    exact lt_engines_size (k := k) (by omega)
  obtain ⟨t, hsc⟩ := hc.sectionChange hn e k
  cases hsc with
  | still h' =>
    exact h.keep hc ho he (fun u w i hu => ⟨h'.place u ▸ hu, by rw [h'.domain]⟩)
      fun w i _ => by rw [h'.domain]
  | opening w i h' => exact h.opening ha ho htk hc h'
  | closing w i h' => exact h.closing ha ho hc he h'
  | stranding h' =>
    rw [h'.history] at hs
    obtain ⟨⟨x, hx, hxt⟩, -⟩ := hs
    exact absurd hxt (ha.place_eq_none h'.outside x hx)
  | registering w hp hd hh =>
    have hr (v : Nat) : ((m'.domain e k).records.get v).readers =
        ((m.domain e k).records.get v).readers := by
      obtain ⟨-, -, b, hb, -⟩ := (m.domain e k).register_get w v
      rw [hd, hb]
    exact h.keep hc ho he (fun u v i hu => ⟨hp u ▸ hu, by rw [hr]⟩) fun v i _ => by rw [hr]
  | advancing hp hd hh =>
    exact h.keep hc ho he (fun u v i hu => ⟨hp u ▸ hu, by rw [hd]; rfl⟩)
      fun v i _ => by rw [hd]; rfl
  | founding hs' hp hw hd hh => exact .founding ha hp hw fun w => (hd w).2

theorem names (h : Tags m e k) (htk : Tasked m) (hl : m.isLive t = true)
    (hp : m.place t e k = some (w, i)) :
    ∃ id, m.task? t (m.engine e).access.scheduler = some id ∧
      (((m.domain e k).records.get w).readers.look i).value = some id := by
  rcases h.own t w i hp with ⟨p, hend⟩ | ⟨id, hid, hv⟩
  · rw [isLive, hend] at hl
    cases hl
  · exact ⟨id, hid, hv.trans (taskOfWord_of_le (htk.task?_le hid))⟩

end Tags

theorem Visited.tags (h : Visited m) (hs : (m.history e k).NoneStranded) : Tags m e k := by
  have hind : m.NestsUnique ∧ Orderly m ∧ Tasked m ∧
      ((m.history e k).NoneStranded → Accounts m e k ∧ Tags m e k) := by
    refine h.induction (P := fun m => m.NestsUnique ∧ Orderly m ∧ Tasked m ∧
      ((m.history e k).NoneStranded → Accounts m e k ∧ Tags m e k))
      (fun workers host m hm => ?_) fun m m' ⟨hn, ho, ht, hi⟩ hc => ?_
    · have hr := (Reachable.new hm).visited
      have ha : Accounts m e k := .new hm
      obtain ⟨cs, -, rfl⟩ := new_eq hm
      refine ⟨hr.nestsUnique, hr.orderly, hr.tasked, fun _ => ⟨ha, ⟨fun w i hi => ?_, ?_⟩⟩⟩
      · have hnil := ((ha.holds w).taken i).1 hi
        cases hnil
      · intro u w i hu
        have hx := (ha.mem_iff ⟨u, w, i⟩).2 hu
        cases hx
    · obtain ⟨t, hsc⟩ := hc.sectionChange hn e k
      obtain ⟨vs, hh⟩ := hc.history e k
      refine ⟨hc.unique hn, ho.change hc, ht.change hc, fun hs => ?_⟩
      have hs' := hs
      rw [hh] at hs'
      obtain ⟨ha, htags⟩ := hi hs'.suffix
      exact ⟨ha.change hsc hs, htags.change ha ho hn ht hc hs⟩
  exact (hind.2.2.2 hs).2

/-- The threads that are inside on the record of a worker. -/
def insiders (m : Machine) (e : Nat) (k : Kind) (w : Nat) : List Nat :=
  m.threads.indices.filter fun t => (m.place t e k).map Prod.fst = some w

/-- Everything that is stored about the readers of a worker agrees. -/
structure ReaderBooks (m : Machine) (e : Nat) (k : Kind) (w : Nat) : Prop where
  occupied : ((m.domain e k).records.get w).word.active.toNat =
    ((m.domain e k).records.get w).readers.toList.length
  counted : ((m.domain e k).records.get w).word.active.toNat =
    ((m.domain e k).records.get w).readerCount
  /-- Sections of threads that live, and sections that threads have left behind. -/
  threads : ((m.domain e k).records.get w).word.active.toNat =
    ((m.insiders e k w).filter m.isLive).length +
      ((m.insiders e k w).filter fun t => !m.isLive t).length
  distinct : ∀ t u i, m.place t e k = some (w, i) → m.place u e k = some (w, i) → t = u
  named : ∀ t i, m.isLive t = true → m.place t e k = some (w, i) →
    ((m.domain e k).records.get w).readers.isTaken i = true ∧
      ∃ id, m.task? t (m.engine e).access.scheduler = some id ∧
        (((m.domain e k).records.get w).readers.look i).value = some id
  unnamed : ∀ i, ((m.domain e k).records.get w).readers.isTaken i = false →
    (((m.domain e k).records.get w).readers.look i).value = none
  registered : ((m.domain e k).records.get w).word.active ≠ 0 →
    w < (m.domain e k).workers ∧ ((m.domain e k).records.get w).registered = true

theorem insiders_perm (ha : Accounts m e k) (w : Nat) :
    (m.insiders e k w).Perm ((sectionsOn (m.history e k) w).map Section.thread) := by
  have hn : ((sectionsOn (m.history e k) w).map Section.thread).Nodup := by
    refine List.Nodup.map_on (fun x hx y hy hxy => ?_) (ha.nodup.filter _)
    have hpx := (ha.mem_iff x).1 (mem_sectionsOn.1 hx).1
    have hpy := (ha.mem_iff y).1 (mem_sectionsOn.1 hy).1
    rw [hxy, hpy] at hpx
    obtain ⟨hw, hi⟩ := Prod.mk.inj (Option.some.inj hpx)
    cases x
    cases y
    simp_all
  refine (List.perm_ext_iff_of_nodup (List.nodup_range.filter _) hn).2 fun u => ?_
  rw [List.mem_filter, List.mem_map, decide_eq_true_eq, Option.map_eq_some_iff]
  constructor
  · rintro ⟨-, ⟨v, i⟩, hp, rfl⟩
    exact ⟨⟨u, v, i⟩, mem_sectionsOn.2 ⟨(ha.mem_iff ⟨u, v, i⟩).2 hp, rfl⟩, rfl⟩
  · rintro ⟨x, hx, rfl⟩
    obtain ⟨hx, hw⟩ := mem_sectionsOn.1 hx
    have hp := (ha.mem_iff x).1 hx
    exact ⟨List.mem_range.2 (lt_size_of_place (by rw [hp]; nofun)), _, hp, hw⟩

/-- Every taken slot names a task, so the named readers are as many as the taken slots. -/
theorem readerCount_eq (ha : Accounts m e k) (ht : Tags m e k) (w : Nat) :
    ((m.domain e k).records.get w).readerCount =
      ((m.domain e k).records.get w).readers.toList.length := by
  have hall : ∀ p ∈ ((m.domain e k).records.get w).readers.toList, p.2.isSome = true := by
    rintro ⟨i, v⟩ hp
    obtain ⟨hi, hv⟩ := (mem_toList (ha.holds w).wellFormed).1 hp
    obtain ⟨id, hle, hid⟩ := ht.named w i hi
    rw [← hv, hid, taskOfWord_of_le hle]
    rfl
  rw [WorkerRecord.readerCount, WorkerRecord.tasks, List.length_filterMap_eq_countP,
    List.countP_eq_length]
  exact hall

/-- As long as no lock has panicked, everything that is stored about the readers of a record agrees,
whatever threads and schedulers do. -/
theorem reader_books (h : Reachable m) (hp : ∀ u, (u, Mark.lockPanicked) ∉ m.history e k)
    (w : Nat) : ReaderBooks m e k w := by
  have hs := noneStranded_of_not_mem hp
  have ha := h.visited.accounts hs
  have ht := h.visited.tags hs
  have hcount := ha.count_eq w
  have hlen := ((ha.holds w).perm_toList).length_eq
  rw [List.length_map, slotsOn, List.length_map, ← hcount] at hlen
  have hins := (insiders_perm ha w).length_eq
  rw [List.length_map, ← hcount] at hins
  constructor
  · exact hlen.symm
  · rw [readerCount_eq ha ht, hlen]
  · rw [← hins]
    exact List.length_eq_length_filter_add _
  · exact fun t u i => ha.eq_of_place
  · intro t i hl hpl
    have hx := (ha.mem_iff ⟨t, w, i⟩).2 hpl
    exact ⟨((ha.holds w).taken i).2 (mem_slotsOn.2 ⟨_, hx, rfl, rfl⟩),
      ht.names h.visited.tasked hl hpl⟩
  · exact (ha.holds w).free
  · intro hne
    have hnil := mt ((ha.holds w).active_eq_zero).2 hne
    obtain ⟨j, hj⟩ := List.exists_mem_of_ne_nil _ hnil
    obtain ⟨y, hy, rfl, -⟩ := mem_slotsOn.1 hj
    exact ha.registered y hy

/-- A thread has ended inside a section. -/
def abandoned : Machine :=
  ((sample.perform (.act 0 (.handle 0 (.readLock .regular)))).1.perform (.exit 0)).1

theorem abandoned_reader_books :
    Reachable abandoned ∧ abandoned.isLive 0 = false ∧
      ((abandoned.domain 0 .regular).records.get 0).word.active = 1 ∧
      ReaderBooks abandoned 0 .regular 0 := by
  have hr : Reachable abandoned :=
    (reachable_sample.perform _ (by decide +kernel)).perform _ (by decide +kernel)
  have hh : abandoned.history 0 .regular = [(0, .opened 0 0)] := rfl
  exact ⟨hr, by decide +kernel, by decide +kernel, reader_books hr (by rw [hh]; simp) 0⟩

end Machine

end GracePeriod
