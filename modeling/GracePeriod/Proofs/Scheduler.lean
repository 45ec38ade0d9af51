import GracePeriod.Scheduler
import GracePeriod.Proofs.SlotArray

namespace GracePeriod.Scheduler

open SlotArray

/-- Every task is on a worker that exists; so there is a worker. -/
def InRange (c : Scheduler) : Prop := ∀ i, (c.tasks.look i).value.worker < c.workers

/-- The scheduler has gone on from `c` to `c'`. -/
structure Steady (c c' : Scheduler) : Prop where
  workers : c'.workers = c.workers
  length_le : c.tasks.cells.length ≤ c'.tasks.cells.length
  inRange : c.InRange → c'.InRange

variable {c c' c'' : Scheduler} {x : Task} {id : Nat}

namespace Steady

theorem refl (c : Scheduler) : Steady c c := ⟨rfl, Nat.le_refl _, id⟩

theorem trans (h : Steady c c') (h' : Steady c' c'') : Steady c c'' :=
  ⟨h'.workers.trans h.workers, h.length_le.trans h'.length_le, fun hr => h'.inRange (h.inRange hr)⟩

theorem of_tasks (hw : c'.workers = c.workers) (ht : c'.tasks = c.tasks) : Steady c c' := by
  refine ⟨hw, by rw [ht], fun h i => ?_⟩
  rw [hw, ht]
  exact h i

end Steady

theorem lt_of_checkWorker {w : Nat} {u : Unit} (h : c.checkWorker w = .ok u) : w < c.workers := by
  unfold checkWorker at h
  split at h
  · assumption
  · cases h

theorem InRange.pos (h : c.InRange) : 0 < c.workers := Nat.lt_of_le_of_lt (Nat.zero_le _) (h 0)

def Has (c : Scheduler) (id : Nat) : Prop := id < capacity ∧ id < c.tasks.cells.length

theorem Has.mono (h : c.Has id) (hl : c.tasks.cells.length ≤ c'.tasks.cells.length) : c'.Has id :=
  ⟨h.1, Nat.lt_of_lt_of_le h.2 hl⟩

theorem has_of_isTaken (hw : c.tasks.WellFormed) (h : c.tasks.isTaken id = true) : c.Has id :=
  ⟨Nat.lt_of_lt_of_le (isTaken_lt h) (length_cells_le hw), isTaken_lt h⟩

theorem not_has_of_empty (ht : c.tasks = {}) : ¬c.Has id := by
  rintro ⟨-, h⟩
  rw [ht] at h
  cases h

theorem inRange_of_empty (ht : c.tasks = {}) (hw : 0 < c.workers) : c.InRange := by
  intro i
  rw [ht, look_empty]
  exact hw

theorem InRange.task (h : c.InRange) (hw : c.tasks.WellFormed) (id : Nat) :
    (c.task id).worker < c.workers := by
  unfold Scheduler.task
  rcases getD_eq hw id with hg | hg <;> rw [hg]
  · exact h id
  · exact h.pos

theorem steady_setTask (hw : c.tasks.WellFormed) (id : Nat)
    (hx : c.InRange → x.worker < c.workers) : Steady c (c.setTask id x) := by
  refine ⟨rfl, length_setD hw id x, fun h i => ?_⟩
  show ((c.tasks.setD id x).look i).value.worker < c.workers
  rcases look_setD hw id x i with hl | hl <;> rw [hl]
  · exact h i
  · exact hx h

theorem steady_place (hw : c.tasks.WellFormed) : Steady c c.place.2 := by
  have ha := wellFormed_acquire hw
  refine ⟨rfl, (length_acquire hw).trans (length_setD ha _ _), fun h i => ?_⟩
  show ((c.tasks.acquire.2.setD c.tasks.acquire.1 _).look i).value.worker < c.workers
  rcases look_setD ha c.tasks.acquire.1 { worker := c.placed % c.workers } i with hl | hl <;>
    rw [hl]
  · rw [value_look_acquire hw]
    exact h i
  · exact Nat.mod_lt _ h.pos

theorem release_cases (hw : c.tasks.WellFormed) (id : Nat) :
    (c.tasks.isTaken id = false ∧ c.release id = c) ∨
      (c.release id).workers = c.workers ∧ Replaced c.tasks (c.release id).tasks id
        { c.tasks.look id with occupied := false } := by
  by_cases ht : c.tasks.isTaken id = true
  · obtain ⟨tasks, hr, hrep⟩ := release_eq hw (has_of_isTaken hw ht).1 ht
    refine .inr ?_
    unfold release
    rw [hr]
    exact ⟨rfl, hrep⟩
  · refine .inl ⟨Bool.eq_false_iff.2 ht, ?_⟩
    unfold release SlotArray.release
    by_cases h : c.Has id
    · rw [cell_eq_look hw h.1 h.2]
      dsimp only
      rw [if_neg (show ¬(c.tasks.look id).occupied = true from ht)]
    · obtain ⟨f, hf⟩ := cell_error hw (i := id) (by unfold Has at h; omega)
      rw [hf]

theorem wellFormed_release (hw : c.tasks.WellFormed) (id : Nat) :
    (c.release id).tasks.WellFormed := by
  rcases release_cases hw id with ⟨-, h⟩ | ⟨-, h⟩
  · rwa [h]
  · exact h.wellFormed

theorem isTaken_release (hw : c.tasks.WellFormed) {i : Nat}
    (h : (c.release id).tasks.isTaken i = true) : c.tasks.isTaken i = true ∧ i ≠ id := by
  rcases release_cases hw id with ⟨hf, hr⟩ | ⟨-, hr⟩
  · rw [hr] at h
    refine ⟨h, ?_⟩
    rintro rfl
    exact Bool.false_ne_true (hf.symm.trans h)
  · rw [isTaken, hr.look_eq] at h
    split at h
    · cases h
    · rename_i hi
      exact ⟨h, hi⟩

theorem steady_release (hw : c.tasks.WellFormed) (id : Nat) : Steady c (c.release id) := by
  rcases release_cases hw id with ⟨-, h⟩ | ⟨hn, h⟩
  · rw [h]
    exact .refl c
  · refine ⟨hn, h.length_le, fun hr i => ?_⟩
    rw [h.look_eq, hn]
    split
    · exact hr id
    · exact hr i

/-- As long as there is room, a new task gets a slot of its own. -/
theorem place_spec (hw : c.tasks.WellFormed) (hc : c.tasks.acquire.1 < capacity) :
    c.place.2.Has c.place.1 ∧ ∀ i, c.place.2.tasks.isTaken i = true →
      i = c.place.1 ∨ c.tasks.isTaken i = true := by
  obtain ⟨hr, -, hl⟩ := acquire_spec hw hc
  refine ⟨⟨hc, Nat.lt_of_lt_of_le hl (length_setD hr.wellFormed _ _)⟩, fun i hi => ?_⟩
  have ht : c.tasks.acquire.2.isTaken i = true := (isTaken_setD hr.wellFormed ..).symm.trans hi
  rw [isTaken, hr.look_eq] at ht
  split at ht
  · rename_i h
    exact .inl h
  · exact .inr ht

theorem task_eq_look (hw : c.tasks.WellFormed) (h : id < capacity) :
    c.task id = (c.tasks.look id).value := by
  unfold Scheduler.task
  by_cases hl : id < c.tasks.cells.length
  · rw [getD, get_eq hw h hl]
  · obtain ⟨f, hf⟩ := cell_error hw (i := id) (.inr (Nat.le_of_not_lt hl))
    rw [look, List.getD_eq_default _ _ (Nat.le_of_not_lt hl)]
    simp [getD, SlotArray.get, hf, Except.map]
    rfl

theorem task_of_le (hw : c.tasks.WellFormed) (h : capacity ≤ id) : c.task id = default := by
  obtain ⟨f, hf⟩ := cell_error hw (i := id) (.inl h)
  simp [Scheduler.task, getD, SlotArray.get, hf, Except.map]

theorem isInhibited_eq (hw : c.tasks.WellFormed) (h : c.Has id) :
    c.isInhibited id = .ok (c.task id).inhibited := by
  rw [isInhibited, get_eq hw h.1 h.2, task_eq_look hw h.1]
  rfl

theorem task_eq_of_look {i : Nat} (hw : c.tasks.WellFormed) (hw' : c'.tasks.WellFormed)
    (h : (c'.tasks.look i).value = (c.tasks.look i).value) : c'.task i = c.task i := by
  by_cases hi : i < capacity
  · rw [task_eq_look hw hi, task_eq_look hw' hi, h]
  · rw [task_of_le hw (Nat.le_of_not_lt hi), task_of_le hw' (Nat.le_of_not_lt hi)]

theorem task_setTask_ne (hw : c.tasks.WellFormed) {i : Nat} (h : i ≠ id) (x : Task) :
    (c.setTask id x).task i = c.task i := by
  refine task_eq_of_look hw (wellFormed_setD hw id x) ?_
  show ((c.tasks.setD id x).look i).value = _
  by_cases hid : c.Has id
  · rw [(replaced_setD hw hid.1 hid.2 x).look_eq, if_neg h]
  · rw [setD_eq_self hw (by unfold Has at hid; omega)]

theorem task_setTask_self (hw : c.tasks.WellFormed) (h : c.Has id) (x : Task) :
    (c.setTask id x).task id = x := by
  rw [task_eq_look (wellFormed_setD hw id x) h.1]
  show ((c.tasks.setD id x).look id).value = x
  rw [(replaced_setD hw h.1 h.2 x).look_self]

theorem task_release (hw : c.tasks.WellFormed) (id i : Nat) : (c.release id).task i = c.task i := by
  rcases release_cases hw id with ⟨-, h⟩ | ⟨-, h⟩
  · rw [h]
  · refine task_eq_of_look hw h.wellFormed ?_
    rw [h.look_eq]
    split
    · rename_i hi
      rw [hi]
    · rfl

theorem task_place_ne (hw : c.tasks.WellFormed) {i : Nat} (h : i ≠ c.place.1) :
    c.place.2.task i = c.task i := by
  have ha := wellFormed_acquire hw
  have hacq : ({ c with tasks := c.tasks.acquire.2 } : Scheduler).task i = c.task i :=
    task_eq_of_look hw ha (value_look_acquire hw i)
  have hset := task_setTask_ne (c := { c with tasks := c.tasks.acquire.2 }) ha h
    { worker := c.placed % c.workers }
  exact hset.trans hacq

theorem task_place_self (hw : c.tasks.WellFormed) (hc : c.tasks.acquire.1 < capacity) :
    c.place.2.task c.place.1 = { worker := c.placed % c.workers } := by
  obtain ⟨hr, -, hl⟩ := acquire_spec hw hc
  exact task_setTask_self (c := { c with tasks := c.tasks.acquire.2 }) hr.wellFormed ⟨hc, hl⟩ _

/-- Of the task of this number, at most the pause has changed. -/
def Spares (c c' : Scheduler) (i : Nat) : Prop := ∃ b, c'.task i = { c.task i with paused := b }

theorem spares_of_eq {i : Nat} (h : c'.task i = c.task i) : Spares c c' i := ⟨_, h⟩

theorem Spares.trans {i : Nat} (h : Spares c c' i) (h' : Spares c' c'' i) : Spares c c'' i := by
  obtain ⟨b, hb⟩ := h
  obtain ⟨b', hb'⟩ := h'
  exact ⟨b', by rw [hb', hb]⟩

theorem spares_setPaused (hw : c.tasks.WellFormed) (id : Nat) (b : Bool) (i : Nat) :
    Spares c (c.setTask id { c.task id with paused := b }) i := by
  by_cases hi : i = id
  · subst hi
    by_cases hid : c.Has i
    · exact ⟨b, task_setTask_self hw hid _⟩
    · refine spares_of_eq (congrArg (SlotArray.getD · i) (setD_eq_self hw ?_ _))
      unfold Has at hid
      omega
  · exact spares_of_eq (task_setTask_ne hw hi _)

end GracePeriod.Scheduler
