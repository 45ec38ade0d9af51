import Mathlib.Data.List.Perm.Subperm
import GracePeriod.Domain
import GracePeriod.Proofs.Epoch
import GracePeriod.Proofs.SlotArray

namespace GracePeriod

theorem SlotArray.acquire_le {α : Type} [Inhabited α] {a : SlotArray α} (ha : a.WellFormed) :
    a.acquire.1 ≤ a.toList.length := by
  have hb := (acquire_fst ha).2
  have hsub : List.range a.acquire.1 ⊆ a.toList.map Prod.fst := by
    intro j hj
    exact List.mem_map.2 ⟨(j, (a.look j).value),
      (mem_toList ha).2 ⟨hb j (List.mem_range.1 hj), rfl⟩, rfl⟩
  simpa using (List.nodup_range.subperm hsub).length_le

namespace ReaderWord

theorem enter_ok {r w : ReaderWord} {now : UInt32} (h : r.enter now = .ok w) :
    w.active.toNat = r.active.toNat + 1 ∧ w.epoch = if r.active = 0 then now else r.epoch := by
  unfold enter at h
  split at h
  · rename_i ha
    obtain rfl := Except.ok.inj h
    simp [ha]
  · rename_i ha
    split at h
    · cases h
    · rename_i hm
      obtain rfl := Except.ok.inj h
      have hlt := r.active.toNat_lt
      have hne : r.active.toNat ≠ 2 ^ 32 - 1 := fun he => hm (UInt32.toNat_inj.1 he)
      refine ⟨?_, by simp [ha]⟩
      rw [active_pack, UInt32.toNat_add]
      simp only [UInt32.toNat_one]
      omega

theorem leave_ok {r : ReaderWord} (h : r.active ≠ 0) :
    ∃ w, r.leave = (w, .ok ()) ∧ w.active.toNat + 1 = r.active.toNat ∧ w.epoch = r.epoch := by
  refine ⟨pack r.epoch (r.active - 1), ?_, ?_, by simp⟩
  · rw [← leave_pack h, pack_epoch_active]
  · have hp : 0 < r.active.toNat :=
      Nat.pos_of_ne_zero fun h0 => h (UInt32.toNat_inj.1 h0)
    have h1 : (1 : UInt32) ≤ r.active := by rw [UInt32.le_iff_toNat_le]; exact hp
    rw [active_pack, UInt32.toNat_sub_of_le _ _ h1]
    simp only [UInt32.toNat_one]
    omega

/-- A word whose epoch lies less than half a turn before `target` blocks it. -/
theorem blocks_of_eq_add {r : ReaderWord} {target : UInt32} {n : Nat} (ha : r.active ≠ 0)
    (ht : target = r.epoch + UInt32.ofNat n) (hp : 0 < n) (hn : n < 2 ^ 31) :
    r.blocks target = true := by
  have hd : (target - r.epoch).toNat = n := by
    rw [ht, UInt32.add_comm, UInt32.add_sub_cancel, UInt32.toNat_ofNat_of_lt' (by simp [UInt32.size]; omega)]
  simp only [blocks, bne_iff_ne, Bool.and_eq_true]
  exact ⟨ha, (isBefore_iff ..).2 (by omega)⟩

end ReaderWord

namespace WorkerRecord

open SlotArray

theorem enter_ok {r : WorkerRecord} {now : UInt32} {task slot : Nat} (hw : r.readers.WellFormed)
    (hc : r.readers.acquire.1 < capacity) (h : (r.enter now task).2 = .ok slot) :
    r.readers.isTaken slot = false ∧ slot < capacity ∧
      r.word.enter now = .ok (r.enter now task).1.word ∧
      (r.enter now task).1.registered = r.registered ∧
      Replaced r.readers (r.enter now task).1.readers slot ⟨true, taskOfWord task⟩ := by
  obtain ⟨hr, hf, hl⟩ := acquire_spec hw hc
  have hs := replaced_setD hr.wellFormed hc hl (taskOfWord task)
  rw [hr.look_self] at hs
  simp only [enter, addReader, begin] at h ⊢
  cases hb : r.word.enter now with
  | error f => rw [hb] at h; cases h
  | ok w =>
    rw [hb] at h
    obtain rfl : r.readers.acquire.1 = slot := Except.ok.inj h
    exact ⟨hf, hc, rfl, rfl, hr.trans hs⟩

theorem enter_error {r : WorkerRecord} {now : UInt32} {task : Nat} {f : Fault}
    (hw : r.readers.WellFormed) (hc : r.readers.acquire.1 < capacity)
    (h : (r.enter now task).2 = .error f) :
    (r.enter now task).1.word = r.word ∧ (r.enter now task).1.registered = r.registered ∧
      ∀ j, r.readers.isTaken j = true →
        (r.enter now task).1.readers.look j = r.readers.look j := by
  obtain ⟨hr, hf, hl⟩ := acquire_spec hw hc
  have hs := hr.trans (replaced_setD hr.wellFormed hc hl (taskOfWord task))
  simp only [enter, addReader, begin] at h ⊢
  cases hb : r.word.enter now with
  | ok w => rw [hb] at h; cases h
  | error f =>
    refine ⟨rfl, rfl, fun j hj => (hs.look_eq j).trans (if_neg ?_)⟩
    rintro rfl
    rw [hf] at hj
    cases hj

theorem leave_ok {r : WorkerRecord} {slot : Nat} (hw : r.readers.WellFormed)
    (ha : r.word.active ≠ 0) (hc : slot < capacity) (ht : r.readers.isTaken slot = true) :
    (r.leave slot).2 = .ok () ∧ r.word.leave.1 = (r.leave slot).1.word ∧
      (r.leave slot).1.registered = r.registered ∧
      Replaced r.readers (r.leave slot).1.readers slot ⟨false, none⟩ := by
  obtain ⟨w, hl, -, -⟩ := ReaderWord.leave_ok ha
  obtain ⟨a, hset, hra⟩ := set_eq hw hc (isTaken_lt ht) none
  have hta : a.isTaken slot = true := by
    rw [isTaken, hra.look_self]
    exact ht
  obtain ⟨b, hrel, hrb⟩ := release_eq hra.wellFormed hc hta
  rw [hra.look_self] at hrb
  have he : r.leave slot = ({ r with word := w, readers := b }, .ok ()) := by
    simp only [leave, finish, hl, removeReader, hset, hrel]
  rw [he, hl]
  exact ⟨rfl, rfl, rfl, hra.trans hrb⟩

/-- The record has one reader for each of the given slots, and no other slot is taken or names a
task. -/
structure Holds (r : WorkerRecord) (slots : List Nat) : Prop where
  wellFormed : r.readers.WellFormed
  count : r.word.active.toNat = slots.length
  nodup : slots.Nodup
  taken : ∀ i, r.readers.isTaken i = true ↔ i ∈ slots
  free : ∀ i, r.readers.isTaken i = false → (r.readers.look i).value = none
  reachable : ∀ i ∈ slots, i < capacity

namespace Holds

variable {r : WorkerRecord} {slots : List Nat} {i : Nat}

theorem nil (ha : r.word.active = 0) (hr : r.readers = {}) : r.Holds [] where
  wellFormed := hr ▸ wellFormed_empty
  count := by rw [ha]; rfl
  nodup := List.nodup_nil
  taken i := by simp [hr, isTaken, default, instInhabitedCell.default]
  free i _ := by rw [hr, look_empty]; rfl
  reachable := by simp

theorem perm {slots' : List Nat} (h : r.Holds slots) (hp : slots.Perm slots') : r.Holds slots' where
  wellFormed := h.wellFormed
  count := h.count.trans hp.length_eq
  nodup := hp.nodup_iff.1 h.nodup
  taken i := (h.taken i).trans hp.mem_iff
  free := h.free
  reachable i hi := h.reachable i (hp.mem_iff.2 hi)

theorem registered (h : r.Holds slots) (b : Bool) : { r with registered := b }.Holds slots :=
  ⟨h.wellFormed, h.count, h.nodup, h.taken, h.free, h.reachable⟩

theorem active_eq_zero (h : r.Holds slots) : r.word.active = 0 ↔ slots = [] := by
  rw [← List.length_eq_zero_iff, ← h.count, ← UInt32.toNat_inj]
  rfl

theorem perm_toList (h : r.Holds slots) : (r.readers.toList.map Prod.fst).Perm slots := by
  refine (List.perm_ext_iff_of_nodup (nodup_toList h.wellFormed) h.nodup).2 fun i => ?_
  rw [← h.taken, List.mem_map]
  constructor
  · rintro ⟨⟨j, v⟩, hj, rfl⟩
    exact ((mem_toList h.wellFormed).1 hj).1
  · intro hi
    exact ⟨(i, (r.readers.look i).value), (mem_toList h.wellFormed).2 ⟨hi, rfl⟩, rfl⟩

theorem acquire_lt (h : r.Holds slots) : r.readers.acquire.1 < capacity := by
  have hle := acquire_le h.wellFormed
  have hlen := h.perm_toList.length_eq
  have hcount := h.count
  have hlt := r.word.active.toNat_lt
  rw [List.length_map] at hlen
  simp only [capacity]
  omega

theorem enter {now : UInt32} {task : Nat} (h : r.Holds slots)
    (he : (r.enter now task).2 = .ok i) :
    i ∉ slots ∧ (r.enter now task).1.Holds (i :: slots) ∧
      (r.enter now task).1.registered = r.registered ∧
      (r.enter now task).1.word.epoch = (if slots = [] then now else r.word.epoch) ∧
      ∀ j, (r.enter now task).1.readers.look j =
        if j = i then ⟨true, taskOfWord task⟩ else r.readers.look j := by
  obtain ⟨hf, hc, hw, hreg, hr⟩ := enter_ok h.wellFormed h.acquire_lt he
  obtain ⟨hcount, hepoch⟩ := ReaderWord.enter_ok hw
  have hi : i ∉ slots := fun hi => by simp [(h.taken i).2 hi] at hf
  refine ⟨hi, ⟨hr.wellFormed, ?_, List.nodup_cons.2 ⟨hi, h.nodup⟩, fun j => ?_, fun j hj => ?_, ?_⟩,
    hreg, ?_, hr.look_eq⟩
  · rw [hcount, h.count, List.length_cons]
  · rw [isTaken, hr.look_eq, List.mem_cons]
    split
    · rename_i hji
      simp [hji]
    · rename_i hji
      rw [← h.taken]
      simp [hji, isTaken]
  · rw [isTaken, hr.look_eq] at hj
    rw [hr.look_eq]
    split
    · rename_i hji
      simp [hji] at hj
    · rename_i hji
      rw [if_neg hji] at hj
      exact h.free j hj
  · intro j hj
    rcases List.mem_cons.1 hj with rfl | hj
    · exact hc
    · exact h.reachable j hj
  · rw [hepoch]
    simp only [h.active_eq_zero]

theorem leave (h : r.Holds slots) (hi : i ∈ slots) :
    (r.leave i).2 = .ok () ∧ (r.leave i).1.Holds (slots.erase i) ∧
      (r.leave i).1.registered = r.registered ∧ (r.leave i).1.word.epoch = r.word.epoch ∧
      ∀ j, (r.leave i).1.readers.look j = if j = i then ⟨false, none⟩ else r.readers.look j := by
  have ha : r.word.active ≠ 0 := fun h0 => List.ne_nil_of_mem hi (h.active_eq_zero.1 h0)
  obtain ⟨hok, hword, hreg, hr⟩ := leave_ok h.wellFormed ha (h.reachable i hi) ((h.taken i).2 hi)
  obtain ⟨w, hl, hcount, hepoch⟩ := ReaderWord.leave_ok ha
  rw [hl] at hword
  refine ⟨hok, ⟨hr.wellFormed, ?_, h.nodup.erase i, fun j => ?_, fun j hj => ?_, ?_⟩, hreg, ?_,
    hr.look_eq⟩
  · rw [← hword, List.length_erase_of_mem hi, ← h.count]
    exact Nat.eq_sub_of_add_eq hcount
  · rw [isTaken, hr.look_eq, h.nodup.mem_erase_iff]
    split
    · rename_i hji
      simp [hji]
    · rename_i hji
      rw [← h.taken]
      simp [hji, isTaken]
  · rw [isTaken, hr.look_eq] at hj
    rw [hr.look_eq]
    split
    · rfl
    · rename_i hji
      rw [if_neg hji] at hj
      exact h.free j hj
  · intro j hj
    exact h.reachable j (List.mem_of_mem_erase hj)
  · rw [← hword]
    exact hepoch

end Holds

/-- Some slot, be it taken or not, names task `id`. -/
def Names (r : WorkerRecord) (id : Nat) : Prop := ∃ i, (r.readers.look i).value = some id

theorem names_of_mem_tasks {r : WorkerRecord} {id : Nat} (hw : r.readers.WellFormed)
    (h : id ∈ r.tasks) : r.Names id := by
  obtain ⟨⟨i, v⟩, hp, rfl⟩ := List.mem_filterMap.1 h
  exact ⟨i, ((mem_toList hw).1 hp).2⟩

theorem readers_enter (r : WorkerRecord) (now : UInt32) (task : Nat) :
    (r.enter now task).1.readers =
      r.readers.acquire.2.setD r.readers.acquire.1 (taskOfWord task) := by
  simp only [enter, addReader, begin]
  split <;> rfl

theorem wellFormed_enter {r : WorkerRecord} (hw : r.readers.WellFormed) (now : UInt32) (task : Nat) :
    (r.enter now task).1.readers.WellFormed := by
  rw [readers_enter]
  exact wellFormed_setD (wellFormed_acquire hw) _ _

theorem names_enter {r : WorkerRecord} {now : UInt32} {task id : Nat} (hw : r.readers.WellFormed)
    (h : (r.enter now task).1.Names id) : r.Names id ∨ taskOfWord task = some id := by
  obtain ⟨i, hi⟩ := h
  rw [readers_enter] at hi
  rcases look_setD (wellFormed_acquire hw) r.readers.acquire.1 (taskOfWord task) i with hl | hl <;>
    rw [hl] at hi
  · rw [value_look_acquire hw] at hi
    exact .inl ⟨i, hi⟩
  · exact .inr hi

theorem removeReader_spec {r : WorkerRecord} (hw : r.readers.WellFormed) (slot : Nat) :
    (r.removeReader slot).1.readers.WellFormed ∧
      ∀ id, (r.removeReader slot).1.Names id → r.Names id := by
  by_cases h : slot < capacity ∧ slot < r.readers.cells.length
  · obtain ⟨a, hset, ha⟩ := set_eq hw h.1 h.2 none
    have hnames (c : Cell (Option Nat)) (hc : c.value = none) {b : SlotArray (Option Nat)}
        (hb : Replaced r.readers b slot c) (id : Nat) :
        { r with readers := b }.Names id → r.Names id := by
      rintro ⟨i, hi⟩
      rw [hb.look_eq] at hi
      split at hi
      · rw [hc] at hi
        cases hi
      · exact ⟨i, hi⟩
    unfold removeReader
    rw [hset]
    dsimp only
    by_cases ht : a.isTaken slot = true
    · obtain ⟨b, hrel, hb⟩ := release_eq ha.wellFormed h.1 ht
      rw [hrel]
      refine ⟨hb.wellFormed, hnames _ ?_ (ha.trans hb)⟩
      exact congrArg Cell.value ha.look_self
    · have hrel : a.release slot = .error (.slotFree slot) := by
        have hl : slot < a.cells.length := Nat.lt_of_lt_of_le h.2 ha.length_le
        rw [isTaken] at ht
        simp only [release, cell_eq_look ha.wellFormed h.1 hl]
        exact if_neg ht
      rw [hrel]
      exact ⟨ha.wellFormed, hnames _ rfl ha⟩
  · obtain ⟨f, hf⟩ := cell_error hw (i := slot) (by omega)
    have hset : r.readers.set slot none = .error f := by
      rw [SlotArray.set, hf]
      rfl
    unfold removeReader
    rw [hset]
    exact ⟨hw, fun _ => id⟩

theorem leave_spec {r : WorkerRecord} (hw : r.readers.WellFormed) (slot : Nat) :
    (r.leave slot).1.readers.WellFormed ∧ ∀ id, (r.leave slot).1.Names id → r.Names id := by
  simp only [leave, finish]
  split
  · exact ⟨hw, fun _ => id⟩
  · exact removeReader_spec (r := { r with word := r.word.leave.1 }) hw slot

end WorkerRecord

namespace Domain

theorem record_eq (d : Domain) {w : Nat} (h : w < d.workers) : d.record w = .ok (d.records.get w) :=
  if_pos h

theorem registeredRecord_eq_ok {d : Domain} {k : Kind} {w : Nat} {r : WorkerRecord} :
    d.registeredRecord k w = .ok r ↔
      w < d.workers ∧ r.registered = true ∧ d.records.get w = r := by
  unfold registeredRecord record
  by_cases hw : w < d.workers
  · rw [if_pos hw]
    dsimp only
    split
    · rename_i hr
      simp only [Except.ok.injEq, hw, true_and]
      exact ⟨fun h => ⟨h ▸ hr, h⟩, fun h => h.2⟩
    · rename_i hr
      simp only [reduceCtorEq, hw, true_and, false_iff, not_and]
      rintro h rfl
      exact hr h
  · simp [hw]

theorem epoch_onRecord {α : Type} (d : Domain) (w : Nat)
    (f : WorkerRecord → WorkerRecord × Except Fault α) : (d.onRecord w f).1.epoch = d.epoch := by
  unfold onRecord
  split <;> rfl

theorem workers_onRecord {α : Type} (d : Domain) (w : Nat)
    (f : WorkerRecord → WorkerRecord × Except Fault α) :
    (d.onRecord w f).1.workers = d.workers := by
  unfold onRecord
  split <;> rfl

theorem onRecord_eq {α : Type} (d : Domain) {w : Nat} (h : w < d.workers)
    (f : WorkerRecord → WorkerRecord × Except Fault α) :
    d.onRecord w f = (d.setRecord w (f (d.records.get w)).1, (f (d.records.get w)).2) := by
  simp [onRecord, record_eq d h]

@[simp] theorem epoch_setRecord (d : Domain) (w : Nat) (r : WorkerRecord) :
    (d.setRecord w r).epoch = d.epoch := rfl

@[simp] theorem workers_setRecord (d : Domain) (w : Nat) (r : WorkerRecord) :
    (d.setRecord w r).workers = d.workers := rfl

theorem get_setRecord (d : Domain) (w v : Nat) (r : WorkerRecord) :
    (d.setRecord w r).records.get v = if v = w then r else d.records.get v :=
  Table.get_set ..

theorem not_blocks_of_firstBlocker? {d : Domain} {target : UInt32} (h : d.firstBlocker? target = none)
    {w : Nat} (hw : w < d.workers) (hr : (d.records.get w).registered = true) :
    (d.records.get w).word.blocks target = false := by
  have := List.find?_eq_none.1 h w (List.mem_range.2 hw)
  simpa [isBlocker, hr] using this

end Domain

end GracePeriod
