import Mathlib.Data.Finset.Sort
import Mathlib.Data.Nat.Find
import Mathlib.Data.Set.Finite.Basic
import GracePeriod.Trial.Slots
import GracePeriod.Proofs.SlotArray

namespace GracePeriod

/-- What may be asked of a collection of slots. -/
inductive SlotRequest (α : Type)
  | acquire
  | release (i : Nat)
  | get (i : Nat)
  | set (i : Nat) (v : α)
  | list

inductive SlotReply (α : Type)
  | slot (i : Nat)
  | done
  | value (v : α)
  | values (vs : List (Nat × α))
  | fault (f : Fault)

def serveAll {σ α : Type} (serve : σ → SlotRequest α → σ × SlotReply α) (s : σ) :
    List (SlotRequest α) → σ × List (SlotReply α)
  | [] => (s, [])
  | r :: rs =>
    let p := serve s r
    let q := serveAll serve p.1 rs
    (q.1, p.2 :: q.2)

variable {α : Type} [Inhabited α]

def SlotArray.serve (a : SlotArray α) : SlotRequest α → SlotArray α × SlotReply α
  | .acquire => (a.acquire.2, .slot a.acquire.1)
  | .release i =>
    match a.release i with
    | .ok a => (a, .done)
    | .error f => (a, .fault f)
  | .get i =>
    match a.get i with
    | .ok v => (a, .value v)
    | .error f => (a, .fault f)
  | .set i v =>
    match a.set i v with
    | .ok a => (a, .done)
    | .error f => (a, .fault f)
  | .list => (a, .values a.toList)

/-- `buckets` allocated buckets reach the slots below `2 ^ buckets - 1`. -/
structure FlatTable (α : Type) [Inhabited α] where
  taken : Finset Nat := ∅
  value : Nat → α := fun _ => default
  buckets : Nat := 0

namespace FlatTable

/-- What becomes of a slot that no bucket holds. -/
def missing (i : Nat) : Fault :=
  if 2 ^ 64 ≤ i + 1 then .slotOverflow
  else if 2 ^ 63 ≤ i + 1 then .slotBeyondBuckets
  else .slotUnallocated i

theorem exists_free (t : FlatTable α) : ∃ i, i ∉ t.taken := Infinite.exists_notMem_finset t.taken

def free (t : FlatTable α) : Nat := Nat.find t.exists_free

omit [Inhabited α] in
theorem exists_enough (b i : Nat) : ∃ n, b ≤ n ∧ i < 2 ^ n - 1 := by
  refine ⟨b + (i + 1), Nat.le_add_right .., ?_⟩
  have h : b + (i + 1) < 2 ^ (b + (i + 1)) := Nat.lt_two_pow_self
  omega

/-- So many buckets hold slot `i`, and not one too many. -/
def enough (t : FlatTable α) (i : Nat) : Nat := Nat.find (exists_enough t.buckets i)

def Reaches (t : FlatTable α) (i : Nat) : Prop := i < 2 ^ t.buckets - 1

instance (t : FlatTable α) (i : Nat) : Decidable (t.Reaches i) :=
  inferInstanceAs (Decidable (_ < _))

def serve (t : FlatTable α) : SlotRequest α → FlatTable α × SlotReply α
  | .acquire =>
    ({ t with taken := insert t.free t.taken, buckets := t.enough t.free }, .slot t.free)
  | .release i =>
    if t.Reaches i then
      if i ∈ t.taken then ({ t with taken := t.taken.erase i }, .done)
      else (t, .fault (.slotFree i))
    else (t, .fault (missing i))
  | .get i => if t.Reaches i then (t, .value (t.value i)) else (t, .fault (missing i))
  | .set i v =>
    if t.Reaches i then ({ t with value := Function.update t.value i v }, .done)
    else (t, .fault (missing i))
  | .list => (t, .values ((t.taken.sort (· ≤ ·)).map fun i => (i, t.value i)))

/-- Not all slots that can be reached are taken whenever one is acquired. -/
def Roomy (t : FlatTable α) : List (SlotRequest α) → Prop
  | [] => True
  | r :: rs =>
    (match r with
      | .acquire => t.taken.card < SlotArray.capacity
      | _ => True) ∧ (t.serve r).1.Roomy rs

theorem roomy_of_length {t : FlatTable α} {rs : List (SlotRequest α)}
    (h : t.taken.card + rs.length ≤ SlotArray.capacity) : t.Roomy rs := by
  induction rs generalizing t with
  | nil => trivial
  | cons r rs ih =>
    rw [List.length_cons] at h
    have hr : (t.serve r).1.taken.card ≤ t.taken.card + 1 := by
      cases r with
      | acquire => exact Finset.card_insert_le ..
      | release i =>
        simp only [serve]
        split
        · split
          · exact (Finset.card_erase_le).trans (Nat.le_succ _)
          · exact Nat.le_succ _
        · exact Nat.le_succ _
      | get i | set i v =>
        simp only [serve]
        split <;> exact Nat.le_succ _
      | list => exact Nat.le_succ _
    refine ⟨?_, ih (by omega)⟩
    split
    · omega
    · trivial

end FlatTable

namespace SlotArray

variable {a : SlotArray α} {t : FlatTable α} {i : Nat}

/-- The array holds what the table says. -/
structure Shows (a : SlotArray α) (t : FlatTable α) : Prop where
  wellFormed : a.WellFormed
  buckets : a.buckets.length = t.buckets
  taken : ∀ i, a.isTaken i = true ↔ i ∈ t.taken
  value : ∀ i, (a.look i).value = t.value i

omit [Inhabited α] in
theorem length_cells (ha : a.WellFormed) : a.cells.length = 2 ^ a.buckets.length - 1 := by
  rw [cells, length_flatten ha.doubling, Nat.pow_zero, Nat.one_mul]

omit [Inhabited α] in
theorem buckets_setCell (a : SlotArray α) (i : Nat) (c : Cell α) :
    (a.setCell i c).buckets.length = a.buckets.length := by
  unfold setCell
  split
  · rfl
  · exact List.length_modify ..

omit [Inhabited α] in
theorem cell_missing (ha : a.WellFormed) (h : a.cells.length ≤ i) :
    a.cell i = .error (FlatTable.missing i) := by
  by_cases hi : i < capacity
  · have hi' : i + 1 < 2 ^ 63 := by simp only [capacity] at hi; omega
    have hm : FlatTable.missing i = .slotUnallocated i := by
      rw [FlatTable.missing, if_neg (by omega), if_neg (by omega)]
    rw [cell_eq ha hi, List.getElem?_eq_none h, hm]
  · have hi' : 2 ^ 63 ≤ i + 1 := by simp only [capacity] at hi; omega
    have hb : bucketLimit ≤ (i + 1).log2 := (Nat.le_log2 (by omega)).2 hi'
    have hl : locate i = .error (FlatTable.missing i) := by
      unfold locate FlatTable.missing
      rw [if_pos hb, if_pos hi']
      exact (apply_ite Except.error ..).symm
    rw [cell, hl]

namespace Shows

theorem empty : ({} : SlotArray α).Shows {} where
  wellFormed := wellFormed_empty
  buckets := rfl
  taken i := by simp [isTaken, default, instInhabitedCell.default]
  value i := by rw [look_empty]; rfl

theorem lt_length_iff (h : a.Shows t) : i < a.cells.length ↔ t.Reaches i := by
  rw [length_cells h.wellFormed, h.buckets]
  rfl

theorem lt_capacity (h : a.Shows t) (hi : t.Reaches i) : i < capacity :=
  Nat.lt_of_lt_of_le (h.lt_length_iff.2 hi) (length_cells_le h.wellFormed)

theorem cell_eq (h : a.Shows t) (hi : t.Reaches i) : a.cell i = .ok (a.look i) :=
  cell_eq_look h.wellFormed (h.lt_capacity hi) (h.lt_length_iff.2 hi)

theorem cell_missing (h : a.Shows t) (hi : ¬t.Reaches i) :
    a.cell i = .error (FlatTable.missing i) :=
  SlotArray.cell_missing h.wellFormed (Nat.le_of_not_lt (mt h.lt_length_iff.1 hi))

theorem setCell (h : a.Shows t) (hi : t.Reaches i) {c : Cell α} {t' : FlatTable α}
    (hb : t'.buckets = t.buckets)
    (ht : ∀ j, j ∈ t'.taken ↔ if j = i then c.occupied = true else j ∈ t.taken)
    (hv : ∀ j, t'.value j = if j = i then c.value else t.value j) : (a.setCell i c).Shows t' where
  wellFormed := wellFormed_setCell h.wellFormed i c
  buckets := (buckets_setCell a i c).trans (h.buckets.trans hb.symm)
  taken j := by
    rw [isTaken, look_setCell h.wellFormed (h.lt_capacity hi) (h.lt_length_iff.2 hi), ht]
    split
    · rfl
    · exact h.taken j
  value j := by
    rw [look_setCell h.wellFormed (h.lt_capacity hi) (h.lt_length_iff.2 hi), hv]
    split
    · rfl
    · exact h.value j

theorem acquire_eq (h : a.Shows t) : a.acquire.1 = t.free := by
  obtain ⟨hf, hb⟩ := acquire_fst h.wellFormed
  refine ((Nat.find_eq_iff _).2 ⟨?_, fun j hj => not_not.2 ((h.taken j).1 (hb j hj))⟩).symm
  rw [← h.taken, hf]
  exact Bool.false_ne_true

theorem acquire_lt (h : a.Shows t) (hc : t.taken.card < capacity) : a.acquire.1 < capacity := by
  refine Nat.lt_of_le_of_lt ?_ hc
  have hsub : Finset.range a.acquire.1 ⊆ t.taken := fun j hj =>
    (h.taken j).1 ((acquire_fst h.wellFormed).2 j (Finset.mem_range.1 hj))
  simpa using Finset.card_le_card hsub

theorem buckets_acquire (h : a.Shows t) (hc : a.acquire.1 < capacity) :
    a.acquire.2.buckets.length = t.enough a.acquire.1 := by
  have hw := wellFormed_acquire h.wellFormed
  have hlt := (acquire_spec h.wellFormed hc).2.2
  have hlen := length_acquireFrom 0 0 a.buckets
  rw [← SlotArray.buckets_acquire h.wellFormed hc] at hlen
  rw [length_cells hw] at hlt
  have hle : t.buckets ≤ a.acquire.2.buckets.length := by
    rw [← h.buckets]
    rcases hlen with hlen | ⟨hlen, -⟩ <;> omega
  refine ((Nat.find_eq_iff _).2 ⟨⟨hle, hlt⟩, ?_⟩).symm
  rintro n hn ⟨hle, hroom⟩
  rw [← h.buckets] at hle
  rcases hlen with hlen | ⟨hlen, hfirst⟩
  · omega
  · have hn' : n = a.buckets.length := by omega
    have hfirst : a.acquire.1 = 0 + a.cells.length := hfirst
    rw [length_cells h.wellFormed, ← hn'] at hfirst
    omega

theorem toList_eq (h : a.Shows t) :
    a.toList = (t.taken.sort (· ≤ ·)).map fun i => (i, t.value i) := by
  have hfst : a.toList.map Prod.fst = t.taken.sort (· ≤ ·) := by
    have hsorted := sorted_toList h.wellFormed
    have hmem : (a.toList.map Prod.fst).toFinset = t.taken := by
      ext i
      rw [List.mem_toFinset, List.mem_map, ← h.taken]
      constructor
      · rintro ⟨⟨j, v⟩, hj, rfl⟩
        exact ((mem_toList h.wellFormed).1 hj).1
      · exact fun hi => ⟨(i, _), (mem_toList h.wellFormed).2 ⟨hi, rfl⟩, rfl⟩
    rw [← hmem]
    exact ((List.toFinset_sort _ (nodup_toList h.wellFormed)).2 (hsorted.imp Nat.le_of_lt)).symm
  rw [← hfst, List.map_map]
  have hval : ∀ p ∈ a.toList, (p.1, t.value p.1) = p := by
    rintro ⟨i, v⟩ hp
    rw [← h.value, ((mem_toList h.wellFormed).1 hp).2]
  exact ((List.map_congr_left hval).trans a.toList.map_id).symm

theorem serve_acquire (h : a.Shows t) (hr : t.taken.card < capacity) :
    (a.serve .acquire).1.Shows (t.serve .acquire).1 ∧ (a.serve .acquire).2 = (t.serve .acquire).2 := by
  have hc := h.acquire_lt hr
  have he := h.acquire_eq
  obtain ⟨hrep, -, -⟩ := acquire_spec h.wellFormed hc
  have hb := h.buckets_acquire hc
  rw [he] at hrep hb
  refine ⟨⟨hrep.wellFormed, hb, fun j => ?_, fun j => ?_⟩, congrArg SlotReply.slot he⟩
  · simp only [SlotArray.serve, FlatTable.serve, isTaken, hrep.look_eq, Finset.mem_insert]
    split
    · rename_i hj
      simp [hj]
    · rename_i hj
      rw [or_iff_right hj]
      exact h.taken j
  · simp only [SlotArray.serve, FlatTable.serve, hrep.look_eq]
    split
    · rename_i hj
      rw [hj]
      exact h.value _
    · exact h.value j

theorem serve_release (h : a.Shows t) (i : Nat) :
    (a.serve (.release i)).1.Shows (t.serve (.release i)).1 ∧
      (a.serve (.release i)).2 = (t.serve (.release i)).2 := by
  by_cases hi : t.Reaches i
  · by_cases ht : i ∈ t.taken
    · have ha : a.release i = .ok (a.setCell i { a.look i with occupied := false }) := by
        simp only [release, h.cell_eq hi]
        exact if_pos ((h.taken i).2 ht)
      simp only [SlotArray.serve, ha, FlatTable.serve, if_pos hi, if_pos ht, and_true]
      refine h.setCell hi rfl (fun j => ?_) fun j => ?_
      · rw [Finset.mem_erase]
        split <;> simp [*]
      · split
        · rename_i hj
          rw [hj]
          exact (h.value i).symm
        · rfl
    · have ha : a.release i = .error (.slotFree i) := by
        simp only [release, h.cell_eq hi]
        exact if_neg (mt (h.taken i).1 ht)
      simp only [SlotArray.serve, ha, FlatTable.serve, if_pos hi, if_neg ht, and_true]
      exact h
  · have ha : a.release i = .error (FlatTable.missing i) := by simp only [release, h.cell_missing hi]
    simp only [SlotArray.serve, ha, FlatTable.serve, if_neg hi, and_true]
    exact h

theorem serve_set (h : a.Shows t) (i : Nat) (v : α) :
    (a.serve (.set i v)).1.Shows (t.serve (.set i v)).1 ∧
      (a.serve (.set i v)).2 = (t.serve (.set i v)).2 := by
  by_cases hi : t.Reaches i
  · have ha : a.set i v = .ok (a.setCell i { a.look i with value := v }) := by
      rw [set, h.cell_eq hi]
      rfl
    simp only [SlotArray.serve, ha, FlatTable.serve, if_pos hi, and_true]
    refine h.setCell hi rfl (fun j => ?_) fun j => ?_
    · split
      · rename_i hj
        rw [hj]
        exact (h.taken i).symm
      · rfl
    · exact Function.update_apply ..
  · have ha : a.set i v = .error (FlatTable.missing i) := by rw [set, h.cell_missing hi]; rfl
    simp only [SlotArray.serve, ha, FlatTable.serve, if_neg hi, and_true]
    exact h

theorem serve (h : a.Shows t) (r : SlotRequest α) (hr : t.Roomy [r]) :
    (a.serve r).1.Shows (t.serve r).1 ∧ (a.serve r).2 = (t.serve r).2 := by
  cases r with
  | acquire => exact h.serve_acquire hr.1
  | release i => exact h.serve_release i
  | get i =>
    by_cases hi : t.Reaches i
    · have ha : a.get i = .ok (t.value i) := by rw [get, h.cell_eq hi, ← h.value]; rfl
      simp only [SlotArray.serve, ha, FlatTable.serve, if_pos hi, and_true]
      exact h
    · have ha : a.get i = .error (FlatTable.missing i) := by rw [get, h.cell_missing hi]; rfl
      simp only [SlotArray.serve, ha, FlatTable.serve, if_neg hi, and_true]
      exact h
  | set i v => exact h.serve_set i v
  | list => exact ⟨h, congrArg SlotReply.values h.toList_eq⟩

theorem serveAll (h : a.Shows t) {rs : List (SlotRequest α)} (hr : t.Roomy rs) :
    (GracePeriod.serveAll SlotArray.serve a rs).1.Shows
        (GracePeriod.serveAll FlatTable.serve t rs).1 ∧
      (GracePeriod.serveAll SlotArray.serve a rs).2 =
        (GracePeriod.serveAll FlatTable.serve t rs).2 := by
  induction rs generalizing a t with
  | nil => exact ⟨h, rfl⟩
  | cons r rs ih =>
    obtain ⟨hs, he⟩ := h.serve r ⟨hr.1, trivial⟩
    obtain ⟨hss, hes⟩ := ih hs hr.2
    exact ⟨hss, congrArg₂ List.cons he hes⟩

end Shows

/-- Whatever is asked of a new slot array, as long as there is a slot left for each that is
acquired, it replies as a flat table does, faults included, and then holds what the table holds. -/
theorem refines_flatTable (rs : List (SlotRequest α)) (h : ({} : FlatTable α).Roomy rs) :
    (GracePeriod.serveAll SlotArray.serve {} rs).2 =
        (GracePeriod.serveAll FlatTable.serve {} rs).2 ∧
      (GracePeriod.serveAll SlotArray.serve {} rs).1.Shows
        (GracePeriod.serveAll FlatTable.serve {} rs).1 :=
  let ⟨hs, he⟩ := Shows.empty.serveAll h
  ⟨he, hs⟩

/-- A slot is freed, written and taken again, and others are asked for that nobody has. -/
def slotRequests : List (SlotRequest Nat) :=
  [.acquire, .acquire, .set 1 7, .release 1, .release 1, .get 1, .acquire, .get 2, .set 3 1, .list,
    .get (2 ^ 63 - 1), .get (2 ^ 64 - 1)]

theorem slotRequests_refine :
    ({} : FlatTable Nat).Roomy slotRequests ∧
      (GracePeriod.serveAll FlatTable.serve {} slotRequests).2 =
        [.slot 0, .slot 1, .done, .done, .fault (.slotFree 1), .value 7, .slot 1, .value 0,
          .fault (.slotUnallocated 3), .values [(0, 0), (1, 7)], .fault .slotBeyondBuckets,
          .fault .slotOverflow] := by
  have hr : ({} : FlatTable Nat).Roomy slotRequests := FlatTable.roomy_of_length (by decide)
  refine ⟨hr, ?_⟩
  rw [← (refines_flatTable slotRequests hr).1]
  rfl

end SlotArray

namespace Trial.Slots

def ofRequest : SlotRequest Nat → Call
  | .acquire => .acquire
  | .release i => .release i
  | .get i => .get i
  | .set i v => .set i v
  | .list => .list

def ofReply : SlotReply Nat → Reading
  | .slot i => .number i
  | .done => .unit
  | .value v => .number v
  | .values vs => .values vs
  | .fault f => .fault f

theorem call_ofRequest (a : SlotArray Nat) (r : SlotRequest Nat) :
    call a (ofRequest r) = ((a.serve r).1, ofReply (a.serve r).2) := by
  cases r with
  | acquire | list => rfl
  | get i =>
    simp only [ofRequest, call, SlotArray.serve]
    cases a.get i <;> rfl
  | release i =>
    simp only [ofRequest, call, SlotArray.serve]
    cases a.release i <;> rfl
  | set i v =>
    simp only [ofRequest, call, SlotArray.serve]
    cases a.set i v <;> rfl

theorem run_flatTable {a : SlotArray Nat} {t : FlatTable Nat} (h : a.Shows t)
    {rs : List (SlotRequest Nat)} (hr : t.Roomy rs) :
    run a (rs.map ofRequest) = (serveAll FlatTable.serve t rs).2.map ofReply := by
  rw [← (h.serveAll hr).2]
  clear h hr
  induction rs generalizing a with
  | nil => rfl
  | cons r rs ih =>
    rw [List.map_cons, run, call_ofRequest]
    exact congrArg (_ :: ·) ih

end Trial.Slots

end GracePeriod
