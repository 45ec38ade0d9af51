import Mathlib.Data.List.GetD
import Mathlib.Tactic.Ring
import GracePeriod.SlotArray

namespace GracePeriod.SlotArray

variable {α : Type}

/-- Bucket `i` of the list holds `2 ^ (b + i)` cells. -/
def Doubling (b : Nat) : List (List (Cell α)) → Prop
  | [] => True
  | cs :: rest => cs.length = 2 ^ b ∧ Doubling (b + 1) rest

structure WellFormed (a : SlotArray α) : Prop where
  doubling : Doubling 0 a.buckets
  length_le : a.buckets.length ≤ bucketLimit

def cells (a : SlotArray α) : List (Cell α) := a.buckets.flatten

/-- The cell of a slot; an empty one where no bucket is allocated. -/
def look [Inhabited α] (a : SlotArray α) (i : Nat) : Cell α := a.cells.getD i default

def isTaken [Inhabited α] (a : SlotArray α) (i : Nat) : Bool := (a.look i).occupied

/-- So many slots can be reached. -/
def capacity : Nat := 2 ^ 63 - 1

theorem wellFormed_empty : ({} : SlotArray α).WellFormed := ⟨trivial, Nat.zero_le _⟩

@[simp] theorem look_empty [Inhabited α] (i : Nat) : ({} : SlotArray α).look i = default := by
  simp [look, cells]

theorem isTaken_lt [Inhabited α] {a : SlotArray α} {i : Nat} (h : a.isTaken i = true) :
    i < a.cells.length := by
  by_contra hi
  have hn : a.look i = default := by simp [look, List.getD, List.getElem?_eq_none (Nat.le_of_not_lt hi)]
  rw [isTaken, hn] at h
  exact absurd h (by simp [default, instInhabitedCell.default])

theorem start_succ (b j o : Nat) :
    2 ^ b * (2 ^ (j + 1) - 1) + o = 2 ^ b + (2 ^ (b + 1) * (2 ^ j - 1) + o) := by
  obtain ⟨n, hn⟩ := Nat.exists_eq_add_of_le (Nat.one_le_two_pow (n := j))
  rw [pow_succ 2 j, pow_succ 2 b, hn, Nat.add_sub_cancel_left,
    show (1 + n) * 2 - 1 = 1 + 2 * n by omega]
  ring

theorem getElem?_flatten {b : Nat} {bs : List (List (Cell α))} (h : Doubling b bs) {j o : Nat}
    (ho : o < 2 ^ (b + j)) : bs.flatten[2 ^ b * (2 ^ j - 1) + o]? = bs[j]?.bind (·[o]?) := by
  induction bs generalizing b j with
  | nil => simp
  | cons cs rest ih =>
    obtain ⟨hc, hr⟩ := h
    cases j with
    | zero => simpa using List.getElem?_append_left (by rw [hc]; exact ho)
    | succ j =>
      rw [start_succ, ← hc, List.flatten_cons, List.getElem?_append_right (Nat.le_add_right _ _),
        Nat.add_sub_cancel_left, ih hr (by rwa [Nat.add_assoc, Nat.add_comm 1])]
      simp

theorem flatten_modify_set {b : Nat} {bs : List (List (Cell α))} (h : Doubling b bs) {j o : Nat}
    (ho : o < 2 ^ (b + j)) (c : Cell α) :
    (bs.modify j (·.set o c)).flatten = bs.flatten.set (2 ^ b * (2 ^ j - 1) + o) c := by
  induction bs generalizing b j with
  | nil => simp
  | cons cs rest ih =>
    obtain ⟨hc, hr⟩ := h
    cases j with
    | zero =>
      have hl : o < cs.length := by rw [hc]; exact ho
      simp [hl]
    | succ j =>
      rw [List.modify_succ_cons, List.flatten_cons, ih hr (by rwa [Nat.add_assoc, Nat.add_comm 1]),
        start_succ, ← hc, List.flatten_cons, List.set_append_right _ _ (Nat.le_add_right _ _),
        Nat.add_sub_cancel_left]

theorem doubling_modify_set {b : Nat} {bs : List (List (Cell α))} (h : Doubling b bs) (j o : Nat)
    (c : Cell α) : Doubling b (bs.modify j (·.set o c)) := by
  induction bs generalizing b j with
  | nil => simpa using h
  | cons cs rest ih =>
    obtain ⟨hc, hr⟩ := h
    cases j with
    | zero => exact ⟨by simpa using hc, hr⟩
    | succ j => exact ⟨hc, ih hr j⟩

theorem locate_of_lt {i : Nat} (h : i < capacity) :
    locate i = .ok ((i + 1).log2, i - (2 ^ (i + 1).log2 - 1)) := by
  have hi : i + 1 < 2 ^ 63 := by simp only [capacity] at h; omega
  have hb : (i + 1).log2 < 63 := (Nat.log2_lt (by omega)).2 hi
  have hs : ¬ slotLimit ≤ i + 1 := by
    simp only [slotLimit, UInt64.size]
    omega
  simp [locate, hs, bucketLimit, Nat.not_le.2 hb, Nat.one_shiftLeft]

theorem locate_add {i : Nat} :
    2 ^ (i + 1).log2 - 1 + (i - (2 ^ (i + 1).log2 - 1)) = i ∧
      i - (2 ^ (i + 1).log2 - 1) < 2 ^ (i + 1).log2 := by
  have h1 : 2 ^ (i + 1).log2 ≤ i + 1 := Nat.log2_self_le (by omega)
  have h2 : i + 1 < 2 ^ ((i + 1).log2 + 1) := Nat.lt_log2_self
  rw [pow_succ] at h2
  omega

theorem locate_of_le {i : Nat} (h : capacity ≤ i) : ∃ f, locate i = .error f := by
  unfold locate
  split
  · exact ⟨_, rfl⟩
  · have hb : bucketLimit ≤ (i + 1).log2 :=
      (Nat.le_log2 (by omega)).2 (by simp only [capacity, bucketLimit] at *; omega)
    exact ⟨_, if_pos hb⟩

theorem cell_eq {a : SlotArray α} (ha : a.WellFormed) {i : Nat} (hi : i < capacity) :
    a.cell i =
      match a.cells[i]? with
      | none => .error (.slotUnallocated i)
      | some c => .ok c := by
  obtain ⟨hadd, hlt⟩ := locate_add (i := i)
  have h := getElem?_flatten ha.doubling (j := (i + 1).log2) (by simpa using hlt)
  rw [Nat.pow_zero, Nat.one_mul, hadd] at h
  change a.cells[i]? = _ at h
  cases hc : a.cells[i]? with
  | none | some c =>
    rw [hc] at h
    simp only [cell, locate_of_lt hi, ← h]

theorem cells_setCell {a : SlotArray α} (ha : a.WellFormed) {i : Nat} (hi : i < capacity)
    (c : Cell α) : (a.setCell i c).cells = a.cells.set i c := by
  obtain ⟨hadd, hlt⟩ := locate_add (i := i)
  have h := flatten_modify_set ha.doubling (j := (i + 1).log2) (by simpa using hlt) c
  rw [Nat.pow_zero, Nat.one_mul, hadd] at h
  simpa only [setCell, locate_of_lt hi, cells] using h

theorem wellFormed_setCell {a : SlotArray α} (ha : a.WellFormed) (i : Nat) (c : Cell α) :
    (a.setCell i c).WellFormed := by
  unfold setCell
  split
  · exact ha
  · exact ⟨doubling_modify_set ha.doubling _ _ _, by simpa using ha.length_le⟩

theorem getElem?_eq_look [Inhabited α] {a : SlotArray α} {i : Nat} (h : i < a.cells.length) :
    a.cells[i]? = some (a.look i) := by
  simp [look, List.getD, h]

theorem cell_eq_look [Inhabited α] {a : SlotArray α} (ha : a.WellFormed) {i : Nat}
    (hi : i < capacity) (hl : i < a.cells.length) : a.cell i = .ok (a.look i) := by
  rw [cell_eq ha hi, getElem?_eq_look hl]

theorem look_setCell [Inhabited α] {a : SlotArray α} (ha : a.WellFormed) {i : Nat}
    (hi : i < capacity) (hl : i < a.cells.length) (c : Cell α) (j : Nat) :
    (a.setCell i c).look j = if j = i then c else a.look j := by
  rw [look, cells_setCell ha hi]
  by_cases hj : j = i
  · subst hj; simp [List.getD, hl]
  · simp [List.getD, look, List.getElem?_set_ne (Ne.symm hj), hj]

theorem length_setCell {a : SlotArray α} (ha : a.WellFormed) {i : Nat} (hi : i < capacity)
    (c : Cell α) : (a.setCell i c).cells.length = a.cells.length := by
  rw [cells_setCell ha hi, List.length_set]

/-- What it takes for `a'` to be `a` with cell `c` at slot `i`. -/
structure Replaced [Inhabited α] (a a' : SlotArray α) (i : Nat) (c : Cell α) : Prop where
  wellFormed : a'.WellFormed
  length_le : a.cells.length ≤ a'.cells.length
  look_eq : ∀ j, a'.look j = if j = i then c else a.look j

theorem replaced_setCell [Inhabited α] {a : SlotArray α} (ha : a.WellFormed) {i : Nat}
    (hi : i < capacity) (hl : i < a.cells.length) (c : Cell α) : Replaced a (a.setCell i c) i c :=
  ⟨wellFormed_setCell ha i c, (length_setCell ha hi c).ge, look_setCell ha hi hl c⟩

theorem Replaced.trans [Inhabited α] {a a' a'' : SlotArray α} {i : Nat} {c c' : Cell α}
    (h : Replaced a a' i c) (h' : Replaced a' a'' i c') : Replaced a a'' i c' where
  wellFormed := h'.wellFormed
  length_le := h.length_le.trans h'.length_le
  look_eq j := by
    rw [h'.look_eq, h.look_eq]
    split <;> rfl

theorem Replaced.look_self [Inhabited α] {a a' : SlotArray α} {i : Nat} {c : Cell α}
    (h : Replaced a a' i c) : a'.look i = c := by simp [h.look_eq]

theorem get_eq [Inhabited α] {a : SlotArray α} (ha : a.WellFormed) {i : Nat} (hi : i < capacity)
    (hl : i < a.cells.length) : a.get i = .ok (a.look i).value := by
  rw [get, cell_eq_look ha hi hl]
  rfl

theorem set_eq [Inhabited α] {a : SlotArray α} (ha : a.WellFormed) {i : Nat} (hi : i < capacity)
    (hl : i < a.cells.length) (v : α) :
    ∃ a', a.set i v = .ok a' ∧ Replaced a a' i { a.look i with value := v } := by
  refine ⟨_, ?_, replaced_setCell ha hi hl _⟩
  rw [set, cell_eq_look ha hi hl]
  rfl

theorem replaced_setD [Inhabited α] {a : SlotArray α} (ha : a.WellFormed) {i : Nat}
    (hi : i < capacity) (hl : i < a.cells.length) (v : α) :
    Replaced a (a.setD i v) i { a.look i with value := v } := by
  obtain ⟨a', h, hr⟩ := set_eq ha hi hl v
  rw [setD, h]
  exact hr

theorem cell_error {a : SlotArray α} (ha : a.WellFormed) {i : Nat}
    (h : capacity ≤ i ∨ a.cells.length ≤ i) : ∃ f, a.cell i = .error f := by
  by_cases hi : i < capacity
  · have hn : a.cells[i]? = none := List.getElem?_eq_none (by omega)
    exact ⟨_, by rw [cell_eq ha hi, hn]⟩
  · obtain ⟨f, hf⟩ := locate_of_le (Nat.le_of_not_lt hi)
    exact ⟨f, by simp [cell, hf]⟩

theorem setD_eq_self {a : SlotArray α} (ha : a.WellFormed) {i : Nat}
    (h : capacity ≤ i ∨ a.cells.length ≤ i) (v : α) : a.setD i v = a := by
  obtain ⟨f, hf⟩ := cell_error ha h
  have hs : a.set i v = .error f := by rw [set, hf]; rfl
  simp [setD, hs]

theorem getD_eq [Inhabited α] {a : SlotArray α} (ha : a.WellFormed) (i : Nat) :
    a.getD i = (a.look i).value ∨ a.getD i = default := by
  by_cases h : i < capacity ∧ i < a.cells.length
  · left
    rw [getD, get_eq ha h.1 h.2]
  · right
    obtain ⟨f, hf⟩ := cell_error ha (i := i) (by omega)
    simp [getD, get, hf, Except.map]

theorem wellFormed_setD [Inhabited α] {a : SlotArray α} (ha : a.WellFormed) (i : Nat) (v : α) :
    (a.setD i v).WellFormed := by
  by_cases h : i < capacity ∧ i < a.cells.length
  · exact (replaced_setD ha h.1 h.2 v).wellFormed
  · rwa [setD_eq_self ha (by omega)]

theorem length_setD [Inhabited α] {a : SlotArray α} (ha : a.WellFormed) (i : Nat) (v : α) :
    a.cells.length ≤ (a.setD i v).cells.length := by
  by_cases h : i < capacity ∧ i < a.cells.length
  · exact (replaced_setD ha h.1 h.2 v).length_le
  · rw [setD_eq_self ha (by omega)]

theorem look_setD [Inhabited α] {a : SlotArray α} (ha : a.WellFormed) (i : Nat) (v : α) (j : Nat) :
    (a.setD i v).look j = a.look j ∨ ((a.setD i v).look j).value = v := by
  by_cases h : i < capacity ∧ i < a.cells.length
  · rw [(replaced_setD ha h.1 h.2 v).look_eq]
    split
    · exact .inr rfl
    · exact .inl rfl
  · exact .inl (by rw [setD_eq_self ha (by omega)])

theorem isTaken_setD [Inhabited α] {a : SlotArray α} (ha : a.WellFormed) (i : Nat) (v : α)
    (j : Nat) : (a.setD i v).isTaken j = a.isTaken j := by
  by_cases h : i < capacity ∧ i < a.cells.length
  · rw [isTaken, (replaced_setD ha h.1 h.2 v).look_eq]
    split
    · rename_i hj; simp [isTaken, hj]
    · rfl
  · rw [setD_eq_self ha (by omega)]

theorem release_eq [Inhabited α] {a : SlotArray α} (ha : a.WellFormed) {i : Nat}
    (hi : i < capacity) (ht : a.isTaken i = true) :
    ∃ a', a.release i = .ok a' ∧ Replaced a a' i { a.look i with occupied := false } := by
  refine ⟨_, ?_, replaced_setCell ha hi (isTaken_lt ht) _⟩
  rw [isTaken] at ht
  simp only [release, cell_eq_look ha hi (isTaken_lt ht), ht, if_true]

theorem claim?_eq_some {cs cs' : List (Cell α)} {i : Nat} (h : claim? cs = some (i, cs')) :
    ∃ c, cs[i]? = some c ∧ c.occupied = false ∧ cs' = cs.set i { c with occupied := true } ∧
      ∀ j < i, ∀ c, cs[j]? = some c → c.occupied = true := by
  induction cs generalizing i cs' with
  | nil => simp [claim?] at h
  | cons d ds ih =>
    unfold claim? at h
    split at h
    · rename_i hd
      obtain ⟨⟨i', ds'⟩, hp, he⟩ := Option.map_eq_some_iff.1 h
      obtain ⟨rfl, rfl⟩ := Prod.mk.inj he
      obtain ⟨c, hc, ho, rfl, hb⟩ := ih hp
      refine ⟨c, by simpa using hc, ho, by simp, ?_⟩
      intro j hj c' hc'
      cases j with
      | zero => simpa [← (by simpa using hc' : d = c')] using hd
      | succ j => exact hb j (by omega) c' (by simpa using hc')
    · rename_i hd
      obtain ⟨rfl, rfl⟩ := Prod.mk.inj (Option.some.inj h)
      exact ⟨d, rfl, by simpa using hd, rfl, by simp⟩

theorem claim?_eq_none {cs : List (Cell α)} (h : claim? cs = none) :
    ∀ c ∈ cs, c.occupied = true := by
  induction cs with
  | nil => simp
  | cons d ds ih =>
    unfold claim? at h
    split at h
    · rename_i hd
      intro c hc
      rcases List.mem_cons.1 hc with rfl | hc
      · exact hd
      · exact ih (Option.map_eq_none_iff.1 h) c hc
    · simp at h

theorem getD_flatten_lt {cs : List (Cell α)} {j : Nat} (hj : j < cs.length)
    (rest : List (List (Cell α))) (d : Cell α) : (cs :: rest).flatten.getD j d = cs.getD j d := by
  rw [List.flatten_cons, List.getD_append _ _ _ _ hj]

theorem getD_flatten_ge {cs : List (Cell α)} {j : Nat} (hj : cs.length ≤ j)
    (rest : List (List (Cell α))) (d : Cell α) :
    (cs :: rest).flatten.getD j d = rest.flatten.getD (j - cs.length) d := by
  rw [List.flatten_cons, List.getD_append_right _ _ _ _ hj]

/-- The first free slot of the buckets has been taken; where all were full, it is in a new bucket. -/
structure Grants [Inhabited α] (b : Nat) (bs bs' : List (List (Cell α))) (i : Nat) : Prop where
  lt : i < bs'.flatten.length
  length_le : bs.flatten.length ≤ bs'.flatten.length
  doubling : Doubling b bs'
  free : (bs.flatten.getD i default).occupied = false
  taken : ∀ j < i, (bs.flatten.getD j default).occupied = true
  getD_eq : ∀ j, bs'.flatten.getD j default =
    if j = i then { bs.flatten.getD i default with occupied := true } else bs.flatten.getD j default

namespace Grants

variable [Inhabited α] {b i : Nat} {cs cs' : List (Cell α)} {rest rest' : List (List (Cell α))}

theorem new (b : Nat) : Grants (α := α) b []
    [{ occupied := true, value := default } :: List.replicate (1 <<< b - 1) default] 0 := by
  refine ⟨by simp, by simp, ⟨?_, trivial⟩, rfl, by simp, fun j => ?_⟩
  · have hp : 1 ≤ 2 ^ b := Nat.one_le_two_pow
    simp [Nat.one_shiftLeft, Nat.sub_add_cancel hp]
  · cases j with
    | zero => rfl
    | succ j => by_cases hj : j < 1 <<< b - 1 <;> simp [List.getD, hj]

theorem claimed (hd : Doubling b (cs :: rest)) (h : claim? cs = some (i, cs')) :
    Grants b (cs :: rest) (cs' :: rest) i := by
  obtain ⟨c, hi, ho, rfl, hb⟩ := claim?_eq_some h
  obtain ⟨hl, hg⟩ := List.getElem?_eq_some_iff.1 hi
  refine ⟨by simp; omega, by simp, ⟨by simpa using hd.1, hd.2⟩, ?_, fun j hj => ?_, fun j => ?_⟩
  · rw [getD_flatten_lt hl]
    simp [List.getD, hi, ho]
  · have hj' : cs[j]? = some cs[j] := List.getElem?_eq_getElem (hj.trans hl)
    rw [getD_flatten_lt (hj.trans hl)]
    simpa [List.getD, hj'] using hb j hj _ hj'
  · rw [getD_flatten_lt hl]
    by_cases hjl : j < cs.length
    · rw [getD_flatten_lt (by simpa using hjl), getD_flatten_lt hjl]
      by_cases hj : j = i
      · subst hj
        simp [List.getD, hjl, hg]
      · simp [List.getD, List.getElem?_set_ne (Ne.symm hj), hj]
    · rw [getD_flatten_ge (by simpa using hjl), getD_flatten_ge (by omega), if_neg (by omega),
        List.length_set]

theorem passed (hd : Doubling b (cs :: rest)) (h : claim? cs = none) (hg : Grants (b + 1) rest rest' i) :
    Grants b (cs :: rest) (cs :: rest') (cs.length + i) := by
  have hall := claim?_eq_none h
  refine ⟨by simpa using hg.lt, by simpa using hg.length_le, ⟨hd.1, hg.doubling⟩, ?_, fun j hj => ?_,
    fun j => ?_⟩
  · rw [getD_flatten_ge (by omega), Nat.add_sub_cancel_left]
    exact hg.free
  · by_cases hjl : j < cs.length
    · rw [getD_flatten_lt hjl]
      simpa [List.getD, hjl] using hall _ (List.getElem_mem hjl)
    · rw [getD_flatten_ge (by omega)]
      exact hg.taken _ (by omega)
  · rw [getD_flatten_ge (Nat.le_add_right ..), Nat.add_sub_cancel_left]
    by_cases hjl : j < cs.length
    · rw [getD_flatten_lt hjl, getD_flatten_lt hjl, if_neg (by omega)]
    · rw [getD_flatten_ge (by omega), getD_flatten_ge (by omega), hg.getD_eq]
      by_cases hj : j = cs.length + i
      · simp [hj]
      · rw [if_neg (by omega), if_neg hj]

end Grants

theorem acquireFrom_spec [Inhabited α] {b : Nat} {bs : List (List (Cell α))} (h : Doubling b bs)
    (first : Nat) :
    ∃ i, (acquireFrom b first bs).1 = first + i ∧ Grants b bs (acquireFrom b first bs).2 i := by
  induction bs generalizing b first with
  | nil => exact ⟨0, rfl, .new b⟩
  | cons cs rest ih =>
    unfold acquireFrom
    cases hcl : claim? cs with
    | some p => exact ⟨p.1, rfl, .claimed h hcl⟩
    | none =>
      obtain ⟨i, hi, hg⟩ := ih h.2 (first + cs.length)
      exact ⟨cs.length + i, hi.trans (Nat.add_assoc ..), .passed h hcl hg⟩

theorem length_flatten {b : Nat} {bs : List (List (Cell α))} (h : Doubling b bs) :
    bs.flatten.length = 2 ^ b * (2 ^ bs.length - 1) := by
  induction bs generalizing b with
  | nil => simp
  | cons cs rest ih =>
    obtain ⟨hc, hr⟩ := h
    have hs := start_succ b rest.length 0
    rw [List.flatten_cons, List.length_append, hc, ih hr, List.length_cons]
    omega

theorem doubling_take {b : Nat} {bs : List (List (Cell α))} (h : Doubling b bs) (n : Nat) :
    Doubling b (bs.take n) := by
  induction bs generalizing b n with
  | nil => simpa using h
  | cons cs rest ih =>
    cases n with
    | zero => trivial
    | succ n => exact ⟨h.1, ih h.2 n⟩

theorem length_cells_le {a : SlotArray α} (ha : a.WellFormed) : a.cells.length ≤ capacity := by
  have h := length_flatten ha.doubling
  have hp : 2 ^ a.buckets.length ≤ 2 ^ 63 := Nat.pow_le_pow_right (by decide) ha.length_le
  rw [cells, h, capacity, Nat.pow_zero, Nat.one_mul]
  omega

theorem wellFormed_acquire [Inhabited α] {a : SlotArray α} (ha : a.WellFormed) :
    a.acquire.2.WellFormed := by
  obtain ⟨i, -, hg⟩ := acquireFrom_spec ha.doubling 0
  exact ⟨doubling_take hg.doubling bucketLimit, List.length_take_le ..⟩

theorem acquire_fst [Inhabited α] {a : SlotArray α} (ha : a.WellFormed) :
    a.isTaken a.acquire.1 = false ∧ ∀ j < a.acquire.1, a.isTaken j = true := by
  obtain ⟨i, h1, hg⟩ := acquireFrom_spec ha.doubling 0
  have hi : a.acquire.1 = i := by simpa [acquire] using h1
  rw [hi]
  exact ⟨hg.free, hg.taken⟩

theorem acquire_le_capacity [Inhabited α] {a : SlotArray α} (ha : a.WellFormed) :
    a.acquire.1 ≤ capacity := by
  refine Nat.le_trans (Nat.le_of_not_lt fun hlt => ?_) (length_cells_le ha)
  have := isTaken_lt ((acquire_fst ha).2 _ hlt)
  omega

theorem length_acquireFrom [Inhabited α] (b first : Nat) (bs : List (List (Cell α))) :
    (acquireFrom b first bs).2.length = bs.length ∨
      (acquireFrom b first bs).2.length = bs.length + 1 ∧
        (acquireFrom b first bs).1 = first + bs.flatten.length := by
  induction bs generalizing b first with
  | nil => exact .inr ⟨rfl, rfl⟩
  | cons cs rest ih =>
    unfold acquireFrom
    cases claim? cs with
    | some p => exact .inl rfl
    | none =>
      rcases ih (b + 1) (first + cs.length) with h | ⟨h, hi⟩
      · exact .inl (congrArg (· + 1) h)
      · refine .inr ⟨congrArg (· + 1) h, ?_⟩
        rw [List.flatten_cons, List.length_append, ← Nat.add_assoc]
        exact hi

theorem buckets_acquire [Inhabited α] {a : SlotArray α} (ha : a.WellFormed)
    (hc : a.acquire.1 < capacity) : a.acquire.2.buckets = (acquireFrom 0 0 a.buckets).2 := by
  refine List.take_of_length_le ?_
  have hle := ha.length_le
  rcases length_acquireFrom 0 0 a.buckets with h | ⟨h, hi⟩
  · omega
  · have hlen := length_flatten ha.doubling
    have hne : a.buckets.length ≠ 63 := fun h63 => by
      rw [h63] at hlen
      have h1 : a.acquire.1 = 0 + a.buckets.flatten.length := hi
      simp only [capacity] at hc
      omega
    simp only [bucketLimit] at hle ⊢
    omega

/-- The slot handed out is the least free one, and nothing else changes. -/
theorem acquire_spec [Inhabited α] {a : SlotArray α} (ha : a.WellFormed)
    (hc : a.acquire.1 < capacity) :
    Replaced a a.acquire.2 a.acquire.1 { a.look a.acquire.1 with occupied := true } ∧
      a.isTaken a.acquire.1 = false ∧ a.acquire.1 < a.acquire.2.cells.length := by
  have hw := wellFormed_acquire ha
  have hcells : a.acquire.2.cells = (acquireFrom 0 0 a.buckets).2.flatten :=
    congrArg List.flatten (buckets_acquire ha hc)
  obtain ⟨i, h1, hg⟩ := acquireFrom_spec ha.doubling 0
  have hi : a.acquire.1 = i := by simpa [acquire] using h1
  rw [hi]
  refine ⟨⟨hw, ?_, fun j => ?_⟩, hg.free, ?_⟩
  · rw [hcells]
    exact hg.length_le
  · rw [look, hcells]
    exact hg.getD_eq j
  · rw [hcells]
    exact hg.lt

theorem length_acquire [Inhabited α] {a : SlotArray α} (ha : a.WellFormed) :
    a.cells.length ≤ a.acquire.2.cells.length := by
  have hbuckets : a.buckets.length ≤ a.acquire.2.buckets.length := by
    have hle := ha.length_le
    have hlen : a.acquire.2.buckets.length = min bucketLimit (acquireFrom 0 0 a.buckets).2.length :=
      List.length_take
    rcases length_acquireFrom 0 0 a.buckets with h | ⟨h, -⟩ <;> omega
  have hpow : 2 ^ a.buckets.length ≤ 2 ^ a.acquire.2.buckets.length :=
    Nat.pow_le_pow_right (by decide) hbuckets
  rw [cells, cells, length_flatten ha.doubling, length_flatten (wellFormed_acquire ha).doubling]
  omega

theorem look_acquire [Inhabited α] {a : SlotArray α} (j : Nat)
    (hj : j < a.acquire.2.cells.length) :
    a.acquire.2.look j = (acquireFrom 0 0 a.buckets).2.flatten.getD j default := by
  have hsplit : (acquireFrom 0 0 a.buckets).2.flatten = a.acquire.2.cells ++
      ((acquireFrom 0 0 a.buckets).2.drop bucketLimit).flatten := by
    rw [cells, acquire, ← List.flatten_append, List.take_append_drop]
  rw [hsplit, List.getD_append _ _ _ _ hj, look]

theorem isTaken_acquire [Inhabited α] {a : SlotArray α} (ha : a.WellFormed) {j : Nat}
    (h : a.isTaken j = true) : a.acquire.2.isTaken j = true := by
  obtain ⟨i, -, hg⟩ := acquireFrom_spec ha.doubling 0
  rw [isTaken, look_acquire j (Nat.lt_of_lt_of_le (isTaken_lt h) (length_acquire ha)), hg.getD_eq]
  split
  · rfl
  · exact h

theorem value_look_acquire [Inhabited α] {a : SlotArray α} (ha : a.WellFormed) (j : Nat) :
    (a.acquire.2.look j).value = (a.look j).value := by
  obtain ⟨i, -, hg⟩ := acquireFrom_spec ha.doubling 0
  by_cases hj : j < a.acquire.2.cells.length
  · rw [look_acquire j hj, hg.getD_eq]
    split
    · rename_i h
      rw [h]
      rfl
    · rfl
  · have hj := Nat.le_of_not_lt hj
    rw [look, look, List.getD_eq_default _ _ hj,
      List.getD_eq_default _ _ ((length_acquire ha).trans hj)]

theorem flatMap_bucketList {b : Nat} {bs : List (List (Cell α))} (h : Doubling b bs) :
    bs.flatMap bucketList =
      (bs.flatten.zipIdx (2 ^ b - 1)).filterMap fun p =>
        if p.1.occupied then some (p.2, p.1.value) else none := by
  induction bs generalizing b with
  | nil => rfl
  | cons cs rest ih =>
    obtain ⟨hc, hr⟩ := h
    have hp : 1 ≤ 2 ^ b := Nat.one_le_two_pow
    have hs : 2 ^ b - 1 + cs.length = 2 ^ (b + 1) - 1 := by rw [hc, pow_succ]; omega
    rw [List.flatMap_cons, List.flatten_cons, List.zipIdx_append, List.filterMap_append, ih hr, hs]
    congr 1
    rw [bucketList, hc, show cs.zipIdx (2 ^ b - 1) = _ from List.zipIdx_eq_map_add ..,
      List.filterMap_map]
    rfl

theorem toList_eq {a : SlotArray α} (ha : a.WellFormed) :
    a.toList = a.cells.zipIdx.filterMap fun p =>
      if p.1.occupied then some (p.2, p.1.value) else none := flatMap_bucketList ha.doubling

theorem mem_toList [Inhabited α] {a : SlotArray α} (ha : a.WellFormed) {i : Nat} {v : α} :
    (i, v) ∈ a.toList ↔ a.isTaken i = true ∧ (a.look i).value = v := by
  rw [toList_eq ha, List.mem_filterMap]
  constructor
  · rintro ⟨⟨c, j⟩, hm, hp⟩
    have hj : a.cells[j]? = some c := List.mk_mem_zipIdx_iff_getElem?.1 hm
    have hl : a.look j = c := by simp [look, List.getD, hj]
    split at hp
    · rename_i ho
      obtain ⟨rfl, rfl⟩ := Prod.mk.inj (Option.some.inj hp)
      exact ⟨by rw [isTaken, hl]; exact ho, by rw [hl]⟩
    · cases hp
  · rintro ⟨ht, rfl⟩
    refine ⟨(a.look i, i), List.mk_mem_zipIdx_iff_getElem?.2 (getElem?_eq_look (isTaken_lt ht)), ?_⟩
    rw [isTaken] at ht
    simp [ht]

theorem sorted_toList {a : SlotArray α} (ha : a.WellFormed) :
    (a.toList.map Prod.fst).Pairwise (· < ·) := by
  have hsub : (a.toList.map Prod.fst).Sublist (a.cells.zipIdx.map Prod.snd) := by
    rw [toList_eq ha]
    generalize a.cells.zipIdx = l
    induction l with
    | nil => simp
    | cons p l ih =>
      by_cases ho : p.1.occupied
      · simpa [ho] using ih
      · simpa [ho] using ih.cons _
  refine List.Pairwise.sublist hsub ?_
  rw [List.zipIdx_map_snd]
  exact List.pairwise_lt_range'

theorem nodup_toList {a : SlotArray α} (ha : a.WellFormed) : (a.toList.map Prod.fst).Nodup :=
  (sorted_toList ha).imp fun h => Nat.ne_of_lt h

end GracePeriod.SlotArray
