namespace GracePeriod

/-- A total map from numbers: every index has a value, the default one until it is set. -/
structure Table (α : Type) where
  entries : List α := []
  deriving Inhabited

namespace Table

variable {α : Type} [Inhabited α]

/-- One more than the largest index set so far. -/
def size (t : Table α) : Nat := t.entries.length

def get (t : Table α) (i : Nat) : α := t.entries.getD i default

def set (t : Table α) (i : Nat) (a : α) : Table α :=
  if i < t.size then ⟨t.entries.set i a⟩
  else ⟨t.entries ++ List.replicate (i - t.size) default ++ [a]⟩

def modify (t : Table α) (i : Nat) (f : α → α) : Table α := t.set i (f (t.get i))

def push (t : Table α) (a : α) : Table α := ⟨t.entries ++ [a]⟩

def indices (t : Table α) : List Nat := List.range t.size

@[simp] theorem get_empty (i : Nat) : (⟨[]⟩ : Table α).get i = default := by simp [get]

theorem get_of_size_le {t : Table α} {i : Nat} (h : t.size ≤ i) : t.get i = default := by
  simp [get, List.getD, List.getElem?_eq_none h]

theorem get_set (t : Table α) (i j : Nat) (a : α) :
    (t.set i a).get j = if j = i then a else t.get j := by
  unfold set get size
  split
  · rename_i h
    by_cases hj : j = i
    · subst hj; simp [List.getD, h]
    · simp [List.getD, List.getElem?_set_ne (Ne.symm hj), hj]
  · rename_i h
    simp only [List.getD, List.getElem?_append, List.length_append, List.length_replicate]
    split
    · split
      · have : j ≠ i := by omega
        simp [this]
      · have : j ≠ i := by omega
        rw [List.getElem?_replicate]
        have : j - t.entries.length < i - t.entries.length := by omega
        have hn : t.entries[j]? = none := by simp; omega
        simp [*]
    · by_cases hj : j = i
      · subst hj
        have : j - (t.entries.length + (j - t.entries.length)) = 0 := by omega
        simp [this]
      · have hn : t.entries[j]? = none := by simp; omega
        have : j - (t.entries.length + (i - t.entries.length)) ≠ 0 := by omega
        simp [hj, hn, this]

@[simp] theorem get_set_self (t : Table α) (i : Nat) (a : α) : (t.set i a).get i = a := by
  simp [get_set]

theorem get_set_ne (t : Table α) {i j : Nat} (h : j ≠ i) (a : α) : (t.set i a).get j = t.get j := by
  simp [get_set, h]

theorem get_modify (t : Table α) (i j : Nat) (f : α → α) :
    (t.modify i f).get j = if j = i then f (t.get i) else t.get j := get_set ..

theorem get_push (t : Table α) (j : Nat) (a : α) :
    (t.push a).get j = if j = t.size then a else t.get j := by
  simp only [push, get, size, List.getD, List.getElem?_append]
  split
  · have : j ≠ t.entries.length := by omega
    simp [this]
  · by_cases hj : j = t.entries.length
    · subst hj; simp
    · have hn : t.entries[j]? = none := by simp; omega
      have : j - t.entries.length ≠ 0 := by omega
      simp [hj, hn, this]

theorem size_le_set (t : Table α) (i : Nat) (a : α) : t.size ≤ (t.set i a).size := by
  unfold set
  split
  · simp [size]
  · simp only [size, List.length_append, List.length_replicate, List.length_singleton]
    omega

theorem size_le_modify (t : Table α) (i : Nat) (f : α → α) : t.size ≤ (t.modify i f).size :=
  size_le_set ..

theorem lt_size_set (t : Table α) (i : Nat) (a : α) : i < (t.set i a).size := by
  unfold set
  split
  · rename_i h
    simpa [size] using h
  · rename_i h
    simp only [size, List.length_append, List.length_replicate, List.length_singleton] at h ⊢
    omega

theorem set_set (t : Table α) (i : Nat) (a b : α) : (t.set i a).set i b = t.set i b := by
  rw [set, if_pos (t.lt_size_set i a)]
  unfold set size
  split
  · exact congrArg mk (List.set_set ..)
  · rename_i h
    have hlen : (t.entries ++ List.replicate (i - t.entries.length) default).length = i := by simp; omega
    rw [List.set_append_right _ _ (Nat.le_of_eq hlen), hlen, Nat.sub_self]
    rfl

theorem set_get {t : Table α} {i : Nat} (h : i < t.size) : t.set i (t.get i) = t := by
  have hi : t.get i = t.entries.get ⟨i, h⟩ := by
    rw [get, List.getD, List.getElem?_eq_getElem h]
    rfl
  rw [set, if_pos h, hi]
  exact congrArg mk (List.set_getElem_self h)

omit [Inhabited α] in
@[simp] theorem size_push (t : Table α) (a : α) : (t.push a).size = t.size + 1 := by
  simp [push, size]

end Table

end GracePeriod
