import Mathlib.Data.List.Perm.Basic
import GracePeriod.Nest

namespace GracePeriod

namespace PerKind

variable {α : Type}

theorem get_set_ne (p : PerKind α) {k j : Kind} (h : j ≠ k) (a : α) :
    (p.set k a).get j = p.get j := by
  rw [get_set, if_neg h]

end PerKind

namespace Nest

theorem isIdle_iff (n : Nest) : n.isIdle = true ↔ ∀ k, n.depth.get k = 0 := by
  unfold isIdle
  constructor
  · intro h k
    simp only [Bool.and_eq_true, decide_eq_true_eq] at h
    cases k
    · exact h.1
    · exact h.2
  · intro h
    simpa using ⟨h .regular, h .sleepable⟩

theorem engine_setDepth (k : Kind) (d : UInt32) (n : Nest) : (n.setDepth k d).engine = n.engine :=
  rfl

theorem engine_setPlace (k : Kind) (w i : Nat) (n : Nest) : (n.setPlace k w i).engine = n.engine :=
  rfl

def place (n : Nest) (k : Kind) : Option (Nat × Nat) :=
  if n.depth.get k = 0 then none else some (n.worker.get k, n.slot.get k)

theorem place_eq_none {n : Nest} {k : Kind} : n.place k = none ↔ n.depth.get k = 0 := by
  unfold place
  split <;> simp_all

theorem place_setDepth_ne (n : Nest) {k j : Kind} (h : j ≠ k) (d : UInt32) :
    (n.setDepth k d).place j = n.place j := by
  simp [place, setDepth, PerKind.get_set_ne _ h]

theorem place_setPlace_ne (n : Nest) {k j : Kind} (h : j ≠ k) (w i : Nat) :
    (n.setPlace k w i).place j = n.place j := by
  simp [place, setPlace, PerKind.get_set_ne _ h]

theorem place_setPlace (n : Nest) {k : Kind} (h : n.depth.get k ≠ 0) (w i : Nat) :
    (n.setPlace k w i).place k = some (w, i) := by
  simp [place, setPlace, h]

theorem place_setDepth (n : Nest) {k : Kind} {d : UInt32} (h : n.depth.get k ≠ 0) (hd : d ≠ 0) :
    (n.setDepth k d).place k = n.place k := by
  simp [place, setDepth, h, hd]

theorem place_setDepth_zero (n : Nest) (k : Kind) : (n.setDepth k 0).place k = none := by
  simp [place, setDepth]

end Nest

theorem swapRemove_perm {α : Type} {l : List α} {i : Nat} (h : i < l.length) :
    (swapRemove l i).Perm (l.eraseIdx i) := by
  obtain ⟨a, x, b, rfl, rfl⟩ : ∃ a x b, l = a ++ x :: b ∧ i = a.length :=
    ⟨l.take i, l[i], l.drop (i + 1), by simp, by simp; omega⟩
  rcases List.eq_nil_or_concat b with rfl | ⟨b, y, rfl⟩
  · simp [swapRemove, List.eraseIdx_append_of_length_le]
  · rw [List.concat_eq_append]
    have hl : (a ++ x :: (b ++ [y])).getLast? = some y := by
      rw [show a ++ x :: (b ++ [y]) = (a ++ x :: b) ++ [y] by simp, List.getLast?_concat]
    have hs : swapRemove (a ++ x :: (b ++ [y])) a.length = a ++ y :: b := by
      simp only [swapRemove, hl]
      rw [List.set_append_right _ _ (Nat.le_refl _), Nat.sub_self, List.set_cons_zero,
        show a ++ y :: (b ++ [y]) = (a ++ y :: b) ++ [y] by simp, List.dropLast_concat]
    have he : (a ++ x :: (b ++ [y])).eraseIdx a.length = a ++ (b ++ [y]) := by
      rw [List.eraseIdx_append_of_length_le (Nat.le_refl _), Nat.sub_self, List.eraseIdx_cons_zero]
    rw [hs, he]
    have hp : ([y] ++ b).Perm (b ++ [y]) := List.perm_append_comm
    exact hp.append_left a

namespace Nests

/-- At most one entry for an engine. -/
def Unique (ns : Nests) : Prop := (ns.map Nest.engine).Nodup

def entry (ns : Nests) (e : Nat) : Nest := (ns.find? (·.engine = e)).getD { engine := e }

def place (ns : Nests) (e : Nat) (k : Kind) : Option (Nat × Nat) := (ns.entry e).place k

theorem depth_eq (ns : Nests) (e : Nat) (k : Kind) : ns.depth e k = (ns.entry e).depth.get k := by
  unfold depth entry
  cases ns.find? (·.engine = e) <;> simp

@[simp] theorem entry_nil (e : Nat) : entry [] e = { engine := e } := rfl

@[simp] theorem place_nil (e : Nat) (k : Kind) : place [] e k = none := by simp [place, Nest.place]

theorem place_eq_none {ns : Nests} {e : Nat} {k : Kind} : ns.place e k = none ↔ ns.depth e k = 0 := by
  rw [depth_eq, place, Nest.place_eq_none]

theorem entry_of_mem {ns : Nests} (hu : ns.Unique) {n : Nest} (hn : n ∈ ns) :
    ns.entry n.engine = n := by
  induction ns with
  | nil => cases hn
  | cons a l ih =>
    obtain ⟨ha, hl⟩ := List.nodup_cons.1 hu
    rcases List.mem_cons.1 hn with rfl | hm
    · simp [entry]
    · have hne : a.engine ≠ n.engine := fun h => ha (h ▸ List.mem_map_of_mem hm)
      simpa [entry, hne] using ih hl hm

theorem entry_of_not_mem {ns : Nests} {e : Nat} (h : ∀ n ∈ ns, n.engine ≠ e) :
    ns.entry e = { engine := e } := by
  have hf : ns.find? (·.engine = e) = none := List.find?_eq_none.2 fun n hn => by simpa using h n hn
  simp [entry, hf]

theorem engine_entry (ns : Nests) (e : Nat) : (ns.entry e).engine = e := by
  unfold entry
  cases h : ns.find? (·.engine = e) with
  | none => rfl
  | some n => simpa using List.find?_some h

/-- Lists with the same entries are the same table. -/
theorem entry_congr {ns ns' : Nests} (hu : ns.Unique) (hu' : ns'.Unique)
    {e : Nat} (h : ∀ n : Nest, n.engine = e → (n ∈ ns' ↔ n ∈ ns)) : ns'.entry e = ns.entry e := by
  by_cases hex : ∃ n ∈ ns, n.engine = e
  · obtain ⟨n, hn, rfl⟩ := hex
    rw [entry_of_mem hu hn, entry_of_mem hu' ((h n rfl).2 hn)]
  · have hn : ∀ n ∈ ns, n.engine ≠ e := fun n hm he => hex ⟨n, hm, he⟩
    rw [entry_of_not_mem hn, entry_of_not_mem fun n hm he => hn n ((h n he).1 hm) he]

theorem entry_append_new {ns : Nests} {e : Nat} (h : ∀ n ∈ ns, n.engine ≠ e) (e' : Nat) :
    entry (ns ++ [{ engine := e }]) e' = ns.entry e' := by
  unfold entry
  rw [List.find?_append]
  by_cases he : e' = e
  · subst he
    have hf : ns.find? (·.engine = e') = none :=
      List.find?_eq_none.2 fun n hn => by simpa using h n hn
    simp [hf]
  · have hne : e ≠ e' := Ne.symm he
    simp [hne]

theorem position_eq_none {ns : Nests} {e : Nat} :
    ns.position e = none ↔ ∀ n ∈ ns, n.engine ≠ e := by
  simp [position]

theorem entry_ensure (ns : Nests) (e e' : Nat) : (ns.ensure e).entry e' = ns.entry e' := by
  unfold ensure
  split
  · rfl
  · rename_i h
    exact entry_append_new (position_eq_none.1 h) e'

theorem unique_ensure {ns : Nests} (hu : ns.Unique) (e : Nat) : (ns.ensure e).Unique := by
  unfold ensure
  split
  · exact hu
  · rename_i h
    have hn := position_eq_none.1 h
    simp only [Unique, List.map_append, List.map_cons, List.map_nil]
    refine List.nodup_append.2 ⟨hu, by simp, ?_⟩
    intro a ha b hb
    obtain ⟨n, hm, rfl⟩ := List.mem_map.1 ha
    obtain rfl : b = e := by simpa using hb
    exact hn n hm

variable {ns : Nests} {i : Nat} {n : Nest} {f : Nest → Nest}

theorem map_engine_modify (hf : ∀ n, (f n).engine = n.engine) (ns : Nests) (i : Nat) :
    (ns.modify i f).map Nest.engine = ns.map Nest.engine := by
  induction ns generalizing i with
  | nil => simp
  | cons a l ih => cases i <;> simp [hf, ih]

theorem unique_modify (hu : ns.Unique) (hf : ∀ n, (f n).engine = n.engine) (i : Nat) :
    Unique (ns.modify i f) := by
  rw [Unique, map_engine_modify hf]
  exact hu

theorem entry_modify (hu : ns.Unique) (hn : ns[i]? = some n) (hf : ∀ n, (f n).engine = n.engine)
    (e : Nat) : entry (ns.modify i f) e = if e = n.engine then f n else ns.entry e := by
  obtain ⟨hi, rfl⟩ := List.getElem?_eq_some_iff.1 hn
  have hu' := unique_modify hu hf i
  split
  · rename_i he
    have hm : f ns[i] ∈ ns.modify i f := by
      refine List.mem_of_getElem? (i := i) ?_
      simp [hi]
    rw [he, ← hf ns[i]]
    exact entry_of_mem hu' hm
  · rename_i he
    refine entry_congr hu hu' fun x hx => ?_
    have hne : ∀ j (hj : j < ns.length), ns[j] = x → j ≠ i := by
      rintro j hj rfl rfl
      exact he hx.symm
    constructor
    · intro hm
      obtain ⟨j, hj, rfl⟩ := List.getElem_of_mem hm
      have hji : i ≠ j := by
        rintro rfl
        exact he (by simpa [hf] using hx.symm)
      rw [List.getElem_modify, if_neg hji]
      exact List.getElem_mem _
    · intro hm
      obtain ⟨j, hj, rfl⟩ := List.getElem_of_mem hm
      have hji := hne j hj rfl
      refine List.mem_of_getElem? (i := j) ?_
      simp [Ne.symm hji, hj]

theorem position_ensure (ns : Nests) (e : Nat) : ∃ i, (ns.ensure e).position e = some i := by
  cases h : (ns.ensure e).position e with
  | some i => exact ⟨i, rfl⟩
  | none =>
    have hn := position_eq_none.1 h
    unfold ensure at hn
    cases hp : ns.position e with
    | some j =>
      obtain ⟨hlt, he, -⟩ := List.findIdx?_eq_some_iff_getElem.1 hp
      rw [hp] at hn
      exact absurd (by simpa using he) (hn _ (List.getElem_mem hlt))
    | none =>
      rw [hp] at hn
      exact absurd rfl (hn { engine := e } (by simp))

theorem update_eq (ns : Nests) (e : Nat) (f : Nest → Nest) :
    ∃ i, (ns.ensure e).position e = some i ∧ ns.update e f = (ns.ensure e).modify i f := by
  obtain ⟨i, hi⟩ := position_ensure ns e
  exact ⟨i, hi, by simp only [update, hi]⟩

theorem entry_update (hu : ns.Unique) (hf : ∀ n, (f n).engine = n.engine) (e e' : Nat) :
    (ns.update e f).entry e' = if e' = e then f (ns.entry e) else ns.entry e' := by
  have hue := unique_ensure hu e
  obtain ⟨i, hi, heq⟩ := update_eq ns e f
  obtain ⟨hlt, he, -⟩ := List.findIdx?_eq_some_iff_getElem.1 hi
  have he' : (ns.ensure e)[i].engine = e := by simpa using he
  have hm := entry_of_mem hue (List.getElem_mem hlt)
  rw [he', entry_ensure] at hm
  rw [heq, entry_modify hue (List.getElem?_eq_getElem hlt) hf, he', entry_ensure, hm]

theorem place_update (hu : ns.Unique) (hf : ∀ n, (f n).engine = n.engine) (e e' : Nat) (k : Kind) :
    (ns.update e f).place e' k = if e' = e then (f (ns.entry e)).place k else ns.place e' k := by
  rw [place, entry_update hu hf]
  split <;> rfl

theorem unique_update (hu : ns.Unique) (hf : ∀ n, (f n).engine = n.engine) (e : Nat) :
    (ns.update e f).Unique := by
  obtain ⟨i, -, heq⟩ := update_eq ns e f
  rw [heq]
  exact unique_modify (unique_ensure hu e) hf _

theorem unique_swapRemove (hu : ns.Unique) (hi : i < ns.length) : Unique (swapRemove ns i) := by
  have hp := (swapRemove_perm hi).map Nest.engine
  exact hp.nodup_iff.2 (((List.eraseIdx_sublist ns i).map Nest.engine).nodup hu)

theorem engine_ne_of_mem_swapRemove (hu : ns.Unique) (hn : ns[i]? = some n) {x : Nest}
    (hx : x ∈ swapRemove ns i) : x.engine ≠ n.engine := by
  obtain ⟨hi, rfl⟩ := List.getElem?_eq_some_iff.1 hn
  have hperm : (ns[i] :: ns.eraseIdx i).Perm ns := List.getElem_cons_eraseIdx_perm hi
  have hnd := (hperm.map Nest.engine).nodup_iff.2 hu
  intro he
  exact (List.nodup_cons.1 hnd).1 (he ▸ List.mem_map_of_mem ((swapRemove_perm hi).mem_iff.1 hx))

theorem entry_swapRemove (hu : ns.Unique) (hn : ns[i]? = some n) (e : Nat) :
    entry (swapRemove ns i) e = if e = n.engine then { engine := e } else ns.entry e := by
  obtain ⟨hi, rfl⟩ := List.getElem?_eq_some_iff.1 hn
  have hp := swapRemove_perm hi
  have hperm : (ns[i] :: ns.eraseIdx i).Perm ns := List.getElem_cons_eraseIdx_perm hi
  split
  · rename_i he
    exact entry_of_not_mem fun x hx => he ▸ engine_ne_of_mem_swapRemove hu hn hx
  · rename_i he
    refine entry_congr hu (unique_swapRemove hu hi) fun x hx => ?_
    rw [hp.mem_iff, ← hperm.mem_iff (a := x), List.mem_cons]
    have hne : x ≠ ns[i] := fun h => he (by rw [← hx, h])
    simp [hne]

theorem openPosition_eq_some (hu : ns.Unique) {e : Nat} {k : Kind}
    (h : ns.openPosition e k = some i) :
    ns[i]? = some (ns.entry e) ∧ (ns.entry e).depth.get k ≠ 0 := by
  obtain ⟨hlt, hp, -⟩ := List.findIdx?_eq_some_iff_getElem.1 h
  simp only [Bool.and_eq_true, decide_eq_true_eq, bne_iff_ne] at hp
  have hm := entry_of_mem hu (List.getElem_mem hlt)
  rw [hp.1] at hm
  rw [hm]
  exact ⟨List.getElem?_eq_getElem hlt, hp.2⟩

theorem openPosition_eq_none {e : Nat} {k : Kind} (h : ns.openPosition e k = none) :
    ns.depth e k = 0 := by
  rw [depth_eq]
  by_contra hd
  by_cases hex : ∃ n, ns.find? (·.engine = e) = some n
  · obtain ⟨n, hn⟩ := hex
    have hen : ns.entry e = n := by simp [entry, hn]
    have hpn := List.findIdx?_eq_none_iff.1 h n (List.mem_of_find?_eq_some hn)
    have he : n.engine = e := by simpa using List.find?_some hn
    rw [hen] at hd
    simp [he, hd] at hpn
  · have hn : ns.find? (·.engine = e) = none := by
      cases hf : ns.find? (·.engine = e) with
      | none => rfl
      | some n => exact absurd ⟨n, hf⟩ hex
    exact hd (by simp [entry, hn])

end Nests

end GracePeriod
