import Mathlib.Data.List.Nodup
import GracePeriod.Proofs.SchedulerEffects
import GracePeriod.Proofs.Order
import GracePeriod.Proofs.SectionMoves

namespace GracePeriod

namespace History

/-- No outermost lock has panicked: a lock that has was made inside an open section. -/
def NoneStranded : History → Prop
  | [] => True
  | (t, .lockPanicked) :: h => (∃ x ∈ sections h, x.thread = t) ∧ NoneStranded h
  | _ :: h => NoneStranded h

variable {vs h : History} {w : Nat}

theorem NoneStranded.tail {p : Nat × Mark} (hs : NoneStranded (p :: h)) : NoneStranded h := by
  obtain ⟨t, v⟩ := p
  cases v with
  | lockPanicked => exact hs.2
  | _ => exact hs

theorem NoneStranded.suffix (hs : NoneStranded (vs ++ h)) : NoneStranded h := by
  induction vs with
  | nil => exact hs
  | cons p vs ih => exact ih hs.tail

theorem noneStranded_of_not_mem (hp : ∀ t, (t, Mark.lockPanicked) ∉ h) : NoneStranded h := by
  induction h with
  | nil => trivial
  | cons p h ih =>
    have ht := ih fun t ht => hp t (List.mem_cons_of_mem _ ht)
    obtain ⟨t, v⟩ := p
    cases v with
    | lockPanicked => exact absurd List.mem_cons_self (hp t)
    | _ => exact ht

theorem sections_append_still (hv : ∀ p ∈ vs, p.2.isStill = true) :
    sections (vs ++ h) = sections h := by
  induction vs with
  | nil => rfl
  | cons p vs ih =>
    have hp := hv p List.mem_cons_self
    rw [List.cons_append, sections_still hp, ih fun q hq => hv q (List.mem_cons_of_mem _ hq)]

theorem age_append_still (hv : ∀ p ∈ vs, p.2.isStill = true) : age w (vs ++ h) = age w h := by
  induction vs with
  | nil => rfl
  | cons p vs ih =>
    have hp := hv p List.mem_cons_self
    rw [List.cons_append, age_still hp, ih fun q hq => hv q (List.mem_cons_of_mem _ hq)]

/-- The slots that the open sections on a record hold. -/
def slotsOn (h : History) (w : Nat) : List Nat := (sectionsOn h w).map Section.slot

theorem slotsOn_eq_nil : slotsOn h w = [] ↔ sectionsOn h w = [] := List.map_eq_nil_iff

theorem mem_slotsOn {i : Nat} : i ∈ slotsOn h w ↔ ∃ x ∈ sections h, x.worker = w ∧ x.slot = i := by
  simp only [slotsOn, List.mem_map, mem_sectionsOn, and_assoc]

theorem slotsOn_opened (t v i : Nat) : slotsOn ((t, .opened v i) :: h) w =
    if v = w then i :: slotsOn h w else slotsOn h w := by
  simp only [slotsOn, sectionsOn, sections, List.filter_cons, decide_eq_true_eq]
  split <;> rfl

theorem slotsOn_closed {t v i : Nat} (hx : ⟨t, v, i⟩ ∈ sections h) :
    (slotsOn ((t, .closed v i) :: h) w).Perm
      (if v = w then (slotsOn h w).erase i else slotsOn h w) := by
  have hp := List.perm_cons_erase hx
  have hs := (hp.filter (fun x : Section => decide (x.worker = w))).map Section.slot
  rw [List.filter_cons] at hs
  by_cases hv : v = w
  · have hi : i ∈ slotsOn h w := mem_slotsOn.2 ⟨_, hx, hv, rfl⟩
    rw [if_pos (by simpa using hv), List.map_cons] at hs
    rw [if_pos hv]
    exact (List.Perm.cons_inv ((List.perm_cons_erase hi).symm.trans hs)).symm
  · rw [if_neg (by simpa using hv)] at hs
    rw [if_neg hv]
    exact hs.symm

end History

open History

/-- The state of a domain agrees with the sections that are open. -/
structure Accounts (m : Machine) (e : Nat) (k : Kind) : Prop where
  mem_iff : ∀ x : Section, x ∈ sections (m.history e k) ↔
    m.place x.thread e k = some (x.worker, x.slot)
  nodup : (sections (m.history e k)).Nodup
  holds : ∀ w, ((m.domain e k).records.get w).Holds (slotsOn (m.history e k) w)
  registered : ∀ x ∈ sections (m.history e k), x.worker < (m.domain e k).workers ∧
    ((m.domain e k).records.get x.worker).registered = true
  epoch : ∀ x ∈ sections (m.history e k), (m.domain e k).epoch =
    ((m.domain e k).records.get x.worker).word.epoch +
      UInt32.ofNat (age x.worker (m.history e k))

namespace Accounts

variable {m m' : Machine} {t e w i : Nat} {k : Kind}

theorem place_eq_none (h : Accounts m e k) (hp : m.place t e k = none) :
    ∀ x ∈ sections (m.history e k), x.thread ≠ t := by
  rintro x hx rfl
  rw [(h.mem_iff x).1 hx] at hp
  cases hp

theorem eq_of_place {u : Nat} (h : Accounts m e k) (ht : m.place t e k = some (w, i))
    (hu : m.place u e k = some (w, i)) : t = u := by
  have hx := mem_sectionsOn.2 ⟨(h.mem_iff ⟨t, w, i⟩).2 ht, rfl⟩
  have hy := mem_sectionsOn.2 ⟨(h.mem_iff ⟨u, w, i⟩).2 hu, rfl⟩
  exact congrArg Section.thread (List.inj_on_of_nodup_map (h.holds w).nodup hx hy rfl)

theorem sections_eq_nil (h : Accounts m e k) (hw : (m.domain e k).workers = 0) :
    sections (m.history e k) = [] := by
  refine List.eq_nil_iff_forall_not_mem.2 fun x hx => ?_
  have := (h.registered x hx).1
  omega

theorem new {workers : List Nat} {host : Nat} (h : Machine.new workers host = .ok m) :
    Accounts m e k := by
  obtain ⟨cs, -, rfl⟩ := Machine.new_eq h
  have hp (u : Nat) : Machine.place { schedulers := ⟨cs⟩, named := workers.length,
                                      hostWorkers := host } u e k = none := by
    rw [Machine.place, Machine.nests, Machine.thread, Table.get_empty]
    exact Nests.place_nil e k
  have hr (w : Nat) : ((Machine.domain { schedulers := ⟨cs⟩, named := workers.length,
                                         hostWorkers := host } e k).records.get w) = {} := by
    rw [Machine.domain, Machine.engine, Table.get_empty]
    cases k <;> exact Table.get_empty w
  refine ⟨fun x => ?_, List.nodup_nil, fun w => ?_, fun x hx => absurd hx List.not_mem_nil,
    fun x hx => absurd hx List.not_mem_nil⟩
  · rw [hp]
    simp [sections, Machine.history]
  · rw [hr]
    exact .nil rfl rfl

theorem still (h : Accounts m e k) (hs : Machine.Still e k m m') : Accounts m' e k := by
  obtain ⟨vs, hv, hh⟩ := hs.history
  have hsec : sections (m'.history e k) = sections (m.history e k) := by
    rw [hh, sections_append_still hv]
  have hage (w : Nat) : age w (m'.history e k) = age w (m.history e k) := by
    rw [hh, age_append_still hv]
  have hslots (w : Nat) : slotsOn (m'.history e k) w = slotsOn (m.history e k) w := by
    rw [slotsOn, sectionsOn, hsec]
    rfl
  constructor
  · intro x
    rw [hsec, hs.place, h.mem_iff]
  · rw [hsec]
    exact h.nodup
  · intro w
    rw [hslots, hs.domain]
    exact h.holds w
  · intro x hx
    rw [hsec] at hx
    rw [hs.domain]
    exact h.registered x hx
  · intro x hx
    rw [hsec] at hx
    rw [hs.domain, hage]
    exact h.epoch x hx

theorem opening (h : Accounts m e k) (ho : Machine.Opening t e k w i m m') : Accounts m' e k := by
  obtain ⟨hfree, hholds, hreg, hepoch, -⟩ := (h.holds w).enter ho.entered
  have hout := h.place_eq_none ho.outside
  have hdom (v : Nat) : (m'.domain e k).records.get v = if v = w then
      (((m.domain e k).records.get w).enter (m.domain e k).epoch
        (m.taskId t (m.engine e).access.scheduler)).1 else (m.domain e k).records.get v := by
    rw [ho.domain, Domain.get_setRecord]
  have hsec : sections (m'.history e k) = ⟨t, w, i⟩ :: sections (m.history e k) := by
    rw [ho.history]
    rfl
  constructor
  · intro x
    rw [hsec, List.mem_cons, ho.place, h.mem_iff]
    split
    · rename_i hx
      rw [hx, ho.outside]
      obtain ⟨u, v, j⟩ := x
      subst hx
      simp only [Section.mk.injEq, Option.some.injEq, Prod.mk.injEq, reduceCtorEq, or_false,
        true_and]
      exact ⟨fun ⟨hv, hj⟩ => ⟨hv.symm, hj.symm⟩, fun ⟨hv, hj⟩ => ⟨hv.symm, hj.symm⟩⟩
    · rename_i hx
      have hne : x ≠ ⟨t, w, i⟩ := fun hc => hx (by rw [hc])
      simp [hne]
  · rw [hsec]
    exact List.nodup_cons.2 ⟨fun hx => hout _ hx rfl, h.nodup⟩
  · intro v
    rw [ho.history, slotsOn_opened, hdom]
    by_cases hv : v = w
    · subst hv
      rw [if_pos rfl, if_pos rfl]
      exact hholds
    · rw [if_neg hv, if_neg (Ne.symm hv)]
      exact h.holds v
  · intro x hx
    rw [hsec] at hx
    rw [hdom, ho.domain, Domain.workers_setRecord]
    rcases List.mem_cons.1 hx with rfl | hx
    · rw [if_pos rfl, hreg]
      exact ⟨ho.inside, ho.registered⟩
    · obtain ⟨hw, hr⟩ := h.registered x hx
      split
      · rw [hreg]
        exact ⟨hw, ho.registered⟩
      · exact ⟨hw, hr⟩
  · intro x hx
    rw [hsec] at hx
    rw [ho.domain, Domain.epoch_setRecord, Domain.get_setRecord, ho.history]
    by_cases hxw : x.worker = w
    · rw [if_pos hxw, hepoch, hxw]
      simp only [age, true_and, ← slotsOn_eq_nil]
      by_cases hnil : slotsOn (m.history e k) w = []
      · rw [if_pos hnil, if_pos hnil]
        exact (UInt32.add_zero _).symm
      · obtain ⟨j, hj⟩ := List.exists_mem_of_ne_nil _ hnil
        obtain ⟨y, hy, hyw, -⟩ := mem_slotsOn.1 hj
        rw [if_neg hnil, if_neg hnil, ← hyw]
        exact h.epoch y hy
    · have hx' : x ∈ sections (m.history e k) := by
        rcases List.mem_cons.1 hx with rfl | hx'
        · exact absurd rfl hxw
        · exact hx'
      rw [if_neg hxw]
      simp only [age, Ne.symm hxw, false_and, if_false]
      exact h.epoch x hx'

theorem leave_ok (h : Accounts m e k) (hp : m.place t e k = some (w, i)) :
    (m.domain e k).onRecord w (·.leave i) =
      ((m.domain e k).setRecord w (((m.domain e k).records.get w).leave i).1, .ok ()) := by
  have hx := (h.mem_iff ⟨t, w, i⟩).2 hp
  obtain ⟨hok, -⟩ := (h.holds w).leave (mem_slotsOn.2 ⟨_, hx, rfl, rfl⟩)
  rw [Domain.onRecord_eq _ (h.registered _ hx).1, hok]

theorem closing (h : Accounts m e k) (hc : Machine.Closing t e k w i m m') : Accounts m' e k := by
  have hleave := h.leave_ok hc.inside
  have hx := (h.mem_iff ⟨t, w, i⟩).2 hc.inside
  obtain ⟨-, hholds, hreg, hepoch, -⟩ :=
    (h.holds w).leave (mem_slotsOn.2 ⟨_, hx, rfl, rfl⟩)
  have hh := hc.history (by rw [hleave])
  have hd := hc.domain
  rw [hleave] at hd
  have hdom (v : Nat) : (m'.domain e k).records.get v = if v = w then
      (((m.domain e k).records.get w).leave i).1 else (m.domain e k).records.get v := by
    rw [hd, Domain.get_setRecord]
  have hsec : sections (m'.history e k) = (sections (m.history e k)).erase ⟨t, w, i⟩ := by
    rw [hh]
    rfl
  constructor
  · intro x
    rw [hsec, h.nodup.mem_erase_iff, hc.place, h.mem_iff]
    split
    · rename_i hxt
      obtain ⟨u, v, j⟩ := x
      subst hxt
      rw [hc.inside]
      simp only [ne_eq, Section.mk.injEq, true_and, Option.some.injEq, Prod.mk.injEq, reduceCtorEq,
        iff_false, not_and]
      exact fun hne hw hi => hne hw.symm hi.symm
    · rename_i hxt
      have hne : x ≠ ⟨t, w, i⟩ := fun hc => hxt (by rw [hc])
      simp [hne]
  · rw [hsec]
    exact h.nodup.erase _
  · intro v
    rw [hh, hdom]
    have hp := slotsOn_closed (w := v) hx
    by_cases hv : v = w
    · subst hv
      rw [if_pos rfl] at hp
      rw [if_pos rfl]
      exact hholds.perm hp.symm
    · rw [if_neg (Ne.symm hv)] at hp
      rw [if_neg hv]
      exact (h.holds v).perm hp.symm
  · intro x hx
    rw [hsec] at hx
    obtain ⟨hw, hr⟩ := h.registered x (List.mem_of_mem_erase hx)
    rw [hdom, hd, Domain.workers_setRecord]
    split
    · rename_i hxw
      rw [hreg, ← hxw]
      exact ⟨hw, hr⟩
    · exact ⟨hw, hr⟩
  · intro x hx
    rw [hsec] at hx
    have hx' := h.epoch x (List.mem_of_mem_erase hx)
    rw [hd, Domain.epoch_setRecord, Domain.get_setRecord, hh]
    split
    · rename_i hxw
      rw [hepoch, ← hxw]
      exact hx'
    · exact hx'

theorem look_opening (h : Accounts m e k) (ho : Machine.Opening t e k w i m m') (v j : Nat) :
    ((m'.domain e k).records.get v).readers.look j = if v = w ∧ j = i then
        ⟨true, taskOfWord (m.taskId t (m.engine e).access.scheduler)⟩
      else ((m.domain e k).records.get v).readers.look j := by
  obtain ⟨-, -, -, -, hlook⟩ := (h.holds w).enter ho.entered
  rw [ho.domain, Domain.get_setRecord]
  by_cases hv : v = w
  · rw [if_pos hv, hlook, hv]
    simp
  · rw [if_neg hv, if_neg fun hc => hv hc.1]

theorem look_closing (h : Accounts m e k) (hc : Machine.Closing t e k w i m m') (v j : Nat) :
    ((m'.domain e k).records.get v).readers.look j = if v = w ∧ j = i then ⟨false, none⟩
      else ((m.domain e k).records.get v).readers.look j := by
  have hx := (h.mem_iff ⟨t, w, i⟩).2 hc.inside
  obtain ⟨-, -, -, -, hlook⟩ := (h.holds w).leave (mem_slotsOn.2 ⟨_, hx, rfl, rfl⟩)
  rw [hc.domain, h.leave_ok hc.inside, Domain.get_setRecord]
  by_cases hv : v = w
  · rw [if_pos hv, hlook, hv]
    simp
  · rw [if_neg hv, if_neg fun hc => hv hc.1]

theorem registering (h : Accounts m e k) (hp : ∀ u, m'.place u e k = m.place u e k)
    (hd : m'.domain e k = ((m.domain e k).register w).1)
    (hh : m'.history e k = m.history e k) : Accounts m' e k := by
  constructor
  · intro x
    rw [hh, hp, h.mem_iff]
  · rw [hh]
    exact h.nodup
  · intro v
    obtain ⟨-, -, b, hb, -⟩ := (m.domain e k).register_get w v
    rw [hh, hd, hb]
    exact (h.holds v).registered b
  · intro x hx
    rw [hh] at hx
    obtain ⟨hw, hr⟩ := h.registered x hx
    obtain ⟨-, hn, b, hb, htrue⟩ := (m.domain e k).register_get w x.worker
    rw [hd, hn, hb]
    exact ⟨hw, htrue hr⟩
  · intro x hx
    rw [hh] at hx
    obtain ⟨he, -, b, hb, -⟩ := (m.domain e k).register_get w x.worker
    rw [hd, he, hb, hh]
    exact h.epoch x hx

theorem advancing (h : Accounts m e k) {target : UInt32}
    (hp : ∀ u, m'.place u e k = m.place u e k) (hd : m'.domain e k = (m.domain e k).advance)
    (hh : m'.history e k = (t, .advanced target) :: m.history e k) : Accounts m' e k := by
  have hsec : sections (m'.history e k) = sections (m.history e k) := by
    rw [hh]
    rfl
  constructor
  · intro x
    rw [hsec, hp, h.mem_iff]
  · rw [hsec]
    exact h.nodup
  · intro v
    rw [hd, slotsOn, sectionsOn, hsec]
    exact h.holds v
  · intro x hx
    rw [hsec] at hx
    rw [hd]
    exact h.registered x hx
  · intro x hx
    rw [hsec] at hx
    rw [hd, hh]
    simp only [Domain.advance, age, UInt32.ofNat_add, ← UInt32.add_assoc]
    rw [← h.epoch x hx]
    rfl

theorem founding (h : Accounts m e k) (hp : ∀ u, m'.place u e k = m.place u e k)
    (hw : (m.domain e k).workers = 0)
    (hd : ∀ w, ((m'.domain e k).records.get w).word.active = 0 ∧
      ((m'.domain e k).records.get w).readers = {})
    (hh : m'.history e k = m.history e k) : Accounts m' e k := by
  have hnil : sections (m'.history e k) = [] := by
    rw [hh]
    exact h.sections_eq_nil hw
  constructor
  · intro x
    rw [hp, ← h.mem_iff, hh]
  · rw [hnil]
    exact List.nodup_nil
  · intro v
    rw [slotsOn, sectionsOn, hnil]
    exact .nil (hd v).1 (hd v).2
  · rw [hnil]
    simp
  · rw [hnil]
    simp

/-- One move of any thread keeps the accounts, unless it strands a thread. -/
theorem change (h : Accounts m e k) (hc : Machine.SectionChange t e k m m')
    (hs : NoneStranded (m'.history e k)) : Accounts m' e k := by
  cases hc with
  | still hc => exact h.still hc
  | opening w i hc => exact h.opening hc
  | closing w i hc => exact h.closing hc
  | stranding hc =>
    rw [hc.history] at hs
    obtain ⟨⟨x, hx, hxt⟩, -⟩ := hs
    exact absurd hxt (h.place_eq_none hc.outside x hx)
  | registering w hp hd hh => exact h.registering hp hd hh
  | advancing hp hd hh => exact h.advancing hp hd hh
  | founding he hp hw hd hh => exact h.founding hp hw hd hh

theorem count_eq (h : Accounts m e k) (w : Nat) :
    ((m.domain e k).records.get w).word.active.toNat =
      (sectionsOn (m.history e k) w).length := by
  rw [(h.holds w).count, slotsOn, List.length_map]

end Accounts

namespace Machine

variable {m m' : Machine} {t e : Nat} {k : Kind}

theorem KeepsEngines.still (h : KeepsEngines m m') (e : Nat) (k : Kind) : Still e k m m' :=
  .of_eq h.nests (congrArg (fun x : Table Engine => (x.get e).domain k) h.engines) (h.history e k)

theorem Served.still (h : Served m m') (e : Nat) (k : Kind) : Still e k m m' :=
  .of_eq h.nests (congrArg (·.domain k) (h.engine e)) (h.history e k)

theorem Change.move_or_aside (h : Change m m') :
    (∃ t, m.turn = some t ∧ Move .all t m m') ∨ KeepsEngines m m' := by
  cases h with
  | move ht h => exact .inl ⟨_, ht, h⟩
  | leave ht h => exact .inr h.keepsEngines
  | pick hn hr => exact .inr ⟨fun _ => rfl, rfl, rfl⟩
  | external h => exact .inr h.keepsEngines

theorem Change.sectionChange (h : Change m m') (hu : m.NestsUnique) (e : Nat) (k : Kind) :
    ∃ t, SectionChange t e k m m' := by
  rcases h.move_or_aside with ⟨t, -, h⟩ | h
  · exact ⟨t, h.sectionChange hu e k⟩
  · exact ⟨0, .still (h.still e k)⟩

theorem Change.unique (h : Change m m') (hu : m.NestsUnique) : m'.NestsUnique := by
  rcases h.move_or_aside with ⟨t, -, h⟩ | h
  · exact h.unique hu
  · intro u
    rw [h.nests]
    exact hu u

theorem Change.history (h : Change m m') (e : Nat) (k : Kind) :
    ∃ vs, m'.history e k = vs ++ m.history e k := by
  rcases h.move_or_aside with ⟨t, -, h⟩ | h
  · obtain ⟨vs, hh, -⟩ := h.history e k
    exact ⟨vs, hh⟩
  · obtain ⟨vs, -, hh⟩ := (h.still e k).history
    exact ⟨vs, hh⟩

theorem Changes.history (h : Changes m m') (e : Nat) (k : Kind) :
    ∃ vs, m'.history e k = vs ++ m.history e k := by
  induction h with
  | refl => exact ⟨[], rfl⟩
  | tail _ hc ih =>
    obtain ⟨vs, hh⟩ := ih
    obtain ⟨vs', hh'⟩ := hc.history e k
    exact ⟨vs' ++ vs, by rw [hh', hh, List.append_assoc]⟩

theorem Visited.nestsUnique (h : Visited m) : m.NestsUnique := by
  refine h.induction (fun workers host m hm u => ?_) fun _ _ hu hc => hc.unique hu
  obtain ⟨cs, -, rfl⟩ := new_eq hm
  rw [nests, thread, Table.get_empty]
  exact List.nodup_nil

/-- As long as no outermost lock has panicked, the accounts of every domain are right. -/
theorem Visited.accounts (h : Visited m) (hs : (m.history e k).NoneStranded) :
    Accounts m e k := by
  have hind : m.NestsUnique ∧ ((m.history e k).NoneStranded → Accounts m e k) := by
    refine h.induction (P := fun m => m.NestsUnique ∧ ((m.history e k).NoneStranded → Accounts m e k))
      (fun workers host m hm => ?_) fun m m' hm hc => ?_
    · exact ⟨(Reachable.new hm).visited.nestsUnique, fun _ => .new hm⟩
    · obtain ⟨t, hsc⟩ := hc.sectionChange hm.1 e k
      obtain ⟨vs, hh⟩ := hc.history e k
      refine ⟨hc.unique hm.1, fun hs => ?_⟩
      have hs' := hs
      rw [hh] at hs'
      exact (hm.2 hs'.suffix).change hsc hs
  exact hind.2 hs

end Machine

end GracePeriod
