import GracePeriod.Proofs.GraceRelease
import GracePeriod.Proofs.Seats
import GracePeriod.Proofs.Undisturbed

namespace GracePeriod

namespace History

/-- The threads that have advanced the epoch in calls that have not come to their end. -/
def outstanding : History → List Nat
  | [] => []
  | (t, .advanced _) :: h => t :: outstanding h
  | (t, .synchronizeReturned) :: h | (t, .synchronizePanicked) :: h => (outstanding h).erase t
  | _ :: h => outstanding h

/-- The threads that have advanced the epoch since the record last went from no reader to one. -/
def callers (w : Nat) : History → List Nat
  | [] => []
  | (_, .opened v _) :: h => if v = w ∧ sectionsOn h w = [] then [] else callers w h
  | (t, .advanced _) :: h => t :: callers w h
  | _ :: h => callers w h

/-- Whoever has advanced the epoch since a record became active has not come back yet. -/
def Awaited (h : History) : Prop :=
  ∀ w, sectionsOn h w ≠ [] → (callers w h).Sublist (outstanding h)

variable {h vs mid : History} {w t u : Nat} {target : UInt32} {p : Nat × Mark}

theorem length_callers (w : Nat) (h : History) : (callers w h).length = age w h := by
  induction h with
  | nil => rfl
  | cons p h ih =>
    obtain ⟨t, v⟩ := p
    cases v with
    | opened v i =>
      simp only [callers, age]
      split
      · rfl
      · exact ih
    | advanced target => exact congrArg (· + 1) ih
    | _ => exact ih

theorem outstanding_append (hv : ∀ p ∈ vs, p.2.isGrace = false) :
    outstanding (vs ++ h) = outstanding h := by
  induction vs with
  | nil => rfl
  | cons p vs ih =>
    have hp := hv p List.mem_cons_self
    have ih := ih fun q hq => hv q (List.mem_cons_of_mem _ hq)
    obtain ⟨t, v⟩ := p
    cases v <;> first | exact ih | cases hp

theorem callers_opening (hn : sectionsOn h w = []) (hs : sectionsOn (p :: h) w ≠ []) :
    callers w (p :: h) = [] :=
  List.length_eq_zero_iff.1 ((length_callers w _).trans (age_opening hn hs))

namespace Awaited

theorem cons (ha : Awaited h) (hr : p.2 ≠ .synchronizeReturned) (hp : p.2 ≠ .synchronizePanicked) :
    Awaited (p :: h) := by
  intro w hs
  by_cases hn : sectionsOn h w = []
  · rw [callers_opening hn hs]
    exact List.nil_sublist _
  · obtain ⟨t, v⟩ := p
    cases v with
    | opened v i =>
      rw [callers, if_neg fun hc => hn hc.2]
      exact ha w hn
    | advanced target => exact (ha w hn).cons_cons t
    | synchronizeReturned => exact absurd rfl hr
    | synchronizePanicked => exact absurd rfl hp
    | _ => exact ha w hn

theorem append (ha : Awaited h) (hv : ∀ p ∈ vs, p.2.isGrace = false) : Awaited (vs ++ h) := by
  induction vs with
  | nil => exact ha
  | cons p vs ih =>
    have hp := hv p List.mem_cons_self
    refine (ih fun q hq => hv q (List.mem_cons_of_mem _ hq)).cons ?_ ?_ <;>
    · intro hc
      rw [hc] at hp
      cases hp

theorem returned (ha : Awaited h) (ht : ∀ w, sectionsOn h w ≠ [] → t ∉ callers w h) :
    Awaited ((t, .synchronizeReturned) :: h) := by
  intro w hs
  have he := (ha w hs).erase t
  rwa [List.erase_of_not_mem (ht w hs)] at he

end Awaited

/-- A record that was active at the last call of a thread has aged with every advance since. -/
theorem age_of_caller (hu : u ∈ callers w (mid ++ h)) (hm : ∀ p ∈ mid, p.1 ≠ u) :
    age w (mid ++ h) = age w h + advances mid := by
  induction mid with
  | nil => rfl
  | cons p mid ih =>
    have ih := fun hu => ih hu fun q hq => hm q (List.mem_cons_of_mem _ hq)
    have hp := hm p List.mem_cons_self
    obtain ⟨t, v⟩ := p
    cases v with
    | opened v i =>
      simp only [List.cons_append, callers] at hu
      split at hu
      · cases hu
      · rename_i hc
        simp only [List.cons_append, age, hc, if_false]
        exact ih hu
    | advanced target =>
      rcases List.mem_cons.1 hu with hu | hu
      · exact absurd hu.symm hp
      · simp only [List.cons_append, age, advances, ih hu]
        omega
    | _ => exact ih hu

end History

open History

variable {m m' : Machine} {t u e w : Nat} {k : Kind} {target : UInt32} {pre : History}

theorem Accounts.isBefore_of_caller (ha : Accounts m e k) (hw : m.Waits u e k target pre)
    (hs : sectionsOn (m.history e k) w ≠ []) (hu : u ∈ callers w (m.history e k))
    (hage : age w (m.history e k) < 2 ^ 31) :
    isBefore ((m.domain e k).records.get w).word.epoch target = true := by
  obtain ⟨mid, hh, hm, he⟩ := hw.split
  have hold : age w (m.history e k) =
      age w ((u, .synchronizeCalled) :: pre) + 1 + advances mid := by
    rw [hh] at hu ⊢
    exact age_of_caller hu hm
  exact isBefore_of_lt (ha.epoch_of_active hs) he (by omega) (by omega)

namespace Machine

/-- Who waits for the end of a grace period, and who has to wait for which record. -/
structure Bounded (m : Machine) (e : Nat) (k : Kind) : Prop where
  nodup : (outstanding (m.history e k)).Nodup
  mem_iff : ∀ u, u ∈ outstanding (m.history e k) ↔ Waiting m u e k
  awaited : Awaited (m.history e k)

namespace Bounded

theorem length_le (h : Bounded m e k) : (outstanding (m.history e k)).length ≤ m.threads.size := by
  have hsub : outstanding (m.history e k) ⊆ List.range m.threads.size := fun u hu =>
    List.mem_range.2 ((h.mem_iff u).1 hu).lt_size
  exact ((h.nodup.subperm hsub).length_le).trans_eq List.length_range

/-- No active record is older than there are threads. -/
theorem age_le (h : Bounded m e k) (hs : sectionsOn (m.history e k) w ≠ []) :
    age w (m.history e k) ≤ (outstanding (m.history e k)).length := by
  rw [← length_callers]
  exact (h.awaited w hs).length_le

theorem same (h : Bounded m e k) (hh : m'.history e k = m.history e k)
    (hw : ∀ u, Waiting m' u e k ↔ Waiting m u e k) : Bounded m' e k := by
  refine ⟨?_, fun u => ?_, ?_⟩ <;> rw [hh]
  · exact h.nodup
  · rw [hw]
    exact h.mem_iff u
  · exact h.awaited

theorem not_caller (h : Bounded m e k) (ha : Accounts m e k) (hlt : m.threads.size < 2 ^ 31)
    (hw : Waits m t e k target pre) (hb : (m.domain e k).firstBlocker? target = none)
    (hs : sectionsOn (m.history e k) w ≠ []) : t ∉ callers w (m.history e k) := by
  intro ht
  have hage := ((h.age_le hs).trans h.length_le).trans_lt hlt
  have hbefore := ha.isBefore_of_caller hw hs ht hage
  have hblocks := ha.not_blocks hb hs
  simp [ReaderWord.blocks, hbefore, ha.active_ne_zero.2 hs] at hblocks

theorem turn (h : Bounded m e k) (ha : Accounts m e k) (hlt : m.threads.size < 2 ^ 31)
    (hr : Returns t e k m m') (hl : Waiting m t e k → Proceeds m t ∧ ∀ target, ¬m.Lost e k target)
    (hu : ∀ u, u ≠ t → (Waiting m' u e k ↔ Waiting m u e k)) : Bounded m' e k := by
  cases hr with
  | quiet hq hw hc =>
    obtain ⟨vs, hh, hv⟩ := hq
    have hall (u : Nat) : Waiting m' u e k ↔ Waiting m u e k := by
      by_cases hut : u = t
      · rw [hut]
        exact hw
      · exact hu u hut
    refine ⟨?_, fun u => ?_, ?_⟩ <;> rw [hh]
    · rw [outstanding_append hv]
      exact h.nodup
    · rw [outstanding_append hv, hall]
      exact h.mem_iff u
    · exact h.awaited.append hv
  | launched target vs hv hh hn hw hc =>
    have ho : outstanding (m'.history e k) = t :: outstanding (m.history e k) := by
      rw [hh]
      exact congrArg (t :: ·) (outstanding_append hv)
    refine ⟨?_, fun u => ?_, ?_⟩
    · rw [ho]
      exact List.nodup_cons.2 ⟨mt (h.mem_iff t).1 hn, h.nodup⟩
    · rw [ho, List.mem_cons]
      by_cases hut : u = t
      · rw [hut]
        exact iff_of_true (.inl rfl) hw
      · rw [hu u hut, h.mem_iff]
        exact or_iff_right hut
    · rw [hh]
      have hcalled : Awaited ((t, .synchronizeCalled) :: (vs ++ m.history e k)) :=
        (h.awaited.append hv).cons (by nofun) (by nofun)
      exact hcalled.cons (by nofun) (by nofun)
  | returned target pre hw hb hh hn =>
    have ho : outstanding (m'.history e k) = (outstanding (m.history e k)).erase t := by
      rw [hh]
      rfl
    refine ⟨?_, fun u => ?_, ?_⟩
    · rw [ho]
      exact h.nodup.erase t
    · rw [ho, h.nodup.mem_erase_iff]
      by_cases hut : u = t
      · rw [hut]
        exact iff_of_false (fun hc => hc.1 rfl) hn
      · rw [hu u hut, h.mem_iff]
        exact and_iff_right hut
    · rw [hh]
      exact h.awaited.returned fun w => h.not_caller ha hlt hw hb
  | broken hh hw hn hb =>
    obtain ⟨hgo, hfound⟩ := hl hn
    obtain ⟨target, hlost⟩ := hb hgo
    exact absurd hlost (hfound target)

end Bounded

theorem Undisturbed.bounded (h : Undisturbed e k m) (ht : m.threads.size < 2 ^ 31)
    (hs : NoneStranded (m.history e k)) : Bounded m e k := by
  induction h with
  | new hm =>
    obtain ⟨cs, -, rfl⟩ := new_eq hm
    refine ⟨List.nodup_nil, fun u => ?_, fun w hw => absurd rfl hw⟩
    refine iff_of_false List.not_mem_nil fun hw => hw.stack_ne_nil ?_
    exact congrArg Thread.stack (Table.get_empty u)
  | @begin m h s _ ih =>
    have hle := (begin_changes m s).threads_le
    have hh := Externals.history (begin_externals m s) e k
    rw [hh] at hs
    exact (ih (Nat.lt_of_le_of_lt hle ht) hs).same hh fun u =>
      waiting_of_stack (begin_stack h.reachable.visited.orderly s)
  | @step m _ h hb hst ih =>
    have hr := h.reachable
    have hlt := Nat.lt_of_le_of_lt (step_changes hb hst).threads_le ht
    obtain ⟨vs, hh⟩ := (step_changes hb hst).history e k
    have hback : NoneStranded (m.history e k) := (hh ▸ hs).suffix
    rcases step_cases hst with ⟨t, hturn, rfl⟩ | ⟨t, rest, hn, hrest, rfl⟩
    · have hsize := hr.visited.orderly.lt_size hturn
      have hreturns := (advance_graceState hb hturn hsize (hr.graceState t)).2 e k
      refine (ih hlt hback).turn (hr.visited.accounts hback) hlt hreturns (fun hw => ?_)
        fun u hu => ?_
      · exact ⟨h.proceeds t hw, fun target => hr.not_lost (hlt.trans (by decide))⟩
      · exact (advance_unmoved hb hturn hu).waiting
    · exact (ih hlt hback).same rfl fun _ => .rfl

/-- As long as there are fewer than `2 ^ 31` threads and nobody throws a panic into a wait, a record
with readers lies behind the epoch by at most the number of calls that have advanced the epoch and
have not returned. So `isBefore` is right about the epoch of the record and every epoch since, and
whoever has advanced the epoch since the record became active is still waiting and finds the record
before its target. Who called earlier is not held up by the record, up to `2 ^ 31` advances later
(`Accounts.blocks_of_le`). -/
theorem epoch_distance_le (h : Undisturbed e k m) (ht : m.threads.size < 2 ^ 31)
    (hp : ∀ u, (u, Mark.lockPanicked) ∉ m.history e k) {r : ReaderWord}
    (hr : r = ((m.domain e k).records.get w).word) (ha : r.active ≠ 0) :
    ((m.domain e k).epoch - r.epoch).toNat ≤ (outstanding (m.history e k)).length ∧
      (∀ n ≤ ((m.domain e k).epoch - r.epoch).toNat,
        isBefore r.epoch (r.epoch + UInt32.ofNat n) = decide (0 < n)) ∧
      ∀ u ∈ callers w (m.history e k), ∃ c target, .grace e k c target ∈ (m.thread u).stack ∧
        isBefore r.epoch target = true := by
  subst hr
  have hs := noneStranded_of_not_mem hp
  have hacc := h.reachable.visited.accounts hs
  have hbound := h.bounded ht hs
  have hopen := hacc.active_ne_zero.1 ha
  have hage := hbound.age_le hopen
  have hlt := (hage.trans hbound.length_le).trans_lt ht
  have hdist : ((m.domain e k).epoch - ((m.domain e k).records.get w).word.epoch).toNat =
      age w (m.history e k) :=
    toNat_sub_of_back (hacc.epoch_of_active hopen) (UInt32.add_zero _).symm (Nat.zero_le _)
      (by omega)
  rw [hdist]
  refine ⟨hage, fun n hn => ?_, fun u hu => ?_⟩
  · have hn' : (((m.domain e k).records.get w).word.epoch + UInt32.ofNat n -
        ((m.domain e k).records.get w).word.epoch).toNat = n :=
      toNat_sub_of_back rfl (UInt32.add_zero _).symm (Nat.zero_le _) (by omega)
    rw [Bool.eq_iff_iff, isBefore_iff, hn', decide_eq_true_eq]
    omega
  · obtain ⟨c, target, hf⟩ := (hbound.mem_iff u).1 ((hbound.awaited w hopen).subset hu)
    obtain ⟨pre, hw⟩ := (h.reachable.graceState u).waits hf
    exact ⟨c, target, hf, hacc.isBefore_of_caller hw hopen hu hlt⟩

/-- A reader is inside when two threads call, and the epoch wraps around. -/
def wrapCallers : Machine :=
  let m := (sample.perform (.act 0 (.handle 0 (.readLock .regular)))).1
  let m := (m.perform (.act 1 (.handle 0 (.synchronize .regular)))).1
  (m.perform (.act 2 (.handle 0 (.synchronize .regular)))).1

theorem undisturbed_wrapCallers : Undisturbed 0 .regular wrapCallers := by
  have h : Undisturbed 0 .regular sample :=
    (@Undisturbed.new 0 .regular [1] 1 _ rfl).perform 0 _ (by decide +kernel)
  have h := h.perform 0 (.handle 0 (.readLock .regular)) (by decide +kernel)
  have h := h.perform 1 (.handle 0 (.synchronize .regular)) (by decide +kernel)
  exact h.perform 2 (.handle 0 (.synchronize .regular)) (by decide +kernel)

theorem wrapped_epoch_distance :
    Undisturbed 0 .regular wrapCallers ∧ wrapCallers.threads.size < 2 ^ 31 ∧
      (wrapCallers.domain 0 .regular).epoch = 1 ∧
      ((wrapCallers.domain 0 .regular).records.get 0).word = .pack 0xFFFFFFFF 1 ∧
      ((1 : UInt32) - 0xFFFFFFFF).toNat ≤ (outstanding (wrapCallers.history 0 .regular)).length ∧
      isBefore 0xFFFFFFFF 1 = true ∧
      ∃ c target, .grace 0 .regular c target ∈ (wrapCallers.thread 3).stack ∧
        isBefore 0xFFFFFFFF target = true := by
  have hh : wrapCallers.history 0 .regular = [(4, .advanced 1), (4, .synchronizeCalled),
      (3, .advanced 0), (3, .synchronizeCalled), (0, .opened 0 0)] := rfl
  have he : (wrapCallers.domain 0 .regular).epoch = 1 := by decide +kernel
  have hr : ((wrapCallers.domain 0 .regular).records.get 0).word = .pack 0xFFFFFFFF 1 := by
    decide +kernel
  have hlt : wrapCallers.threads.size < 2 ^ 31 := by decide +kernel
  obtain ⟨hd, hb, hc⟩ := epoch_distance_le undisturbed_wrapCallers hlt (by rw [hh]; simp) hr.symm
    (by simp)
  rw [he] at hd hb
  refine ⟨undisturbed_wrapCallers, hlt, he, hr, hd, ?_, ?_⟩
  · exact hb 2 (by decide)
  · have h := hc 3 (by rw [hh]; simp [callers])
    simpa using h

end Machine

end GracePeriod
