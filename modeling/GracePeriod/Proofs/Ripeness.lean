import GracePeriod.Proofs.GraceSafety
import GracePeriod.Proofs.Ledger

namespace GracePeriod

namespace History

/-- No record has stayed active while the epoch went half its way round. -/
def NoneStale (h : History) : Prop :=
  ∀ vs past w, h = vs ++ past → sectionsOn past w ≠ [] → age w past < 2 ^ 31

structure Fair (h : History) : Prop where
  stranded : NoneStranded h
  skipped : ∀ t, (t, .skipped) ∉ h
  stale : NoneStale h

/-- The callback was the `i`-th to be enqueued, and whoever was inside then has left. -/
def Ripe (h : History) (i : Nat) (c : Callback) : Prop :=
  ∃ mid u pre, h = mid ++ (u, .queued c) :: pre ∧ (queued pre).length = i ∧
    ∀ x ∈ sections pre, (x.thread, .closed x.worker x.slot) ∈ mid

/-- The first callbacks are ripe. -/
def Ripened (h : History) (cs : List Callback) : Prop :=
  h.Fair → ∀ i c, cs[i]? = some c → Ripe h i c

/-- Callbacks have started in the order of the queue, and when they were ripe. -/
def InOrder (h : History) : Prop :=
  h.Each fun _ v past => ∀ c, v = .callbackStarted c →
    (queued past)[(started past).length]? = some c ∧
      (Fair past → Ripe past (started past).length c)

variable {vs h mid pre : History} {cs cs' : List Callback} {t i : Nat} {c : Callback}

theorem Fair.suffix (hf : Fair (vs ++ h)) : Fair h := by
  refine ⟨hf.stranded.suffix, fun t ht => hf.skipped t (List.mem_append_right _ ht), ?_⟩
  rintro vs' past w rfl
  exact hf.stale (vs ++ vs') past w (List.append_assoc ..).symm

theorem age_le_advances (w : Nat) (h : History) : age w h ≤ advances h := by
  induction h with
  | nil => exact Nat.le_refl _
  | cons p h ih =>
    obtain ⟨t, v⟩ := p
    cases v with
    | opened v i =>
      simp only [age, advances]
      split
      · exact Nat.zero_le _
      · exact ih
    | advanced target => exact Nat.succ_le_succ ih
    | _ => exact ih

theorem noneStale_of_advances_lt (ha : advances h < 2 ^ 31) : NoneStale h := by
  rintro vs past w rfl -
  rw [advances_append] at ha
  exact Nat.lt_of_le_of_lt (age_le_advances w past) (by omega)

theorem Ripe.append (hr : Ripe h i c) (vs : History) : Ripe (vs ++ h) i c := by
  obtain ⟨mid, u, pre, rfl, hi, hx⟩ := hr
  exact ⟨vs ++ mid, u, pre, (List.append_assoc ..).symm, hi, fun x hx' =>
    List.mem_append_right _ (hx x hx')⟩

theorem Ripened.append (hr : Ripened h cs) (vs : History) : Ripened (vs ++ h) cs :=
  fun hf i c hc => (hr hf.suffix i c hc).append vs

theorem exists_queued (hc : (queued h)[i]? = some c) :
    ∃ mid u pre, h = mid ++ (u, .queued c) :: pre ∧ (queued pre).length = i := by
  induction h with
  | nil => cases hc
  | cons p h ih =>
    have hlater (hc : (queued h)[i]? = some c) :
        ∃ mid u pre, p :: h = mid ++ (u, .queued c) :: pre ∧ (queued pre).length = i := by
      obtain ⟨mid, u, pre, rfl, hi⟩ := ih hc
      exact ⟨p :: mid, u, pre, rfl, hi⟩
    obtain ⟨t, v⟩ := p
    cases v with
    | queued c' =>
      rw [queued, List.getElem?_append] at hc
      split at hc
      · exact hlater hc
      · rename_i hi
        obtain ⟨hlt, rfl⟩ := List.getElem?_eq_some_iff.1 hc
        rw [List.length_singleton] at hlt
        refine ⟨[], t, h, ?_, by omega⟩
        simp
    | _ => exact hlater hc

theorem ripened_of_closed {target : UInt32}
    (hh : h = mid ++ (t, .advanced target) :: (t, .synchronizeCalled) :: pre)
    (hx : ∀ x ∈ sections pre, age x.worker pre + 1 < 2 ^ 31 →
      (x.thread, .closed x.worker x.slot) ∈ mid) : Ripened h (queued pre) := by
  intro hf i c hc
  obtain ⟨mid', u, pre', rfl, hi⟩ := exists_queued hc
  refine ⟨mid ++ (t, .advanced target) :: (t, .synchronizeCalled) :: mid', u, pre', ?_, hi,
    fun x hx' => ?_⟩
  · simpa using hh
  by_cases hleft : (x.thread, .closed x.worker x.slot) ∈ mid'
  · simp [hleft]
  -- whoever is still inside at the call is waited for
  have hin : x ∈ sections (mid' ++ (u, .queued c) :: pre') := mem_sections_append hx' hleft
  have hage := hf.stale mid ((t, .advanced target) :: (t, .synchronizeCalled) ::
    (mid' ++ (u, .queued c) :: pre')) x.worker hh (List.ne_nil_of_mem (mem_sectionsOn.2 ⟨hin, rfl⟩))
  exact List.mem_append_left _ (hx x hin hage)

theorem InOrder.append (ho : InOrder h) (hv : ∀ p ∈ vs, p.2.isRun = false) :
    InOrder (vs ++ h) := by
  refine Each.append ho fun p hp past c hc => ?_
  have hn := hv p hp
  rw [hc] at hn
  cases hn

theorem InOrder.started (ho : InOrder h) (hc : (queued h)[(History.started h).length]? = some c)
    (hr : h.Fair → Ripe h (History.started h).length c) : InOrder ((t, .callbackStarted c) :: h) := by
  refine Each.cons ho fun c' hc' => ?_
  obtain rfl := Mark.callbackStarted.inj hc'
  exact ⟨hc, hr⟩

end History

open History

namespace Machine

variable {m m' : Machine} {t e : Nat} {k : Kind} {target : UInt32} {pre : History}

/-- What had been enqueued before a call is ripe once no record blocks the waiter. -/
theorem Waits.ripened (h : Waits m t e k target pre) (hv : Visited m)
    (hb : (m.domain e k).firstBlocker? target = none) :
    Ripened (m.history e k) (queued pre) := by
  intro hf
  obtain ⟨mid, hh, -, hx⟩ := h.closed (hv.accounts hf.stranded) hb
  exact ripened_of_closed hh hx hf

theorem Filed.inOrder (h : Filed e k m m') (ho : InOrder (m.history e k)) :
    InOrder (m'.history e k) := by
  obtain ⟨vs, hh, hv, -⟩ := h.marks
  rw [hh]
  exact ho.append hv

end Machine

end GracePeriod
