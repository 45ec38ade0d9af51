import GracePeriod.Proofs.Grace

namespace GracePeriod

namespace History

/-- Thread `t` has called when the history was `pre` and has not called again since. The epoch
advanced right after the call, and every section that was open then is closed by now, unless its
record had been active for half a turn of the epoch. -/
def GraceElapsed (t : Nat) (past : History) : Prop :=
  ∃ mid pre target,
    past = mid ++ (t, .advanced target) :: (t, .synchronizeCalled) :: pre ∧
    (t, .synchronizeCalled) ∉ mid ∧
    ∀ x ∈ sections pre, age x.worker pre + 1 < 2 ^ 31 →
      (x.thread, .closed x.worker x.slot) ∈ mid

/-- Every call that has returned had seen the end of its grace period. -/
def Sound (h : History) : Prop :=
  h.Each fun t v past => v = .synchronizeReturned → GraceElapsed t past

theorem Sound.ungraced {vs h : History} (hs : Sound h) (hv : ∀ p ∈ vs, p.2.isGrace = false) :
    Sound (vs ++ h) := by
  refine Each.append hs fun p hp past hc => ?_
  have hn := hv p hp
  rw [hc] at hn
  cases hn

end History

open History

namespace Machine

variable {m m' : Machine} {t e : Nat} {k : Kind} {target : UInt32} {pre : History}

/-- Nobody who was inside when the waiter called is still there once no record blocks it. -/
theorem Waits.closed (h : Waits m t e k target pre) (ha : Accounts m e k)
    (hb : (m.domain e k).firstBlocker? target = none) :
    ∃ mid, m.history e k = mid ++ (t, .advanced target) :: (t, .synchronizeCalled) :: pre ∧
      (t, .synchronizeCalled) ∉ mid ∧ ∀ x ∈ sections pre, age x.worker pre + 1 < 2 ^ 31 →
        (x.thread, .closed x.worker x.slot) ∈ mid := by
  obtain ⟨mid, hh, hm, he⟩ := h.split
  refine ⟨mid, hh, fun hc => hm _ hc rfl, fun x hx hage => ?_⟩
  by_contra hc
  -- the section is open, and its record has aged by the advances since
  have hx' : x ∈ sections (m.history e k) := by
    rw [hh]
    exact mem_sections_append hx hc
  have hold : age x.worker (m.history e k) = age x.worker pre + 1 + advances mid := by
    rw [hh]
    exact age_append hx hc
  have hepoch := ha.epoch x hx'
  rw [he, hold, UInt32.ofNat_add, ← UInt32.add_assoc] at hepoch
  have htarget := (UInt32.add_left_inj _).1 hepoch
  obtain ⟨hw, hreg⟩ := ha.registered x hx'
  have hactive : ((m.domain e k).records.get x.worker).word.active ≠ 0 := fun h0 => by
    have hnil := ((ha.holds x.worker).active_eq_zero).1 h0
    exact List.ne_nil_of_mem (mem_sectionsOn.2 ⟨hx', rfl⟩) (slotsOn_eq_nil.1 hnil)
  have hblocks := ReaderWord.blocks_of_eq_add hactive htarget (Nat.succ_pos _) hage
  rw [Domain.not_blocks_of_firstBlocker? hb hw hreg] at hblocks
  cases hblocks

theorem Waits.elapsed (h : Waits m t e k target pre) (ha : Accounts m e k)
    (hb : (m.domain e k).firstBlocker? target = none) : GraceElapsed t (m.history e k) := by
  obtain ⟨mid, hh, hm, hc⟩ := h.closed ha hb
  exact ⟨mid, pre, target, hh, hm, hc⟩

theorem Externals.history (h : Externals m m') (e : Nat) (k : Kind) :
    m'.history e k = m.history e k := by
  induction h with
  | refl => rfl
  | tail _ hs ih => exact (hs.keepsEngines.history e k).trans ih

theorem Reachable.sound (h : Reachable m) (hs : (m.history e k).NoneStranded) :
    Sound (m.history e k) := by
  induction h with
  | new hm =>
    obtain ⟨cs, -, rfl⟩ := new_eq hm
    exact each_nil
  | @begin m h s ih =>
    have hh := Externals.history (begin_externals m s) e k
    rw [hh] at hs ⊢
    exact ih hs
  | step h hb hst ih =>
    rcases step_cases hst with ⟨t, ht, rfl⟩ | ⟨t, rest, hn, hr, rfl⟩
    · cases (advance_graceState hb ht (h.visited.orderly.lt_size ht) (h.graceState t)).2 e k with
      | quiet hq _ =>
        obtain ⟨vs, hh, hv⟩ := hq
        rw [hh] at hs ⊢
        exact Sound.ungraced (ih hs.suffix) hv
      | launched target vs hv hh _ _ =>
        rw [hh] at hs ⊢
        have hs' := Sound.ungraced (ih hs.tail.tail.suffix) hv
        exact Each.cons (Each.cons hs' (by nofun)) (by nofun)
      | returned target pre hw hb hh _ =>
        rw [hh] at hs ⊢
        exact (ih hs.tail).cons fun _ => hw.elapsed (h.visited.accounts hs.tail) hb
      | broken hh _ =>
        rw [hh] at hs ⊢
        exact Each.cons (ih hs.tail) (by nofun)
    · exact ih hs

/-- When a call returns, every section that was open when it started has been closed by the thread
that opened it, in whatever order threads run and wherever the epoch starts. -/
theorem synchronize_outlives_readers (h : Reachable m)
    (hp : ∀ u, (u, Mark.lockPanicked) ∉ m.history e k) {post past : History}
    (hr : m.history e k = post ++ (t, .synchronizeReturned) :: past) : GraceElapsed t past :=
  h.sound (noneStranded_of_not_mem hp) post t _ past hr rfl

/-- A reader is inside when another thread calls, and leaves while that thread waits. -/
def wrapWaiting : Machine :=
  let m := (sample.perform (.act 0 (.handle 0 (.readLock .regular)))).1
  let m := (m.perform (.act 1 (.handle 0 (.synchronize .regular)))).1
  (m.perform (.act 0 (.handle 0 (.readUnlock .regular)))).1

theorem reachable_wrapWaiting : Reachable wrapWaiting :=
  ((reachable_sample.perform _ (by decide +kernel)).perform _ (by decide +kernel)).perform _
    (by decide +kernel)

theorem wrapping_synchronize_outlives_reader :
    Reachable (wrapWaiting.wake 3).settle ∧
      (wrapWaiting.wake 3).settle.history 0 .regular = [(3, .synchronizeReturned),
        (0, .closed 0 0), (3, .advanced 0), (3, .synchronizeCalled), (0, .opened 0 0)] ∧
      GraceElapsed 3 [(0, .closed 0 0), (3, .advanced 0), (3, .synchronizeCalled),
        (0, .opened 0 0)] := by
  have hr : Reachable (wrapWaiting.wake 3).settle :=
    reachable_wrapWaiting.resumeOnly (by decide +kernel) (by decide +kernel)
  have hh : (wrapWaiting.wake 3).settle.history 0 .regular = [(3, .synchronizeReturned),
      (0, .closed 0 0), (3, .advanced 0), (3, .synchronizeCalled), (0, .opened 0 0)] := rfl
  exact ⟨hr, hh, synchronize_outlives_readers hr (by rw [hh]; simp) (hh.trans (List.nil_append _).symm)⟩

end Machine

end GracePeriod
