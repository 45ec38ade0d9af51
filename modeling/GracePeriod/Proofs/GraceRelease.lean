import Mathlib.Data.List.Infix
import GracePeriod.Proofs.GraceSafety

namespace GracePeriod

namespace History

/-- At some moment since the history was `h`, no section was open on the record of worker `w`. -/
def Rested (w : Nat) (vs h : History) : Prop :=
  ∃ late early, vs = late ++ early ∧ sectionsOn (early ++ h) w = []

theorem rested_iff {w : Nat} {vs h : History} :
    (∃ early ∈ vs.tails, sectionsOn (early ++ h) w = []) ↔ Rested w vs h := by
  constructor
  · rintro ⟨early, he, hs⟩
    obtain ⟨late, hl⟩ := (List.mem_tails ..).1 he
    exact ⟨late, early, hl.symm, hs⟩
  · rintro ⟨late, early, rfl, hs⟩
    exact ⟨early, (List.mem_tails ..).2 (List.suffix_append late early), hs⟩

instance (w : Nat) (vs h : History) : Decidable (Rested w vs h) := decidable_of_iff _ rested_iff

variable {vs vs' h h' : History} {w : Nat} {p : Nat × Mark}

theorem split_unique (hh : vs ++ p :: h = vs' ++ p :: h') (hv : p ∉ vs) (hv' : p ∉ vs') :
    vs = vs' ∧ h = h' := by
  induction vs generalizing vs' with
  | nil =>
    cases vs' with
    | nil => exact ⟨rfl, (List.cons.inj hh).2⟩
    | cons q vs' =>
      obtain ⟨rfl, -⟩ := List.cons.inj hh
      exact absurd List.mem_cons_self hv'
  | cons q vs ih =>
    cases vs' with
    | nil =>
      obtain ⟨rfl, -⟩ := List.cons.inj hh
      exact absurd List.mem_cons_self hv
    | cons q' vs' =>
      obtain ⟨rfl, hh'⟩ := List.cons.inj hh
      obtain ⟨rfl, rfl⟩ := ih hh' (List.not_mem_of_not_mem_cons hv) (List.not_mem_of_not_mem_cons hv')
      exact ⟨rfl, rfl⟩

theorem Rested.cons (hr : Rested w vs h) (p : Nat × Mark) : Rested w (p :: vs) h := by
  obtain ⟨late, early, rfl, hs⟩ := hr
  exact ⟨p :: late, early, rfl, hs⟩

theorem rested_of_nil (hs : sectionsOn (vs ++ h) w = []) : Rested w vs h := ⟨[], vs, rfl, hs⟩

theorem age_opening (hn : sectionsOn h w = []) (hs : sectionsOn (p :: h) w ≠ []) :
    age w (p :: h) = 0 := by
  obtain ⟨t, v⟩ := p
  cases v with
  | opened v i =>
    by_cases hv : v = w
    · exact if_pos ⟨hv, hn⟩
    · simp only [sectionsOn, sections, List.filter_cons, hv, decide_false, Bool.false_eq_true,
        if_false] at hs
      exact absurd hn hs
  | closed v i =>
    refine absurd ?_ hs
    rw [List.eq_nil_iff_forall_not_mem] at hn ⊢
    intro x hx
    obtain ⟨hx, hw⟩ := mem_sectionsOn.1 hx
    exact hn x (mem_sectionsOn.2 ⟨List.mem_of_mem_erase hx, hw⟩)
  | _ => exact absurd hn hs

theorem age_cons (hs : sectionsOn h w ≠ []) :
    age w (p :: h) = age w h + advances [p] := by
  obtain ⟨t, v⟩ := p
  cases v with
  | opened v i => exact if_neg fun hc => hs hc.2
  | _ => rfl

theorem advances_cons (p : Nat × Mark) (h : History) : advances (p :: h) = advances h + advances [p] :=
  (advances_append [p] h).trans (Nat.add_comm ..)

theorem age_le_of_rested (hr : Rested w vs h) (hs : sectionsOn (vs ++ h) w ≠ []) :
    age w (vs ++ h) ≤ advances vs := by
  induction vs with
  | nil =>
    obtain ⟨late, early, hle, hn⟩ := hr
    obtain ⟨-, rfl⟩ := List.append_eq_nil_iff.1 hle.symm
    exact absurd hn hs
  | cons p vs ih =>
    by_cases hn : sectionsOn (vs ++ h) w = []
    · rw [List.cons_append, age_opening hn hs]
      exact Nat.zero_le _
    · have hr' : Rested w vs h := by
        obtain ⟨late, early, hle, hne⟩ := hr
        cases late with
        | nil =>
          obtain rfl : p :: vs = early := hle
          exact absurd hne hs
        | cons q late =>
          obtain ⟨-, rfl⟩ := List.cons.inj hle
          exact ⟨late, early, rfl, hne⟩
      rw [List.cons_append, age_cons hn, advances_cons p vs]
      exact Nat.add_le_add_right (ih hr' hn) _

theorem age_of_not_rested (hr : ¬Rested w vs h) : age w (vs ++ h) = age w h + advances vs := by
  induction vs with
  | nil => rfl
  | cons p vs ih =>
    have hr' : ¬Rested w vs h := fun hc => hr (hc.cons p)
    rw [List.cons_append, age_cons fun hc => hr' (rested_of_nil hc), ih hr', advances_cons p vs,
      Nat.add_assoc]

end History

open History

variable {m m' : Machine} {t e w n : Nat} {k : Kind} {target : UInt32} {pre mid : History}

namespace Accounts

/-- The epoch of an active record lies back by the age of the record. -/
theorem epoch_of_active (h : Accounts m e k) (hs : sectionsOn (m.history e k) w ≠ []) :
    (m.domain e k).epoch = ((m.domain e k).records.get w).word.epoch +
      UInt32.ofNat (age w (m.history e k)) := by
  obtain ⟨x, hx⟩ := List.exists_mem_of_ne_nil _ hs
  obtain ⟨hx', rfl⟩ := mem_sectionsOn.1 hx
  exact h.epoch x hx'

theorem active_ne_zero (h : Accounts m e k) :
    ((m.domain e k).records.get w).word.active ≠ 0 ↔ sectionsOn (m.history e k) w ≠ [] := by
  rw [Ne, (h.holds w).active_eq_zero, slotsOn_eq_nil]

/-- A record that has become active since the waiter's advance does not block it. -/
theorem blocks_of_le (h : Accounts m e k)
    (he : (m.domain e k).epoch = target + UInt32.ofNat n) (hn : n ≤ 2 ^ 31)
    (ha : sectionsOn (m.history e k) w ≠ [] → age w (m.history e k) ≤ n) :
    ((m.domain e k).records.get w).word.blocks target = false := by
  by_cases hs : sectionsOn (m.history e k) w = []
  · have h0 := ((h.holds w).active_eq_zero).2 (slotsOn_eq_nil.2 hs)
    simp [ReaderWord.blocks, h0]
  · have hb := isBefore_of_le (h.epoch_of_active hs) he (ha hs) (by omega)
    simp [ReaderWord.blocks, hb]

theorem blocks_of_lt (h : Accounts m e k) (hs : sectionsOn (m.history e k) w ≠ [])
    (he : (m.domain e k).epoch = target + UInt32.ofNat n) (ha : n < age w (m.history e k))
    (hn : age w (m.history e k) < n + 2 ^ 31) :
    ((m.domain e k).records.get w).word.blocks target = true := by
  have hb := isBefore_of_lt (h.epoch_of_active hs) he ha hn
  simp [ReaderWord.blocks, hb, h.active_ne_zero.2 hs]

theorem not_blocks (h : Accounts m e k) (hb : (m.domain e k).firstBlocker? target = none)
    (hs : sectionsOn (m.history e k) w ≠ []) :
    ((m.domain e k).records.get w).word.blocks target = false := by
  obtain ⟨x, hx⟩ := List.exists_mem_of_ne_nil _ hs
  obtain ⟨hx', rfl⟩ := mem_sectionsOn.1 hx
  obtain ⟨hin, hreg⟩ := h.registered x hx'
  exact Domain.not_blocks_of_firstBlocker? hb hin hreg

end Accounts

namespace Machine

theorem firstBlocker?_eq_none {d : Domain}
    (h : ∀ w, (d.records.get w).word.blocks target = false) : d.firstBlocker? target = none := by
  apply List.find?_eq_none.2
  intro w _
  simp [Domain.isBlocker, h w]

theorem Waits.split_eq (h : Waits m t e k target pre) {past : History} {target' : UInt32}
    (hh : m.history e k = mid ++ (t, .advanced target') :: (t, .synchronizeCalled) :: past)
    (hm : (t, Mark.synchronizeCalled) ∉ mid) :
    target' = target ∧ past = pre ∧ (m.domain e k).epoch = target + UInt32.ofNat (advances mid) := by
  obtain ⟨mid', hh', hm', he⟩ := h.split
  have hcall {vs : History} {a : UInt32} (hv : (t, Mark.synchronizeCalled) ∉ vs) :
      (t, Mark.synchronizeCalled) ∉ vs ++ [(t, .advanced a)] := by
    simp [hv]
  rw [← List.singleton_append, ← List.append_assoc] at hh hh'
  obtain ⟨hl, hpast⟩ := split_unique (hh.symm.trans hh') (hcall hm) (hcall fun hc => hm' _ hc rfl)
  obtain ⟨rfl, ha⟩ := List.append_inj' hl rfl
  cases ha
  exact ⟨rfl, hpast, he⟩

theorem advance_waits {c : Snapshot} {rest : List Frame} {r : Result}
    (hs : (m.thread t).stack = .grace e k c target :: rest)
    (hc : (m.thread t).control = .back (.ok r))
    (hb : (m.domain e k).firstBlocker? target ≠ none) :
    (m.advance t).history e k ≠ (t, .synchronizeReturned) :: m.history e k := by
  have hl := locateBlocker_looked (m.modifyThread t fun x => { x with stack := rest }) t e k c target id
  have ha : m.advance t =
      (m.modifyThread t fun x => { x with stack := rest }).locateBlocker t e k c target := by
    simp only [advance, hs, hc, resume]
  rw [ha]
  cases hl.look with
  | ended hn => exact absurd hn hb
  | broken p _ _ _ hh =>
    rw [hh]
    simp [history]
  | again wakes _ _ _ hh =>
    rw [hh]
    exact fun heq => List.cons_ne_self _ (m.history e k) heq.symm

theorem advance_returns {c : Snapshot} {rest : List Frame} {r : Result}
    (hs : (m.thread t).stack = .grace e k c target :: rest)
    (hc : (m.thread t).control = .back (.ok r))
    (hb : (m.domain e k).firstBlocker? target = none) :
    ((m.advance t).thread t).stack = rest ∧
      ((m.advance t).thread t).control = .back (.ok .unit) ∧
      (m.advance t).history e k = (t, .synchronizeReturned) :: m.history e k := by
  have ha : m.advance t =
      (m.modifyThread t fun x => { x with stack := rest }).endSynchronize t e k c := by
    simp only [advance, hs, hc, resume, locateBlocker]
    have hb' : (((m.modifyThread t fun x => { x with stack := rest }).engine e).domain k).firstBlocker?
        target = none := hb
    rw [hb']
  obtain ⟨hst, hco, hh⟩ :=
    endSynchronize_returns (m.modifyThread t fun x => { x with stack := rest }) t e k c
  rw [ha]
  exact ⟨hst.trans (stack_pop m t rest), hco, hh⟩

/-- When a waiter looks at the records and each of them has been without readers at some moment since
the waiter's advance, the call returns, whoever has entered meanwhile. As long as one of them has not,
the waiter waits on, also for readers that have joined that record since. Both hold unless the epoch
has gone half its way round meanwhile. -/
theorem synchronize_released {c : Snapshot} {rest : List Frame} {r : Result}
    (h : Reachable m) (hp : ∀ u, (u, Mark.lockPanicked) ∉ m.history e k)
    (hs : (m.thread t).stack = .grace e k c target :: rest)
    (hc : (m.thread t).control = .back (.ok r)) (hst : m.step = some m') (ht : m.turn = some t)
    (hh : m.history e k = mid ++ (t, .advanced target) :: (t, .synchronizeCalled) :: pre)
    (hm : (t, Mark.synchronizeCalled) ∉ mid) :
    ((∀ w, Rested w mid ((t, .advanced target) :: (t, .synchronizeCalled) :: pre)) →
      advances mid ≤ 2 ^ 31 →
        (m.domain e k).firstBlocker? target = none ∧
          m'.history e k = (t, .synchronizeReturned) :: m.history e k ∧
          (m'.thread t).stack = rest ∧ (m'.thread t).control = .back (.ok .unit)) ∧
      ∀ w, ¬Rested w mid ((t, .advanced target) :: (t, .synchronizeCalled) :: pre) →
        age w pre + 1 < 2 ^ 31 →
          (m.domain e k).firstBlocker? target ≠ none ∧
            m'.history e k ≠ (t, .synchronizeReturned) :: m.history e k := by
  have ha : Accounts m e k := h.visited.accounts (noneStranded_of_not_mem hp)
  obtain ⟨pre', hw⟩ := (h.graceState t).waits (hs ▸ List.mem_cons_self)
  obtain ⟨-, -, he⟩ := hw.split_eq hh hm
  obtain rfl : m' = m.advance t := by
    simpa [step, ht] using hst.symm
  constructor
  · intro hr hn
    have hb : (m.domain e k).firstBlocker? target = none := by
      apply firstBlocker?_eq_none
      intro w
      apply ha.blocks_of_le he hn
      intro hne
      rw [hh] at hne ⊢
      exact age_le_of_rested (hr w) hne
    obtain ⟨hstk, hco, hhist⟩ := advance_returns hs hc hb
    exact ⟨hb, hhist, hstk, hco⟩
  · intro w hr hage
    have hopen : sectionsOn (m.history e k) w ≠ [] := by
      rw [hh]
      exact fun hn => hr (rested_of_nil hn)
    have hold : age w (m.history e k) = age w pre + 1 + advances mid := by
      rw [hh]
      exact age_of_not_rested hr
    have hblocks := ha.blocks_of_lt hopen he (by omega) (by omega)
    have hb : (m.domain e k).firstBlocker? target ≠ none := fun hb => by
      rw [ha.not_blocks hb hopen] at hblocks
      cases hblocks
    exact ⟨hb, advance_waits hs hc hb⟩

/-- A reader is inside when another thread calls, and one more enters after it has left. -/
def relieved : Machine :=
  ((wrapWaiting.perform (.act 2 (.handle 0 (.readLock .regular)))).1.wake 3).run 1

theorem reachable_relieved : Reachable relieved :=
  ((reachable_wrapWaiting.perform _ (by decide +kernel)).wakeOnly (by decide +kernel)).run
    (by decide +kernel)

/-- A reader is inside when another thread calls, and one more enters before it leaves. -/
def joined : Machine :=
  let m := (sample.perform (.act 0 (.handle 0 (.readLock .regular)))).1
  let m := (m.perform (.act 1 (.handle 0 (.synchronize .regular)))).1
  let m := (m.perform (.act 2 (.handle 0 (.readLock .regular)))).1
  ((m.perform (.act 0 (.handle 0 (.readUnlock .regular)))).1.wake 3).run 1

theorem reachable_joined : Reachable joined := by
  have h := reachable_sample.perform (.act 0 (.handle 0 (.readLock .regular))) (by decide +kernel)
  have h := h.perform (.act 1 (.handle 0 (.synchronize .regular))) (by decide +kernel)
  have h := h.perform (.act 2 (.handle 0 (.readLock .regular))) (by decide +kernel)
  have h := h.perform (.act 0 (.handle 0 (.readUnlock .regular))) (by decide +kernel)
  exact (h.wakeOnly (by decide +kernel)).run (by decide +kernel)

theorem newcomer_ignored_joiner_awaited :
    (Reachable relieved ∧ relieved.readDepth 4 0 .regular = 1 ∧
      (relieved.domain 0 .regular).firstBlocker? 0 = none ∧
      (relieved.advance 3).history 0 .regular =
        (3, .synchronizeReturned) :: relieved.history 0 .regular) ∧
    Reachable joined ∧ joined.readDepth 4 0 .regular = 1 ∧
      (joined.domain 0 .regular).firstBlocker? 0 ≠ none := by
  have hh : relieved.history 0 .regular = [(4, .opened 0 0), (0, .closed 0 0)] ++
      (3, .advanced 0) :: (3, .synchronizeCalled) :: [(0, .opened 0 0)] := rfl
  have hj : joined.history 0 .regular = [(0, .closed 0 0), (4, .opened 0 1)] ++
      (3, .advanced 0) :: (3, .synchronizeCalled) :: [(0, .opened 0 0)] := rfl
  have hg : (relieved.thread 3).stack =
      .grace 0 .regular ⟨0, 0, .normal, false⟩ 0 :: [.release 0, .attempt] := rfl
  have hg' : (joined.thread 3).stack =
      .grace 0 .regular ⟨0, 0, .normal, false⟩ 0 :: [.release 0, .attempt] := rfl
  have hs := synchronize_released reachable_relieved (by rw [hh]; simp) hg rfl rfl rfl hh (by simp)
  have hn := synchronize_released reachable_joined (by rw [hj]; simp) hg' rfl rfl rfl hj (by simp)
  have hr (w : Nat) : Rested w [(4, .opened 0 0), (0, .closed 0 0)]
      ((3, .advanced 0) :: (3, .synchronizeCalled) :: [(0, .opened 0 0)]) :=
    ⟨[(4, .opened 0 0)], [(0, .closed 0 0)], rfl, rfl⟩
  obtain ⟨hb, hret, -⟩ := hs.1 hr (by simp [advances])
  refine ⟨⟨reachable_relieved, by decide +kernel, hb, hret⟩, reachable_joined, by decide +kernel, ?_⟩
  exact (hn.2 0 (by decide) (by simp [age])).1

/-- Everybody who was inside at the call has left, and still the waiter does not return. -/
theorem joiner_prolongs_wait :
    Reachable joined ∧ joined.turn = some 3 ∧
      joined.history 0 .regular = [(0, .closed 0 0), (4, .opened 0 1)] ++
        (3, .advanced 0) :: (3, .synchronizeCalled) :: [(0, .opened 0 0)] ∧
      (∀ x ∈ sections [(0, .opened 0 0)], (x.thread, Mark.closed x.worker x.slot) ∈
        [(0, Mark.closed 0 0), (4, .opened 0 1)]) ∧
      (joined.domain 0 .regular).firstBlocker? 0 = some 0 ∧
      (joined.advance 3).history 0 .regular = joined.history 0 .regular ∧
      (joined.advance 3).isParked 3 = true := by
  have hj : joined.history 0 .regular = [(0, .closed 0 0), (4, .opened 0 1), (3, .advanced 0),
      (3, .synchronizeCalled), (0, .opened 0 0)] := rfl
  have ha : (joined.advance 3).history 0 .regular = [(0, .closed 0 0), (4, .opened 0 1),
      (3, .advanced 0), (3, .synchronizeCalled), (0, .opened 0 0)] := rfl
  refine ⟨reachable_joined, rfl, hj, ?_, by decide +kernel, ha.trans hj.symm, by decide +kernel⟩
  intro x hx
  obtain rfl := List.mem_singleton.1 hx
  exact List.mem_cons_self

end Machine

end GracePeriod
