import GracePeriod.Proofs.Protection

namespace GracePeriod.Machine

variable {m m' m'' : Machine} {t u e e' i : Nat} {k k' : Kind}

/-- All depths are the same but that of thread `t` in the domain. -/
def Elsewhere (t e : Nat) (k : Kind) (m m' : Machine) : Prop :=
  ∀ u e' k', ¬(u = t ∧ e' = e ∧ k' = k) → m'.readDepth u e' k' = m.readDepth u e' k'

namespace Elsewhere

theorem refl (t e : Nat) (k : Kind) (m : Machine) : Elsewhere t e k m m := fun _ _ _ _ => rfl

theorem trans (h : Elsewhere t e k m m') (h' : Elsewhere t e k m' m'') : Elsewhere t e k m m'' :=
  fun u e' k' hne => (h' u e' k' hne).trans (h u e' k' hne)

theorem of_nests (h : ∀ u, m'.nests u = m.nests u) : Elsewhere t e k m m' :=
  fun u e' k' _ => congrArg (Nests.depth · e' k') (h u)

theorem setDomain (m : Machine) (t e : Nat) (k : Kind) (d : Domain) :
    Elsewhere t e k m (m.setDomain e k d) := of_nests fun _ => rfl

theorem setNests {ns : Nests} (h : ∀ e' k', ¬(e' = e ∧ k' = k) → ns.depth e' k' = m.readDepth t e' k') :
    Elsewhere t e k m (m.setNests t ns) := by
  intro u e' k' hne
  rw [readDepth, nests_setNests]
  split
  · rename_i hu
    subst hu
    exact h e' k' fun hc => hne ⟨rfl, hc⟩
  · rfl

theorem setDepth (hu : (m.nests t).Unique) (n : UInt32) : Elsewhere t e k m (m.setDepth t e k n) := by
  refine setNests fun e' k' hne => ?_
  rw [Nests.depth_eq, Nests.entry_update hu (Nest.engine_setDepth k n), readDepth_eq]
  split
  · rename_i he
    subst he
    exact PerKind.get_set_ne _ (fun hk => hne ⟨rfl, hk⟩) n
  · rfl

theorem setPlace (hu : (m.nests t).Unique) (w i : Nat) :
    Elsewhere t e k m (m.setNests t ((m.nests t).update e fun x => x.setPlace k w i)) := by
  refine setNests fun e' k' _ => ?_
  rw [Nests.depth_eq, Nests.entry_update hu (Nest.engine_setPlace k w i), readDepth_eq]
  split
  · rename_i he
    rw [he]
    rfl
  · rfl

theorem enterRecord (hu : (m.nests t).Unique) : Elsewhere t e k m (m.enterRecord t e k).1 := by
  unfold Machine.enterRecord
  dsimp only
  split
  · exact refl t e k m
  · split
    · exact of_nests fun _ => rfl
    · exact (setDomain m t e k _).trans
        ((setPlace (m := m.setDomain e k _) hu _ _).trans (of_nests fun _ => rfl))

theorem openSection (hu : (m.nests t).Unique) : Elsewhere t e k m (m.openSection t e k).1 := by
  have hd : Elsewhere t e k m (m.deepen t e k).1 := by
    unfold deepen
    dsimp only
    split
    · exact setNests fun e' k' _ => by rw [Nests.depth_eq, Nests.entry_ensure, readDepth_eq]
    · split
      · exact (setDepth hu _).trans (enterRecord (unique_setDepth hu e k _))
      · exact setDepth hu _
  unfold Machine.openSection
  dsimp only
  split
  · exact hd.trans (of_nests fun _ => rfl)
  · exact hd

theorem rise (hu : (m.nests t).Unique) (hi : (m.nests t).openPosition e k = some i) :
    Elsewhere t e k m (m.rise t k i) := by
  obtain ⟨hn, -⟩ := Nests.openPosition_eq_some hu hi
  refine setNests fun e' k' hne => ?_
  rw [Nests.depth_eq, Nests.entry_modify hu hn (Nest.engine_setDepth k _), Nests.engine_entry, readDepth_eq]
  split
  · rename_i he
    subst he
    exact PerKind.get_set_ne _ (fun hk => hne ⟨rfl, hk⟩) _
  · rfl

theorem swapRemove (hu : (m.nests t).Unique) {n : Nest} (hn : (m.nests t)[i]? = some n)
    (hidle : n.isIdle = true) : Elsewhere t e k m (m.setNests t (swapRemove (m.nests t) i)) := by
  refine setNests fun e' k' _ => ?_
  rw [Nests.depth_eq, Nests.entry_swapRemove hu hn, readDepth_eq]
  split
  · rename_i he
    have hent := Nests.entry_of_mem hu (List.mem_of_getElem? hn)
    rw [he, hent, (Nest.isIdle_iff n).1 hidle k']
    cases k' <;> rfl
  · rfl

theorem closeSection (hu : (m.nests t).Unique) : Elsewhere t e k m (m.closeSection t e k).1 := by
  rw [closeSection_eq]
  split
  · exact refl t e k m
  · rename_i i hi
    have hr := rise (e := e) hu hi
    have hn := getElem?_rise hu hi
    have hg : ((m.rise t k i).nests t).getD i default =
        ((m.nests t).entry e).setDepth k (m.readDepth t e k - 1) := by simp [List.getD, hn]
    split
    · refine hr.trans ?_
      unfold leaveRecord
      dsimp only
      split
      · exact of_nests fun _ => rfl
      · split
        · rename_i hidle
          rw [hg] at hidle
          exact (setDomain (m.rise t k i) t e k _).trans
            ((swapRemove (m := (m.rise t k i).setDomain e k _) (unique_rise hu k i) hn hidle).trans
              (of_nests fun _ => rfl))
        · exact of_nests fun _ => rfl
    · exact hr

theorem readLock (hn : m.NestsUnique) : Elsewhere t e k m (m.readLock t e k).1 := by
  unfold Machine.readLock
  split
  · exact of_nests fun _ => rfl
  · exact (of_nests (Served.pin m t (m.engine e).access).nests).trans
      (openSection (unique_pin hn t (m.engine e).access))

theorem readUnlock (hn : m.NestsUnique) : Elsewhere t e k m (m.readUnlock t e k).1 := by
  unfold Machine.readUnlock
  split
  · exact of_nests fun _ => rfl
  · dsimp only
    split
    · exact closeSection (hn t)
    · exact (closeSection (hn t)).trans (of_nests (Served.unpin ..).nests)

end Elsewhere

theorem toNat_succ {n : UInt32} (h : n ≠ 0xFFFFFFFF) : (n + 1).toNat = n.toNat + 1 := by
  have hne : n.toNat ≠ 2 ^ 32 - 1 := fun he => h (UInt32.toNat_inj.1 he)
  have hlt := n.toNat_lt
  rw [UInt32.toNat_add, UInt32.toNat_one]
  omega

theorem toNat_pred {n : UInt32} (h : n ≠ 0) : (n - 1).toNat + 1 = n.toNat := by
  have hne : n.toNat ≠ 0 := fun he => h (UInt32.toNat_inj.1 he)
  have hlt := n.toNat_lt
  rw [UInt32.toNat_sub, UInt32.toNat_one]
  omega

theorem readDepth_readLock (hn : m.NestsUnique) (hs : m.skips e = false)
    (ho : (m.readLock t e k).2 = .ok ()) : m.readDepth t e k ≠ 0xFFFFFFFF ∧
      (m.readLock t e k).1.readDepth t e k = m.readDepth t e k + 1 := by
  have hdepth := readDepth_pin m t (m.engine e).access e k
  have hmax : m.readDepth t e k ≠ 0xFFFFFFFF := fun hmax => by
    rw [readLock_eq hs, openSection_overflow (hdepth.trans hmax)] at ho
    cases ho
  refine ⟨hmax, ?_⟩
  rw [readLock_eq hs, readDepth_openSection (unique_pin hn t _) (by rwa [hdepth]), hdepth]

theorem readLock_skips (hs : m.skips e = true) :
    m.readLock t e k = (m.mark t e k .skipped, .ok ()) := by
  rw [readLock, hs]
  rfl

theorem readUnlock_skips (hs : m.skips e = true) :
    m.readUnlock t e k = (m.mark t e k .skipped, .ok ()) := by
  rw [readUnlock, hs]
  rfl

theorem readUnlock_outside (hs : m.skips e = false) (hd : m.readDepth t e k = 0) (hn : m.NestsUnique) :
    m.readUnlock t e k = (m, .error (.unlockOutside k)) := by
  have hc : m.closeSection t e k = (m, .error (.unlockOutside k)) := by
    rw [closeSection_eq]
    split
    · rfl
    · rename_i i hi
      obtain ⟨-, hne⟩ := Nests.openPosition_eq_some (hn t) hi
      exact absurd ((readDepth_eq ..).symm.trans hd) hne
  rw [readUnlock, hs, hc]
  rfl

/-- The scheduler of the engine knows that the thread is pinned. -/
def Pinned (m : Machine) (t e : Nat) : Prop :=
  (m.task? t (m.engine e).access.scheduler).isSome = true ∧
    (m.task t (m.engine e).access.scheduler).pinDepth ≠ 0

theorem closeSection_ok (hn : m.NestsUnique) (ha : Accounts m e k) (hd : m.readDepth t e k ≠ 0) :
    (m.closeSection t e k).2 = .ok () := by
  have hplace : m.place t e k =
      some (((m.nests t).entry e).worker.get k, ((m.nests t).entry e).slot.get k) := by
    rw [readDepth_eq] at hd
    exact if_neg hd
  rw [closeSection_eq]
  split
  · rename_i hnone
    exact absurd (Nests.openPosition_eq_none hnone) hd
  · rename_i i hi
    split
    · rw [(leaveRecord_spec (unique_rise (hn t) k i) (getElem?_rise (hn t) hi)).1]
      exact congrArg Prod.snd (ha.leave_ok hplace)
    · rfl

theorem unpin_ok {p : Access} (ht : (m.task? t p.scheduler).isSome = true)
    (hp : (m.task t p.scheduler).pinDepth ≠ 0) : (m.unpin t p).2 = .ok () := by
  have htasks : (m.record t p .unpin).task? t p.scheduler = m.task? t p.scheduler := by
    unfold record
    split <;> rfl
  have htask : (m.record t p .unpin).task t p.scheduler = m.task t p.scheduler := by
    unfold record
    split <;> rfl
  have hrec : (m.record t p .unpin).enroll t p.scheduler = m.record t p .unpin := by
    rcases enroll_cases (m.record t p .unpin) t p.scheduler with ⟨-, h⟩ | ⟨h, -⟩
    · exact h
    · rw [htasks] at h
      rw [h] at ht
      cases ht
  unfold unpin
  dsimp only
  rw [hrec, htask, Task.unpin, if_neg hp]

theorem Pinned.of_tasks (h : m.Pinned t e) (ht : (m'.thread t).tasks = (m.thread t).tasks)
    (ha : (m'.engine e).access = (m.engine e).access) (hs : m'.schedulers = m.schedulers) :
    m'.Pinned t e := by
  unfold Pinned task taskId scheduler
  rw [ha, task?_of_tasks ht, hs]
  exact h

theorem readUnlock_ok (hn : m.NestsUnique) (ha : Accounts m e k) (hs : m.skips e = false)
    (hd : m.readDepth t e k ≠ 0) (hp : m.Pinned t e) : (m.readUnlock t e k).2 = .ok () := by
  have hi : Inside t m (m.closeSection t e k).1 := .closeSection ..
  have hpin : (m.closeSection t e k).1.Pinned t e :=
    hp.of_tasks (hi.part Thread.tasks (fun _ _ => rfl) t) (hi.access e) (by rw [hi.eq])
  simp only [readUnlock, hs, Bool.false_eq_true, if_false, closeSection_ok hn ha hd]
  exact unpin_ok hpin.1 hpin.2

end GracePeriod.Machine
