import GracePeriod.Proofs.History
import GracePeriod.Proofs.Nest
import GracePeriod.Proofs.Parts
import GracePeriod.Proofs.Record

namespace GracePeriod.Machine

def domain (m : Machine) (e : Nat) (k : Kind) : Domain := (m.engine e).domain k

def place (m : Machine) (u e : Nat) (k : Kind) : Option (Nat × Nat) := (m.nests u).place e k

def NestsUnique (m : Machine) : Prop := ∀ u, (m.nests u).Unique

/-- Nothing has happened that concerns the sections of a domain. -/
structure Still (e : Nat) (k : Kind) (m m' : Machine) : Prop where
  place : ∀ u, m'.place u e k = m.place u e k
  domain : m'.domain e k = m.domain e k
  history : ∃ vs : History, (∀ p ∈ vs, p.2.isStill = true) ∧ m'.history e k = vs ++ m.history e k

/-- Thread `t` has entered the record of its worker `w` and taken slot `i`. -/
structure Opening (t e : Nat) (k : Kind) (w i : Nat) (m m' : Machine) : Prop where
  outside : m.place t e k = none
  enrolled : (m.task? t (m.engine e).access.scheduler).isSome = true
  worker : w = (m.task t (m.engine e).access.scheduler).worker
  place : ∀ u, m'.place u e k = if u = t then some (w, i) else m.place u e k
  inside : w < (m.domain e k).workers
  registered : ((m.domain e k).records.get w).registered = true
  entered : (((m.domain e k).records.get w).enter (m.domain e k).epoch
    (m.taskId t (m.engine e).access.scheduler)).2 = .ok i
  domain : m'.domain e k = (m.domain e k).setRecord w
    (((m.domain e k).records.get w).enter (m.domain e k).epoch
      (m.taskId t (m.engine e).access.scheduler)).1
  history : m'.history e k = (t, .opened w i) :: m.history e k

/-- Thread `t` has left the record of worker `w`, if that could be done. -/
structure Closing (t e : Nat) (k : Kind) (w i : Nat) (m m' : Machine) : Prop where
  inside : m.place t e k = some (w, i)
  place : ∀ u, m'.place u e k = if u = t then none else m.place u e k
  domain : m'.domain e k = ((m.domain e k).onRecord w (·.leave i)).1
  history : ((m.domain e k).onRecord w (·.leave i)).2 = .ok () →
    m'.history e k = (t, .closed w i) :: m.history e k
  failed : ∀ f, ((m.domain e k).onRecord w (·.leave i)).2 = .error f →
    m'.history e k = m.history e k

/-- The outermost lock of thread `t` has panicked. -/
structure Stranding (t e : Nat) (k : Kind) (m m' : Machine) : Prop where
  outside : m.place t e k = none
  enrolled : (m.task? t (m.engine e).access.scheduler).isSome = true
  others : ∀ u, u ≠ t → m'.place u e k = m.place u e k
  domain : m'.domain e k = m.domain e k ∨
    ∃ w f, w = (m.task t (m.engine e).access.scheduler).worker ∧ w < (m.domain e k).workers ∧
      (((m.domain e k).records.get w).enter (m.domain e k).epoch
        (m.taskId t (m.engine e).access.scheduler)).2 = .error f ∧
      m'.domain e k = (m.domain e k).setRecord w
        (((m.domain e k).records.get w).enter (m.domain e k).epoch
          (m.taskId t (m.engine e).access.scheduler)).1
  history : m'.history e k = (t, .lockPanicked) :: m.history e k

variable {m : Machine} {t e e' : Nat} {k k' : Kind}

theorem Stranding.epoch {m' : Machine} (h : Stranding t e k m m') :
    (m'.domain e k).epoch = (m.domain e k).epoch := by
  rcases h.domain with hd | ⟨w, f, -, -, -, hd⟩ <;> rw [hd]
  rfl

theorem readDepth_eq_zero : m.readDepth t e k = 0 ↔ m.place t e k = none := Nests.place_eq_none.symm

theorem nests_setNests (m : Machine) (t u : Nat) (ns : Nests) :
    (m.setNests t ns).nests u = if u = t then ns else m.nests u := by
  simp only [nests, setNests, thread, modifyThread, Table.get_modify]
  split <;> rfl

theorem taskId_setNests (m : Machine) (t u s : Nat) (ns : Nests) :
    (m.setNests t ns).taskId u s = m.taskId u s := by
  simp only [taskId, task?, setNests, thread, modifyThread, Table.get_modify]
  split
  · rename_i hu
    rw [hu]
  · rfl

theorem place_setNests (m : Machine) (t u e : Nat) (k : Kind) (ns : Nests) :
    (m.setNests t ns).place u e k = if u = t then ns.place e k else m.place u e k := by
  rw [place, nests_setNests]
  split <;> rfl

theorem domain_setDomain (m : Machine) (e e' : Nat) (k k' : Kind) (d : Domain) :
    (m.setDomain e k d).domain e' k' = if e' = e ∧ k' = k then d else m.domain e' k' := by
  simp only [domain, setDomain, engine, modifyEngine, Table.get_modify]
  by_cases he : e' = e
  · subst he
    by_cases hk : k' = k
    · subst hk
      simp [Engine.domain, Engine.setDomain]
    · simp [Engine.domain, Engine.setDomain, PerKind.get_set_ne _ hk, hk]
  · simp [he]

theorem history_setDomain (m : Machine) (e e' : Nat) (k k' : Kind) (d : Domain) :
    (m.setDomain e k d).history e' k' = m.history e' k' := rfl

namespace Still

theorem refl (e : Nat) (k : Kind) (m : Machine) : Still e k m m :=
  ⟨fun _ => rfl, rfl, [], by simp, rfl⟩

theorem trans {m m' m'' : Machine} (h : Still e k m m') (h' : Still e k m' m'') :
    Still e k m m'' := by
  obtain ⟨vs, hv, hvs⟩ := h.history
  obtain ⟨vs', hv', hvs'⟩ := h'.history
  refine ⟨fun u => (h'.place u).trans (h.place u), h'.domain.trans h.domain, vs' ++ vs, ?_, ?_⟩
  · intro p hp
    rcases List.mem_append.1 hp with hp | hp
    · exact hv' p hp
    · exact hv p hp
  · rw [hvs', hvs, List.append_assoc]

theorem mark (m : Machine) (t e' : Nat) (k' : Kind) {v : Mark} (hv : v.isStill = true) :
    Still e k m (m.mark t e' k' v) := by
  refine ⟨fun _ => rfl, rfl, ?_⟩
  by_cases h : e' = e ∧ k' = k
  · obtain ⟨rfl, rfl⟩ := h
    exact ⟨[(t, v)], by simpa using hv, history_mark_self⟩
  · exact ⟨[], by simp, history_mark_ne h⟩

theorem mark_ne (m : Machine) (t : Nat) {e' : Nat} {k' : Kind} (h : ¬(e' = e ∧ k' = k)) (v : Mark) :
    Still e k m (m.mark t e' k' v) := ⟨fun _ => rfl, rfl, [], by simp, history_mark_ne h⟩

theorem setDomain_ne (m : Machine) {e' : Nat} {k' : Kind} (h : ¬(e' = e ∧ k' = k)) (d : Domain) :
    Still e k m (m.setDomain e' k' d) :=
  ⟨fun _ => rfl, (domain_setDomain ..).trans (if_neg fun hc => h ⟨hc.1.symm, hc.2.symm⟩), [],
    by simp, rfl⟩

theorem setNests (m : Machine) {t : Nat} {ns : Nests} (h : ns.place e k = m.place t e k) :
    Still e k m (m.setNests t ns) := by
  refine ⟨fun u => ?_, rfl, [], by simp, rfl⟩
  rw [place_setNests]
  split
  · rename_i hu
    rw [h, hu]
  · rfl

end Still

theorem setDepth_ne (hu : (m.nests t).Unique) (h : ¬(e' = e ∧ k' = k)) (n : UInt32) :
    Still e' k' m (m.setDepth t e k n) := by
  refine .setNests m ?_
  rw [Nests.place_update hu (Nest.engine_setDepth k n)]
  split
  · rename_i he
    exact he ▸ Nest.place_setDepth_ne _ (fun hk => h ⟨he, hk⟩) n
  · rfl

theorem setDepth_still (hu : (m.nests t).Unique) {n : UInt32} (h : m.readDepth t e k ≠ 0)
    (hn : n ≠ 0) : Still e k m (m.setDepth t e k n) := by
  refine .setNests m ?_
  rw [readDepth, Nests.depth_eq] at h
  rw [Nests.place_update hu (Nest.engine_setDepth k n), if_pos rfl, Nest.place_setDepth _ h hn]
  rfl

theorem place_setDepth_of_ne (m : Machine) (t e : Nat) (k : Kind) (n : UInt32) {u : Nat}
    (hut : u ≠ t) : (m.setDepth t e k n).place u e k = m.place u e k := by
  rw [setDepth, place_setNests, if_neg hut]

theorem setPlace_ne (hu : (m.nests t).Unique) (h : ¬(e' = e ∧ k' = k)) (w i : Nat) :
    Still e' k' m (m.setNests t ((m.nests t).update e fun x => x.setPlace k w i)) := by
  refine .setNests m ?_
  rw [Nests.place_update hu (Nest.engine_setPlace k w i)]
  split
  · rename_i he
    exact he ▸ Nest.place_setPlace_ne _ (fun hk => h ⟨he, hk⟩) w i
  · rfl

theorem place_setPlace (hu : (m.nests t).Unique) (hd : m.readDepth t e k ≠ 0) (w i u : Nat) :
    (m.setNests t ((m.nests t).update e fun x => x.setPlace k w i)).place u e k =
      if u = t then some (w, i) else m.place u e k := by
  rw [readDepth, Nests.depth_eq] at hd
  rw [place_setNests, Nests.place_update hu (Nest.engine_setPlace k w i), if_pos rfl,
    Nest.place_setPlace _ hd]

theorem enterRecord_ne (hu : (m.nests t).Unique) (h : ¬(e' = e ∧ k' = k)) :
    Still e' k' m (m.enterRecord t e k).1 := by
  have hne : ¬(e = e' ∧ k = k') := fun hc => h ⟨hc.1.symm, hc.2.symm⟩
  unfold enterRecord
  dsimp only
  split
  · exact .refl ..
  · split
    · exact .setDomain_ne m hne _
    · exact (Still.setDomain_ne m hne _).trans
        ((setPlace_ne (m := m.setDomain e k _) hu h _ _).trans (.mark_ne _ _ hne _))

theorem enterRecord_cases (hu : (m.nests t).Unique) (hd : m.readDepth t e k ≠ 0) :
    (∃ f, (m.enterRecord t e k).2 = .error f ∧
      (∀ u, (m.enterRecord t e k).1.place u e k = m.place u e k) ∧
      ((m.enterRecord t e k).1.domain e k = m.domain e k ∨
        ∃ w f, w = (m.task t (m.engine e).access.scheduler).worker ∧ w < (m.domain e k).workers ∧
          (((m.domain e k).records.get w).enter (m.domain e k).epoch
            (m.taskId t (m.engine e).access.scheduler)).2 = .error f ∧
          (m.enterRecord t e k).1.domain e k = (m.domain e k).setRecord w
            (((m.domain e k).records.get w).enter (m.domain e k).epoch
              (m.taskId t (m.engine e).access.scheduler)).1) ∧
      (m.enterRecord t e k).1.history e k = m.history e k) ∨
    ∃ w i, (m.enterRecord t e k).2 = .ok () ∧
      w = (m.task t (m.engine e).access.scheduler).worker ∧
      (∀ u, (m.enterRecord t e k).1.place u e k = if u = t then some (w, i) else m.place u e k) ∧
      w < (m.domain e k).workers ∧ ((m.domain e k).records.get w).registered = true ∧
      (((m.domain e k).records.get w).enter (m.domain e k).epoch
        (m.taskId t (m.engine e).access.scheduler)).2 = .ok i ∧
      (m.enterRecord t e k).1.domain e k = (m.domain e k).setRecord w
        (((m.domain e k).records.get w).enter (m.domain e k).epoch
          (m.taskId t (m.engine e).access.scheduler)).1 ∧
      (m.enterRecord t e k).1.history e k = (t, .opened w i) :: m.history e k := by
  unfold enterRecord
  dsimp only
  split
  · rename_i f _
    exact .inl ⟨f, rfl, fun _ => rfl, .inl rfl, rfl⟩
  · rename_i r hr
    obtain ⟨hw, hreg, rfl⟩ := Domain.registeredRecord_eq_ok.1 hr
    split
    · rename_i f hf
      refine .inl ⟨f, rfl, fun _ => rfl, .inr ⟨_, f, rfl, hw, hf, ?_⟩, rfl⟩
      exact (domain_setDomain m e e k k _).trans (if_pos ⟨rfl, rfl⟩)
    · rename_i i hi
      refine .inr ⟨_, i, rfl, rfl, fun u => ?_, hw, hreg, hi, ?_, history_mark_self⟩
      · exact place_setPlace (m := m.setDomain e k _) hu hd _ i u
      · exact (domain_setDomain m e e k k _).trans (if_pos ⟨rfl, rfl⟩)

theorem succ_ne_zero {n : UInt32} (h : n ≠ 0xFFFFFFFF) : n + 1 ≠ 0 := by
  intro h0
  have hn : (n + 1).toNat = 0 := by rw [h0]; rfl
  have hne : n.toNat ≠ 2 ^ 32 - 1 := fun he => h (UInt32.toNat_inj.1 he)
  have hlt := n.toNat_lt
  rw [UInt32.toNat_add, UInt32.toNat_one] at hn
  omega

theorem ensure_still (m : Machine) (t e e' : Nat) (k' : Kind) :
    Still e' k' m (m.setNests t ((m.nests t).ensure e)) := by
  refine .setNests m ?_
  rw [Nests.place, Nests.entry_ensure]
  rfl

theorem readDepth_setDepth (hu : (m.nests t).Unique) (e : Nat) (k : Kind) (n : UInt32) :
    (m.setDepth t e k n).readDepth t e k = n := by
  rw [readDepth, setDepth, nests_setNests, if_pos rfl, Nests.depth_eq,
    Nests.entry_update hu (Nest.engine_setDepth k n), if_pos rfl]
  exact PerKind.get_set_self ..

theorem unique_setDepth (hu : (m.nests t).Unique) (e : Nat) (k : Kind) (n : UInt32) :
    ((m.setDepth t e k n).nests t).Unique := by
  rw [setDepth, nests_setNests, if_pos rfl]
  exact Nests.unique_update hu (Nest.engine_setDepth k n) e

theorem deepen_ne (hu : (m.nests t).Unique) (h : ¬(e' = e ∧ k' = k)) :
    Still e' k' m (m.deepen t e k).1 := by
  unfold deepen
  dsimp only
  split
  · exact ensure_still ..
  · split
    · exact (setDepth_ne hu h _).trans (enterRecord_ne (unique_setDepth hu e k _) h)
    · exact setDepth_ne hu h _

theorem openSection_ne (hu : (m.nests t).Unique) (h : ¬(e' = e ∧ k' = k)) :
    Still e' k' m (m.openSection t e k).1 := by
  have hd := deepen_ne hu h
  unfold openSection
  dsimp only
  split
  · exact hd.trans (.mark_ne _ _ (fun hc => h ⟨hc.1.symm, hc.2.symm⟩) _)
  · exact hd

theorem openSection_cases (hu : (m.nests t).Unique)
    (hs : (m.task? t (m.engine e).access.scheduler).isSome = true) :
    (m.place t e k ≠ none ∧ Still e k m (m.openSection t e k).1) ∨
    (∃ w i, (m.openSection t e k).2 = .ok () ∧ Opening t e k w i m (m.openSection t e k).1) ∨
    ∃ f, (m.openSection t e k).2 = .error f ∧ Stranding t e k m (m.openSection t e k).1 := by
  unfold openSection deepen
  dsimp only
  by_cases hmax : m.readDepth t e k = 0xFFFFFFFF
  · refine .inl ⟨fun hp => ?_, ?_⟩
    · rw [readDepth_eq_zero.2 hp] at hmax
      cases hmax
    · rw [if_pos hmax]
      exact (ensure_still ..).trans (.mark _ _ _ _ rfl)
  rw [if_neg hmax]
  by_cases h0 : m.readDepth t e k = 0
  · have hu' := unique_setDepth hu e k (m.readDepth t e k + 1)
    have hd : (m.setDepth t e k (m.readDepth t e k + 1)).readDepth t e k ≠ 0 := by
      rw [readDepth_setDepth hu]
      exact succ_ne_zero hmax
    have hout := readDepth_eq_zero.1 h0
    rw [if_pos h0]
    rcases enterRecord_cases hu' hd with
      ⟨f, hf, hp, hdom, hh⟩ | ⟨w, i, hr, hwk, hp, hw, hreg, hi, hdom, hh⟩
    · refine .inr (.inr ⟨f, ?_⟩)
      have hpu (u : Nat) (hne : u ≠ t) := (hp u).trans (place_setDepth_of_ne m t e k _ hne)
      rw [setDepth] at hdom
      simp only [task, taskId_setNests] at hdom
      rw [hf]
      exact ⟨rfl, hout, hs, hpu, hdom, history_mark_self.trans (congrArg _ hh)⟩
    · rw [setDepth, taskId_setNests] at hi hdom
      rw [setDepth, task, taskId_setNests] at hwk
      refine .inr (.inl ⟨w, i, ?_⟩)
      rw [hr]
      refine ⟨hr, hout, hs, hwk, fun u => ?_, hw, hreg, hi, hdom, hh⟩
      rw [hp u]
      split
      · rfl
      · rename_i hne
        exact place_setDepth_of_ne m t e k _ hne
  · rw [if_neg h0]
    exact .inl ⟨fun hp => h0 (readDepth_eq_zero.2 hp), setDepth_still hu h0 (succ_ne_zero hmax)⟩

def rise (m : Machine) (t : Nat) (k : Kind) (i : Nat) : Machine :=
  m.setNests t ((m.nests t).modify i fun x =>
    x.setDepth k (((m.nests t).getD i default).depth.get k - 1))

theorem place_rise (hu : (m.nests t).Unique) {i : Nat} (h : (m.nests t).openPosition e k = some i)
    (e' : Nat) (k' : Kind) :
    ((m.rise t k i).nests t).place e' k' = if e' = e then
      (((m.nests t).entry e).setDepth k (m.readDepth t e k - 1)).place k' else m.place t e' k' := by
  obtain ⟨hi, hd⟩ := Nests.openPosition_eq_some hu h
  have hg : (m.nests t).getD i default = (m.nests t).entry e := by simp [List.getD, hi]
  rw [rise, nests_setNests, if_pos rfl, hg, Nests.place,
    Nests.entry_modify hu hi (Nest.engine_setDepth k _), Nests.engine_entry, readDepth,
    Nests.depth_eq]
  split <;> rfl

theorem rise_ne (hu : (m.nests t).Unique) {i : Nat} (hi : (m.nests t).openPosition e k = some i)
    (h : ¬(e' = e ∧ k' = k)) : Still e' k' m (m.rise t k i) := by
  refine .setNests m ?_
  have hp := place_rise hu hi e' k'
  rw [rise, nests_setNests, if_pos rfl] at hp
  rw [hp]
  split
  · rename_i he
    subst he
    exact Nest.place_setDepth_ne _ (fun hk => h ⟨rfl, hk⟩) _
  · rfl

theorem rise_still (hu : (m.nests t).Unique) {i : Nat} (hi : (m.nests t).openPosition e k = some i)
    (h : m.readDepth t e k - 1 ≠ 0) : Still e k m (m.rise t k i) := by
  obtain ⟨-, hd⟩ := Nests.openPosition_eq_some hu hi
  refine .setNests m ?_
  have hp := place_rise hu hi e k
  rw [rise, nests_setNests, if_pos rfl, if_pos rfl, Nest.place_setDepth _ hd h] at hp
  exact hp

theorem unique_rise (hu : (m.nests t).Unique) (k : Kind) (i : Nat) :
    ((m.rise t k i).nests t).Unique := by
  rw [rise, nests_setNests, if_pos rfl]
  exact Nests.unique_modify hu (Nest.engine_setDepth k _) i

theorem swapRemove_still (hu : (m.nests t).Unique) {n : Nest} {i : Nat}
    (hn : (m.nests t)[i]? = some n) (hidle : n.isIdle = true) (e' : Nat) (k' : Kind) :
    Still e' k' m (m.setNests t (swapRemove (m.nests t) i)) := by
  refine .setNests m ?_
  obtain ⟨hi, rfl⟩ := List.getElem?_eq_some_iff.1 hn
  rw [Nests.place, Nests.entry_swapRemove hu hn]
  split
  · rename_i he
    have hz := Nest.place_eq_none.2 ((Nest.isIdle_iff _).1 hidle k')
    have hent := Nests.entry_of_mem hu (List.getElem_mem hi)
    rw [place, Nests.place, he, hent, hz]
    simp [Nest.place]
  · rfl

theorem leaveRecord_ne (hu : (m.nests t).Unique) {n : Nest} {i : Nat}
    (hn : (m.nests t)[i]? = some n) (h : ¬(e' = e ∧ k' = k)) :
    Still e' k' m (m.leaveRecord t e k i).1 := by
  have hne : ¬(e = e' ∧ k = k') := fun hc => h ⟨hc.1.symm, hc.2.symm⟩
  have hg : (m.nests t).getD i default = n := by simp [List.getD, hn]
  have hd := Still.setDomain_ne m hne
    ((m.domain e k).onRecord (n.worker.get k) (·.leave (n.slot.get k))).1
  unfold leaveRecord
  dsimp only
  rw [hg]
  split
  · exact hd
  · refine hd.trans ?_
    split
    · rename_i hi
      exact (swapRemove_still (m := m.setDomain e k _) hu hn hi e' k').trans (.mark_ne _ _ hne _)
    · exact .mark_ne _ _ hne _

theorem leaveRecord_spec (hu : (m.nests t).Unique) {n : Nest} {i : Nat}
    (hn : (m.nests t)[i]? = some n) :
    (m.leaveRecord t e k i).2 =
      ((m.domain e k).onRecord (n.worker.get k) (·.leave (n.slot.get k))).2 ∧
    (∀ u, (m.leaveRecord t e k i).1.place u e k = m.place u e k) ∧
    (m.leaveRecord t e k i).1.domain e k =
      ((m.domain e k).onRecord (n.worker.get k) (·.leave (n.slot.get k))).1 ∧
    (((m.domain e k).onRecord (n.worker.get k) (·.leave (n.slot.get k))).2 = .ok () →
      (m.leaveRecord t e k i).1.history e k =
        (t, .closed (n.worker.get k) (n.slot.get k)) :: m.history e k) ∧
    ∀ f, ((m.domain e k).onRecord (n.worker.get k) (·.leave (n.slot.get k))).2 = .error f →
      (m.leaveRecord t e k i).1.history e k = m.history e k := by
  have hg : (m.nests t).getD i default = n := by simp [List.getD, hn]
  have hdom (d : Domain) : (m.setDomain e k d).domain e k = d :=
    (domain_setDomain ..).trans (if_pos ⟨rfl, rfl⟩)
  unfold leaveRecord
  dsimp only
  rw [hg]
  split
  · rename_i f hf
    exact ⟨hf.symm, fun _ => rfl, hdom _, fun hok => absurd (hf.symm.trans hok) nofun,
      fun _ _ => rfl⟩
  · rename_i hok
    have hno (f : Fault) : ((m.domain e k).onRecord (n.worker.get k)
        (·.leave (n.slot.get k))).2 ≠ .error f := fun hf => nomatch hok.symm.trans hf
    refine ⟨hok.symm, ?_⟩
    split
    · rename_i hi
      have hs := swapRemove_still (m := m.setDomain e k
        (((m.domain e k).onRecord (n.worker.get k) (·.leave (n.slot.get k))).1)) hu hn hi e k
      exact ⟨hs.place, hs.domain.trans (hdom _), fun _ => history_mark_self,
        fun f hf => absurd hf (hno f)⟩
    · exact ⟨fun _ => rfl, hdom _, fun _ => history_mark_self, fun f hf => absurd hf (hno f)⟩

theorem closeSection_eq (m : Machine) (t e : Nat) (k : Kind) : m.closeSection t e k =
    match (m.nests t).openPosition e k with
    | none => (m, .error (.unlockOutside k))
    | some i =>
      if ((m.nests t).getD i default).depth.get k - 1 = 0 then (m.rise t k i).leaveRecord t e k i
      else (m.rise t k i, .ok ()) := rfl

theorem getElem?_rise (hu : (m.nests t).Unique) {i : Nat}
    (hi : (m.nests t).openPosition e k = some i) :
    ((m.rise t k i).nests t)[i]? =
      some (((m.nests t).entry e).setDepth k (m.readDepth t e k - 1)) := by
  obtain ⟨hn, -⟩ := Nests.openPosition_eq_some hu hi
  have hg : (m.nests t).getD i default = (m.nests t).entry e := by simp [List.getD, hn]
  rw [rise, nests_setNests, if_pos rfl, List.getElem?_modify_eq, hn, hg, readDepth, Nests.depth_eq]
  rfl

theorem closeSection_ne (hu : (m.nests t).Unique) (h : ¬(e' = e ∧ k' = k)) :
    Still e' k' m (m.closeSection t e k).1 := by
  rw [closeSection_eq]
  split
  · exact .refl ..
  · rename_i i hi
    split
    · exact (rise_ne hu hi h).trans
        (leaveRecord_ne (unique_rise hu k i) (getElem?_rise hu hi) h)
    · exact rise_ne hu hi h

theorem closeSection_cases (hu : (m.nests t).Unique) :
    Still e k m (m.closeSection t e k).1 ∨
    ∃ w i, (m.closeSection t e k).2 = ((m.domain e k).onRecord w (·.leave i)).2 ∧
      Closing t e k w i m (m.closeSection t e k).1 := by
  rw [closeSection_eq]
  split
  · exact .inl (.refl ..)
  · rename_i i hi
    obtain ⟨hn, hd⟩ := Nests.openPosition_eq_some hu hi
    have hg : (m.nests t).getD i default = (m.nests t).entry e := by simp [List.getD, hn]
    have hdep : ((m.nests t).entry e).depth.get k = m.readDepth t e k := (Nests.depth_eq ..).symm
    rw [hg, hdep]
    rw [hdep] at hd
    split
    · rename_i h0
      obtain ⟨hr, hp, hdom, hh, hf⟩ := leaveRecord_spec (e := e) (k := k) (unique_rise hu k i)
        (getElem?_rise hu hi)
      refine .inr ⟨((m.nests t).entry e).worker.get k, ((m.nests t).entry e).slot.get k, hr, ?_,
        fun u => ?_, hdom, hh, hf⟩
      · rw [← hdep] at hd
        simp [place, Nests.place, Nest.place, hd]
      · rw [hp u, rise, place_setNests]
        split
        · have := place_rise hu hi e k
          rw [rise, nests_setNests, if_pos rfl, if_pos rfl, h0] at this
          rw [this, Nest.place_setDepth_zero]
        · rfl
    · rename_i h0
      exact .inl (rise_still hu hi h0)

theorem readDepth_eq (m : Machine) (t e : Nat) (k : Kind) :
    m.readDepth t e k = ((m.nests t).entry e).depth.get k := Nests.depth_eq ..

theorem readDepth_enterRecord (hu : (m.nests t).Unique) :
    (m.enterRecord t e k).1.readDepth t e k = m.readDepth t e k := by
  unfold enterRecord
  dsimp only
  split
  · rfl
  · split
    · rfl
    · rename_i i _
      have hn := (Nests.entry_update hu (Nest.engine_setPlace k
        (m.task t (m.engine e).access.scheduler).worker i) e e).trans (if_pos rfl)
      have hd := congrArg (fun n : Nest => n.depth.get k) hn
      show readDepth (setNests _ t _) t e k = _
      rw [readDepth_eq, readDepth_eq, nests_setNests, if_pos rfl]
      exact hd

theorem readDepth_openSection (hu : (m.nests t).Unique) (hmax : m.readDepth t e k ≠ 0xFFFFFFFF) :
    (m.openSection t e k).1.readDepth t e k = m.readDepth t e k + 1 := by
  have hd : (m.deepen t e k).1.readDepth t e k = m.readDepth t e k + 1 := by
    unfold deepen
    rw [if_neg hmax]
    split
    · rw [readDepth_enterRecord (unique_setDepth hu e k _), readDepth_setDepth hu]
    · exact readDepth_setDepth hu ..
  unfold openSection
  dsimp only
  split <;> exact hd

theorem openSection_overflow (hmax : m.readDepth t e k = 0xFFFFFFFF) :
    (m.openSection t e k).2 = .error .nestingOverflow := by
  unfold openSection deepen
  rw [if_pos hmax]

theorem openSection_nested (h0 : m.readDepth t e k ≠ 0) (hmax : m.readDepth t e k ≠ 0xFFFFFFFF) :
    (m.openSection t e k).2 = .ok () := by
  unfold openSection deepen
  rw [if_neg hmax, if_neg h0]

theorem readDepth_rise (hu : (m.nests t).Unique) {i : Nat}
    (hi : (m.nests t).openPosition e k = some i) :
    (m.rise t k i).readDepth t e k = m.readDepth t e k - 1 := by
  have hn := getElem?_rise hu hi
  have hm := Nests.entry_of_mem (unique_rise hu k i) (List.mem_of_getElem? hn)
  have he : (((m.nests t).entry e).setDepth k (m.readDepth t e k - 1)).engine = e :=
    (Nest.engine_setDepth ..).trans (Nests.engine_entry ..)
  rw [he] at hm
  rw [readDepth_eq, hm]
  exact PerKind.get_set_self ..

theorem readDepth_closeSection (hu : (m.nests t).Unique) (hd : m.readDepth t e k ≠ 0) :
    (m.closeSection t e k).1.readDepth t e k = m.readDepth t e k - 1 := by
  rw [closeSection_eq]
  split
  · rename_i hn
    exact absurd (Nests.openPosition_eq_none hn) hd
  · rename_i i hi
    have hr := readDepth_rise hu hi
    split
    · unfold leaveRecord
      dsimp only
      split
      · exact hr
      · split
        · -- the entry goes, and with it a depth that is zero
          rename_i hidle
          have hn := getElem?_rise hu hi
          have hg : ((m.rise t k i).nests t).getD i default =
              ((m.nests t).entry e).setDepth k (m.readDepth t e k - 1) := by
            simp [List.getD, hn]
          rw [hg] at hidle
          have h0 := (Nest.isIdle_iff _).1 hidle k
          show readDepth (setNests _ t _) t e k = _
          rw [readDepth_eq, nests_setNests, if_pos rfl]
          have he : (((m.nests t).entry e).setDepth k (m.readDepth t e k - 1)).engine = e :=
            (Nest.engine_setDepth ..).trans (Nests.engine_entry ..)
          refine (congrArg (fun n : Nest => n.depth.get k)
            ((Nests.entry_swapRemove (unique_rise hu k i) hn e).trans (if_pos he.symm))).trans ?_
          rw [Nest.setDepth, PerKind.get_set_self] at h0
          rw [h0]
          cases k <;> rfl
        · exact hr
    · exact hr

/-- A list of marks that thread `t` has made in locks and unlocks. -/
def Reads (t : Nat) (vs : List (Nat × Event)) : Prop :=
  ∀ p ∈ vs, p.1 = t ∧ ∃ e k v, p.2 = .mark e k v ∧ v.isReading = true

/-- At most the nests of thread `t`, domains and the trace have changed. -/
structure Inside (t : Nat) (m m' : Machine) : Prop where
  eq : m' = { m with engines := m'.engines, threads := m'.threads, trace := m'.trace }
  thread : ∃ ns : Nests, ∀ u, m'.thread u = if u = t then { m.thread u with nests := ns } else m.thread u
  engine : ∀ e, ∃ ds, m'.engine e = { m.engine e with domains := ds }
  workers : ∀ e k, (m'.domain e k).workers = (m.domain e k).workers
  trace : ∃ vs, m'.trace = vs ++ m.trace ∧ Reads t vs
  engines_le : m.engines.size ≤ m'.engines.size
  threads_le : m.threads.size ≤ m'.threads.size

namespace Inside

theorem refl (t : Nat) (m : Machine) : Inside t m m := by
  refine ⟨rfl, ⟨(m.thread t).nests, fun u => ?_⟩, fun e => ⟨(m.engine e).domains, rfl⟩,
    fun _ _ => rfl, ⟨[], rfl, nofun⟩, Nat.le_refl _, Nat.le_refl _⟩
  split
  · rename_i h
    rw [h]
  · rfl

theorem trans {m m' m'' : Machine} (h : Inside t m m') (h' : Inside t m' m'') : Inside t m m'' := by
  obtain ⟨ns, hn⟩ := h.thread
  obtain ⟨ns', hn'⟩ := h'.thread
  obtain ⟨vs, ht, hv⟩ := h.trace
  obtain ⟨vs', ht', hv'⟩ := h'.trace
  refine ⟨?_, ⟨ns', fun u => ?_⟩, fun e => ?_, fun e k => (h'.workers e k).trans (h.workers e k),
    ⟨vs' ++ vs, ?_, ?_⟩, h.engines_le.trans h'.engines_le, h.threads_le.trans h'.threads_le⟩
  · rw [h'.eq, h.eq]
  · rw [hn', hn]
    split <;> rfl
  · obtain ⟨ds, hd⟩ := h.engine e
    obtain ⟨ds', hd'⟩ := h'.engine e
    exact ⟨ds', by rw [hd', hd]⟩
  · rw [ht', ht, List.append_assoc]
  · intro p hp
    exact (List.mem_append.1 hp).elim (hv' p) (hv p)

theorem setNests (m : Machine) (t : Nat) (ns : Nests) : Inside t m (m.setNests t ns) :=
  ⟨rfl, ⟨ns, fun u => thread_modifyThread m t u _⟩, fun e => ⟨(m.engine e).domains, rfl⟩,
    fun _ _ => rfl, ⟨[], rfl, nofun⟩, Nat.le_refl _, Table.size_le_modify ..⟩

theorem setDomain (m : Machine) (t e : Nat) (k : Kind) {d : Domain}
    (hd : d.workers = (m.domain e k).workers) : Inside t m (m.setDomain e k d) := by
  refine ⟨rfl, (Inside.refl t m).thread, fun e' => ?_, fun e' k' => ?_, ⟨[], rfl, nofun⟩,
    Table.size_le_modify .., Nat.le_refl _⟩
  · simp only [Machine.engine, Machine.setDomain, modifyEngine, Table.get_modify]
    split
    · rename_i h
      rw [h]
      exact ⟨_, rfl⟩
    · exact ⟨_, rfl⟩
  · rw [domain_setDomain]
    split
    · rename_i h
      rw [hd, h.1, h.2]
    · rfl

theorem mark (m : Machine) (t e : Nat) (k : Kind) {v : Mark} (hv : v.isReading = true) :
    Inside t m (m.mark t e k v) := by
  refine ⟨rfl, (Inside.refl t m).thread, (Inside.refl t m).engine, fun _ _ => rfl,
    ⟨[(t, .mark e k v)], rfl, ?_⟩, Nat.le_refl _, Nat.le_refl _⟩
  intro p hp
  rw [List.mem_singleton.1 hp]
  exact ⟨rfl, e, k, v, rfl, hv⟩

theorem enterRecord (m : Machine) (t e : Nat) (k : Kind) : Inside t m (m.enterRecord t e k).1 := by
  unfold Machine.enterRecord
  dsimp only
  split
  · exact .refl t m
  · split
    · exact .setDomain m t e k (Domain.workers_setRecord ..)
    · exact (setDomain m t e k (by rfl)).trans ((setNests _ t _).trans (.mark _ _ _ _ rfl))

theorem openSection (m : Machine) (t e : Nat) (k : Kind) : Inside t m (m.openSection t e k).1 := by
  have hd : Inside t m (m.deepen t e k).1 := by
    unfold deepen
    dsimp only
    split
    · exact .setNests ..
    · split
      · exact (setNests m t _).trans (.enterRecord ..)
      · exact .setNests ..
  unfold Machine.openSection
  dsimp only
  split
  · exact hd.trans (.mark _ _ _ _ rfl)
  · exact hd

theorem closeSection (m : Machine) (t e : Nat) (k : Kind) :
    Inside t m (m.closeSection t e k).1 := by
  rw [closeSection_eq]
  split
  · exact .refl t m
  · rename_i i _
    have hr : Inside t m (m.rise t k i) := .setNests ..
    split
    · refine hr.trans ?_
      unfold leaveRecord
      dsimp only
      split
      · exact .setDomain _ t e k (Domain.workers_onRecord ..)
      · refine .trans ?_ (.mark _ _ _ _ rfl)
        split
        · exact (setDomain _ t e k (Domain.workers_onRecord ..)).trans (.setNests ..)
        · exact .setDomain _ t e k (Domain.workers_onRecord ..)
    · exact hr

variable {m' : Machine}

theorem part {β : Type} (h : Inside t m m') (p : Thread → β)
    (hp : ∀ x ns, p { x with nests := ns } = p x) (u : Nat) : p (m'.thread u) = p (m.thread u) := by
  obtain ⟨ns, hn⟩ := h.thread
  rw [hn]
  split
  · exact hp ..
  · rfl

theorem nests_ne (h : Inside t m m') {u : Nat} (hu : u ≠ t) : m'.nests u = m.nests u := by
  obtain ⟨ns, hn⟩ := h.thread
  rw [nests, hn, if_neg hu]
  rfl

theorem access (h : Inside t m m') (e : Nat) : (m'.engine e).access = (m.engine e).access := by
  obtain ⟨ds, hd⟩ := h.engine e
  rw [hd]

end Inside

end GracePeriod.Machine
