import GracePeriod.Proofs.Stack

namespace GracePeriod.Machine

variable {scope : Scope} {m m' : Machine} {t u : Nat}

theorem Move.ready (h : Move scope u m m') (ho : Orderly m) (ha : (m.thread t).status = .active)
    (ht : t ∈ m'.ready) : t ∈ m.ready := by
  cases h with
  | enroll s =>
    rw [enroll_eq] at ht
    exact ht
  | notify d =>
    rw [notify_eq] at ht
    refine (List.mem_append.1 ht).resolve_right fun hw => ?_
    have hs := (ho.waiters d t hw).symm.trans ha
    cases hs
  | openSection e k hs =>
    rw [(Inside.openSection m u e k).eq] at ht
    exact ht
  | closeSection e k =>
    rw [(Inside.closeSection m u e k).eq] at ht
    exact ht
  | _ => exact ht

theorem ready_endThread (p : Option Payload) (ha : (m.thread t).status = .active) (hu : t ≠ u)
    (ht : t ∈ (m.endThread u p).ready) : t ∈ m.ready := by
  rw [endThread_eq, wakeAll_eq] at ht
  rcases List.mem_append.1 ht with ht | hj
  · rw [bury_eq] at ht
    exact ht
  · have hs : (m.thread t).status = .joining u := by
      have hth := thread_bury m u p t
      rw [if_neg hu] at hth
      exact (congrArg Thread.status hth).symm.trans (mem_joiners.1 hj)
    cases hs.symm.trans ha

theorem Leave.ready (h : Leave u m m') (ha : (m.thread t).status = .active) (hu : t ≠ u)
    (ht : t ∈ m'.ready) : t ∈ m.ready := by
  cases h with
  | join v =>
    unfold Machine.join at ht
    dsimp only at ht
    split at ht
    · exact ht
    · exact (List.mem_append.1 ht).resolve_right fun hc => hu (List.mem_singleton.1 hc)
  | endThread p => exact ready_endThread p ha hu ht
  | _ => exact ht

theorem External.ready (h : External m m') (ha : (m.thread t).status = .active)
    (ht : t ∈ m'.ready) : t ∈ m.ready := by
  have hpark (u : Nat) (hp : m.isParked u = true) : t ≠ u := by
    rintro rfl
    rw [isParked, ha] at hp
    cases hp
  have hidle (u : Nat) (hi : m.isIdle u = true) : t ≠ u := by
    rintro rfl
    rw [isIdle, ha] at hi
    cases hi
  have hwake {n : Machine} {u : Nat} (hu : t ≠ u) (ht : t ∈ (n.wake u).ready) : t ∈ n.ready :=
    (List.mem_append.1 ht).resolve_right fun hc => hu (List.mem_singleton.1 hc)
  cases h with
  | actor i => exact ht
  | resume hp => exact hwake (hpark _ hp) ht
  | @fault u _ hp text => exact hwake (n := m.back u (.error (.text text))) (hpark u hp) ht
  | @instruct u _ hi op => exact hwake (n := m.eval u none op) (hidle u hi) ht
  | exit hi => exact ready_endThread none ha (hidle _ hi) ht

theorem Leave.turn_eq_none (h : Leave u m m') : m'.turn = none := by
  cases h with
  | join v =>
    unfold Machine.join
    dsimp only
    split <;> rfl
  | _ => rfl

theorem External.turn_cases (h : External m m') : m'.turn = m.turn ∨ m'.turn = none := by
  cases h with
  | exit hi => exact .inr rfl
  | _ => exact .inl rfl

/-- The thread is at work, but will never have the turn. -/
structure OutOfTurns (m : Machine) (t : Nat) : Prop where
  status : (m.thread t).status = .active
  turn : m.turn ≠ some t
  ready : t ∉ m.ready

theorem OutOfTurns.change (h : m.OutOfTurns t) (ho : Orderly m) (hc : Change m m') : m'.OutOfTurns t := by
  have hsize : t < m.threads.size := lt_threads_size (by rw [h.status]; nofun)
  cases hc with
  | @move u _ _ hu hm =>
    refine ⟨hm.status ho hsize h.status nofun, hm.turn ▸ h.turn, fun hr => h.ready ?_⟩
    exact hm.ready ho h.status hr
  | @leave u _ _ hu hl =>
    have ht : t ≠ u := by
      rintro rfl
      exact h.turn hu
    refine ⟨?_, ?_, fun hr => h.ready (hl.ready h.status ht hr)⟩
    · rcases hl.status ht h.status with hs | ⟨hs, -⟩
      · exact hs
      · cases hs
    · rw [hl.turn_eq_none]
      exact (Option.some_ne_none t).symm
  | pick hn hr =>
    refine ⟨h.status, fun hc => h.ready ?_, fun hc => h.ready ?_⟩
    · rw [hr, Option.some.inj hc]
      exact List.mem_cons_self
    · rw [hr]
      exact List.mem_cons_of_mem _ hc
  | external he =>
    refine ⟨?_, ?_, fun hr => h.ready (he.ready h.status hr)⟩
    · rcases he.status hsize h.status nofun nofun with hs | ⟨v, hv, -⟩
      · exact hs
      · cases hv
    · rcases he.turn_cases with hturn | hturn
      · rw [hturn]
        exact h.turn
      · rw [hturn]
        exact (Option.some_ne_none t).symm

theorem OutOfTurns.changes (h : m.OutOfTurns t) (ho : Orderly m) (hc : Changes m m') : m'.OutOfTurns t :=
  (hc.preserves (P := fun n => Orderly n ∧ n.OutOfTurns t)
    (fun _ _ hn hc => ⟨hn.1.change hc, hn.2.change hn.1 hc⟩) ⟨ho, h⟩).2

/-- Who has the turn keeps it whatever happens outside, or loses it for good. -/
theorem External.turn_or_outOfTurns (h : External m m') (ho : Orderly m) (ht : m.turn = some t) :
    m'.turn = some t ∨ m'.OutOfTurns t := by
  obtain ⟨ha, hr⟩ := ho.turn t ht
  rcases h.turn_cases with hturn | hturn
  · exact .inl (hturn.trans ht)
  · refine .inr ⟨?_, ?_, fun hc => hr (h.ready ha hc)⟩
    · rcases h.status (lt_threads_size (by rw [ha]; nofun)) ha nofun nofun with hs | ⟨v, hv, -⟩
      · exact hs
      · cases hv
    · rw [hturn]
      exact (Option.some_ne_none t).symm

end GracePeriod.Machine
