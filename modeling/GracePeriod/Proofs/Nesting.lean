import GracePeriod.Proofs.Lifespan
import GracePeriod.Proofs.SectionSteps

namespace GracePeriod

def Event.lockPanics : Event → Bool
  | .mark _ _ .lockPanicked => true
  | _ => false

namespace Machine

open History

variable {b : Bool} {m m' m'' n : Machine} {t u s d e e' : Nat} {k k' : Kind}

/-- No lock of any thread has panicked. -/
def LocksReturned (m : Machine) : Prop := ∀ u e k, (u, Mark.lockPanicked) ∉ m.history e k

namespace LocksReturned

theorem of_trace (h : ∀ p ∈ m.trace, p.2.lockPanics = false) : m.LocksReturned := by
  intro u e k hmem
  obtain ⟨p, hp, hm⟩ := List.mem_filterMap.1 hmem
  obtain ⟨v, hv, heq⟩ := Option.map_eq_some_iff.1 hm
  obtain rfl : v = .lockPanicked := congrArg Prod.snd heq
  have hno := h p hp
  unfold Event.markFor at hv
  split at hv
  · next hev =>
    split at hv
    · cases hv
      rw [hev] at hno
      cases hno
    · cases hv
  · cases hv

theorem before (h : m'.LocksReturned) (hc : Changes m m') : m.LocksReturned := by
  intro u e k hmem
  obtain ⟨vs, hh⟩ := hc.history e k
  exact h u e k (hh ▸ List.mem_append_right vs hmem)

theorem accounts (h : m.LocksReturned) (hv : Visited m) (e : Nat) (k : Kind) : Accounts m e k :=
  hv.accounts (noneStranded_of_not_mem fun u => h u e k)

theorem lt_size (h : m.LocksReturned) (hv : Visited m) (hd : m.readDepth t e k ≠ 0) :
    e < m.engines.size := by
  have ha := h.accounts hv e k
  obtain ⟨⟨w, i⟩, hp⟩ := Option.ne_none_iff_exists'.1 (mt readDepth_eq_zero.2 hd)
  have hw := (ha.registered ⟨t, w, i⟩ ((ha.mem_iff _).2 hp)).1
  exact lt_engines_size (k := k) (Nat.ne_of_gt (Nat.zero_lt_of_lt hw))

end LocksReturned

theorem Changes.engines_le (h : Changes m m') : m.engines.size ≤ m'.engines.size :=
  h.preserves (P := fun n => m.engines.size ≤ n.engines.size) (fun _ _ hn hc => hn.trans hc.engines_le)
    (Nat.le_refl _)

/-- Thread `t` is in the sections that it was in, and engines have kept their schedulers. -/
structure SameNests (t : Nat) (m m' : Machine) : Prop where
  nests : m'.nests t = m.nests t
  engines_le : m.engines.size ≤ m'.engines.size
  access : ∀ e < m.engines.size, (m'.engine e).access = (m.engine e).access

namespace SameNests

theorem refl (t : Nat) (m : Machine) : SameNests t m m := ⟨rfl, Nat.le_refl _, fun _ _ => rfl⟩

theorem trans (h : SameNests t m m') (h' : SameNests t m' m'') : SameNests t m m'' :=
  ⟨h'.nests.trans h.nests, h.engines_le.trans h'.engines_le, fun e he =>
    (h'.access e (Nat.lt_of_lt_of_le he h.engines_le)).trans (h.access e he)⟩

theorem of_engines (hn : m'.nests t = m.nests t) (he : m'.engines = m.engines) : SameNests t m m' :=
  ⟨hn, by rw [he], fun e _ => by rw [engine, he, engine]⟩

theorem of_changes (hn : m'.nests t = m.nests t) (hc : Changes m m') : SameNests t m m' :=
  ⟨hn, Changes.engines_le hc, fun _ he => (hc.access he).2⟩

theorem readDepth (h : SameNests t m m') (e : Nat) (k : Kind) : m'.readDepth t e k = m.readDepth t e k :=
  congrArg (Nests.depth · e k) h.nests

theorem place (h : SameNests t m m') (e : Nat) (k : Kind) : m'.place t e k = m.place t e k :=
  congrArg (Nests.place · e k) h.nests

theorem advance (hb : m.BuildsIdle) (hu : m.turn = some u) (ht : t ≠ u) : SameNests t m (m.advance u) :=
  of_changes (advance_nests_ne hb hu ht) (advance_changes hb hu)

theorem external (h : External m m') : SameNests t m m' :=
  of_engines (h.keepsEngines.nests t) h.keepsEngines.engines

end SameNests

theorem Unasked.sameNests (h : Unasked t m m') : SameNests t m m' := ⟨h.nests, h.engines_le, h.access⟩

theorem KeepsPin.sameNests (h : KeepsPin b t s m m') : SameNests t m m' := by
  have hserved {m' : Machine} (h : Served m m') : SameNests t m m' :=
    .of_engines (h.nests t) (congrArg engines h.eq :)
  cases h with
  | still h => exact h.sameNests
  | enroll c => exact hserved (.enroll ..)
  | change c f ha hf => exact hserved (.changeTask ..)
  | adjust c f hf | endPause c id => exact hserved (.modifyScheduler ..)
  | addScheduler n => exact .of_engines rfl rfl
  | wait e k c target he hs =>
    exact .of_engines (part_modifyThread Thread.nests m t t fun _ => rfl) rfl

theorem KeepsPins.sameNests (h : KeepsPins b t s m m') : SameNests t m m' := by
  induction h with
  | refl => exact .refl t _
  | tail _ hd ih => exact ih.trans hd.sameNests

theorem sameNests_startSynchronize (he : e < m.engines.size) (t : Nat) (k : Kind) :
    SameNests t m (m.startSynchronize t e k) := by
  have hcall : KeepsPins true t ((m.engine e).access.scheduler + 1) m (m.startSynchronize t e k) :=
    KeepsPins.startSynchronize .refl he (Nat.ne_of_lt (Nat.lt_succ_self _))
  exact hcall.sameNests

theorem sameNests_resumeGrace (he : e < m.engines.size) (t : Nat) (o : Outcome) (k : Kind) (c : Snapshot)
    (target : UInt32) : SameNests t m (m.resume t o (.grace e k c target)) := by
  have hlook : KeepsPins true t ((m.engine e).access.scheduler + 1) m (m.resume t o (.grace e k c target)) :=
    KeepsPins.resumeGrace .refl he (Nat.ne_of_lt (Nat.lt_succ_self _)) o k c target
  exact hlook.sameNests

theorem Visited.moves (hv : Visited m) (h : Moves .all t m n) (ht : m.turn = some t) :
    Visited n ∧ n.turn = some t := by
  obtain ⟨m₀, h₀, hc⟩ := hv
  obtain ⟨hc', ht'⟩ := h.changes ht
  exact ⟨⟨m₀, h₀, hc.trans hc'⟩, ht'⟩

theorem Approach.visited (h : Approach t m n) (hv : Visited m) (ht : m.turn = some t) :
    Visited n ∧ n.turn = some t := hv.moves h.moves ht

/-- What neither enters nor leaves a section ends the thread or leaves it in the sections that it was in.
-/
theorem Doing.sameNests (h : Doing b t s m m') (hr : Reachable m) (ht : m.turn = some t)
    (hm : m' = m.advance t) : m'.Ended t ∨ SameNests t m m' := by
  cases h with
  | deals h => exact .inr h.sameNests
  | calls n h d e k hd hm' =>
    have he := (h.visited hr.visited ht).1.drainsAssigned.engine d e k hd
    exact .inr (hm' ▸ h.toUnasked.sameNests.trans (sameNests_startSynchronize he t k))
  | looks o e k c target rest hc hs =>
    obtain ⟨pre, hw⟩ := (hr.graceState t).waits (hs ▸ List.mem_cons_self)
    rw [hm, advance_back hc hs]
    have hpop := (Unasked.pop hs).sameNests
    have he := Nat.lt_of_lt_of_le hw.size hpop.engines_le
    exact .inr (hpop.trans (sameNests_resumeGrace he t o k c target))
  | ends h => exact .inl h

/-- Of the depths of thread `t`, only that in one domain has changed. -/
structure Shifts (t e : Nat) (k : Kind) (m m' : Machine) : Prop where
  elsewhere : ∀ e' k', ¬(e' = e ∧ k' = k) → m'.readDepth t e' k' = m.readDepth t e' k'
  engines_le : m.engines.size ≤ m'.engines.size
  access : ∀ e < m.engines.size, (m'.engine e).access = (m.engine e).access

namespace Shifts

theorem of_same (h : SameNests t m m') : Shifts t e k m m' :=
  ⟨fun e' k' _ => h.readDepth e' k', h.engines_le, h.access⟩

theorem trans (h : Shifts t e k m m') (h' : Shifts t e k m' m'') : Shifts t e k m m'' :=
  ⟨fun e' k' hne => (h'.elsewhere e' k' hne).trans (h.elsewhere e' k' hne),
    h.engines_le.trans h'.engines_le,
    fun e he => (h'.access e (Nat.lt_of_lt_of_le he h.engines_le)).trans (h.access e he)⟩

theorem inside (hi : Inside t m m') (he : Elsewhere t e k m m') : Shifts t e k m m' :=
  ⟨fun e' k' hne => he t e' k' fun hc => hne hc.2, hi.engines_le, fun e _ => hi.access e⟩

theorem readLock (hn : m.NestsUnique) : Shifts t e k m (m.readLock t e k).1 := by
  unfold Machine.readLock
  split
  · exact of_same (.of_engines rfl rfl)
  · have hpin : Served m (m.pin t (m.engine e).access) := .pin ..
    exact (of_same (.of_engines (hpin.nests t) (congrArg engines hpin.eq :))).trans
      (.inside (.openSection ..) (.openSection (unique_pin hn ..)))

theorem readUnlock (hn : m.NestsUnique) : Shifts t e k m (m.readUnlock t e k).1 := by
  have hc : Shifts t e k m (m.closeSection t e k).1 := .inside (.closeSection ..) (.closeSection (hn t))
  unfold Machine.readUnlock
  split
  · exact of_same (.of_engines rfl rfl)
  · dsimp only
    split
    · exact hc
    · have hunpin : Served (m.closeSection t e k).1 _ :=
        .unpin _ t ((m.closeSection t e k).1.engine e).access
      exact hc.trans (of_same (.of_engines (hunpin.nests t) (congrArg engines hunpin.eq :)))

end Shifts

/-- What a lock that does not panic does to the depths of its thread. -/
structure Deepens (t e : Nat) (k : Kind) (m m' : Machine) : Prop extends Shifts t e k m m' where
  depth : (m'.readDepth t e k).toNat = (m.readDepth t e k).toNat + 1

structure Rises (t e : Nat) (k : Kind) (m m' : Machine) : Prop extends Shifts t e k m m' where
  depth : (m'.readDepth t e k).toNat + 1 = (m.readDepth t e k).toNat

theorem Deepens.between (h : Deepens t e k n m') {n' : Machine} (hb : SameNests t m n)
    (ha : SameNests t m' n') : Deepens t e k m n' where
  toShifts := ((Shifts.of_same hb).trans h.toShifts).trans (.of_same ha)
  depth := by rw [ha.readDepth, h.depth, hb.readDepth]

theorem Rises.between (h : Rises t e k n m') {n' : Machine} (hb : SameNests t m n)
    (ha : SameNests t m' n') : Rises t e k m n' where
  toShifts := ((Shifts.of_same hb).trans h.toShifts).trans (.of_same ha)
  depth := by rw [ha.readDepth, h.depth, hb.readDepth]

theorem deepens_readLock (hn : m.NestsUnique) (hs : m.skips e = false) (ho : (m.readLock t e k).2 = .ok ()) :
    Deepens t e k m (m.readLock t e k).1 := by
  obtain ⟨hmax, hd⟩ := readDepth_readLock hn hs ho
  exact ⟨.readLock hn, by rw [hd, toNat_succ hmax]⟩

theorem rises_readUnlock (hn : m.NestsUnique) (ha : Accounts m e k) (hs : m.skips e = false)
    (hd : m.readDepth t e k ≠ 0) : Rises t e k m (m.readUnlock t e k).1 := by
  refine ⟨.readUnlock hn, ?_⟩
  rw [(readUnlock_effect hn ha hs).1 hd, toNat_pred hd]

theorem Locks.skipped (h : Locks t e k m n m') (hs : n.skips e = true) : KeepsPins b t s m m' := by
  refine (h.before.keepsPins.mark e k .skipped).still ?_
  have ha := h.after.toUnasked
  rwa [readLock_skips hs] at ha

theorem Unlocks.skipped (h : Unlocks t e k m n m') (hs : n.skips e = true) : KeepsPins b t s m m' := by
  refine (h.before.keepsPins.mark e k .skipped).still ?_
  have ha := h.after.toUnasked
  rwa [readUnlock_skips hs] at ha

theorem Unlocks.refused (h : Unlocks t e k m n m') (hs : n.skips e = false) (hn : n.NestsUnique)
    (hd : n.readDepth t e k = 0) : KeepsPins b t s m m' := by
  refine h.before.keepsPins.still ?_
  have ha := h.after.toUnasked
  rwa [readUnlock_outside hs hd hn] at ha

theorem Moves.readLock (m : Machine) (t e : Nat) (k : Kind) : Moves .all t m (m.readLock t e k).1 :=
  Actions.moves (Actions.readLock .refl e k)

theorem Moves.readUnlock (m : Machine) (t e : Nat) (k : Kind) : Moves .all t m (m.readUnlock t e k).1 :=
  Actions.moves (Actions.readUnlock .refl e k)

theorem Locks.moves (h : Locks t e k m n m') : Moves .all t n m' :=
  (Moves.readLock ..).trans h.after.moves

theorem Unlocks.moves (h : Unlocks t e k m n m') : Moves .all t n m' :=
  (Moves.readUnlock ..).trans h.after.moves

theorem Locks.returned (h : Locks t e k m n m') (hp : m'.LocksReturned) : (n.readLock t e k).2 = .ok () := by
  cases hq : (n.readLock t e k).2 with
  | ok r => rfl
  | error f =>
    obtain ⟨vs, hh, -⟩ := h.after.moves.history e k
    exact absurd (hh ▸ List.mem_append_right vs (lockPanicked_of_error hq)) (hp t e k)

theorem Locks.deepens (h : Locks t e k m n m') (hn : n.NestsUnique) (hp : m'.LocksReturned)
    (hs : n.skips e = false) : Deepens t e k m m' :=
  (deepens_readLock hn hs (h.returned hp)).between h.before.toUnasked.sameNests h.after.toUnasked.sameNests

theorem Unlocks.rises (h : Unlocks t e k m n m') (hn : n.NestsUnique) (ha : Accounts n e k)
    (hs : n.skips e = false) (hd : n.readDepth t e k ≠ 0) : Rises t e k m m' :=
  (rises_readUnlock hn ha hs hd).between h.before.toUnasked.sameNests h.after.toUnasked.sameNests

theorem readDepth_of_place {w i : Nat} (h : m.place t e k = some (w, i)) : m.readDepth t e k ≠ 0 :=
  mt readDepth_eq_zero.1 (by rw [h]; exact Option.some_ne_none _)

theorem place_readLock (hn : m.NestsUnique) (hs : m.skips e = false) (ho : (m.readLock t e k).2 = .ok ())
    {w i : Nat} (hp : (m.readLock t e k).1.place t e' k' = some (w, i)) : m.place t e' k' = some (w, i) ∨
      (e' = e ∧ k' = k) ∧ Opening t e k w i (m.pin t (m.engine e).access) (m.readLock t e k).1 := by
  let q := m.pin t (m.engine e).access
  have hpin : Served m q := .pin ..
  have hu : (q.nests t).Unique := unique_pin hn ..
  rw [readLock_eq hs] at hp ho ⊢
  by_cases hek : e' = e ∧ k' = k
  · obtain ⟨rfl, rfl⟩ := hek
    rcases openSection_cases (k := k') hu (enrolled_pin m t e') with
      ⟨-, hst⟩ | ⟨w', i', -, hopen⟩ | ⟨f, hf, -⟩
    · rw [hst.place, (hpin.still e' k').place] at hp
      exact .inl hp
    · rw [hopen.place, if_pos rfl] at hp
      obtain ⟨rfl, rfl⟩ := Prod.mk.inj (Option.some.inj hp)
      exact .inr ⟨⟨rfl, rfl⟩, hopen⟩
    · cases ho.symm.trans hf
  · rw [(openSection_ne hu hek).place, (hpin.still e' k').place] at hp
    exact .inl hp

theorem place_readUnlock (hn : m.NestsUnique) {w i : Nat}
    (hp : (m.readUnlock t e k).1.place t e' k' = some (w, i)) : m.place t e' k' = some (w, i) := by
  have hclose (hp : (m.closeSection t e k).1.place t e' k' = some (w, i)) :
      m.place t e' k' = some (w, i) := by
    by_cases hek : e' = e ∧ k' = k
    · obtain ⟨rfl, rfl⟩ := hek
      rcases closeSection_cases (e := e') (k := k') (hn t) with hst | ⟨w', i', -, hcl⟩
      · rwa [hst.place] at hp
      · rw [hcl.place, if_pos rfl] at hp
        cases hp
    · rwa [(closeSection_ne (hn t) hek).place] at hp
  unfold readUnlock at hp
  split at hp
  · exact hp
  · dsimp only at hp
    split at hp
    · exact hclose hp
    · rw [((Served.unpin _ t _).still e' k').place] at hp
      exact hclose hp

/-- How deep thread `t` is inside engine `e`, in both kinds of sections. -/
def depthIn (m : Machine) (t e : Nat) : Nat :=
  (m.readDepth t e .regular).toNat + (m.readDepth t e .sleepable).toNat

/-- How deep thread `t` is inside all engines on scheduler `s`. -/
def nesting (m : Machine) (t s : Nat) : Nat :=
  ∑ e ∈ Finset.range m.engines.size with (m.engine e).access.scheduler = s, m.depthIn t e

theorem depthIn_eq_zero : m.depthIn t e = 0 ↔ ∀ k, m.readDepth t e k = 0 := by
  have htoNat {x : UInt32} : x.toNat = 0 ↔ x = 0 := UInt32.toNat_inj (b := 0)
  rw [depthIn, Nat.add_eq_zero_iff, htoNat, htoNat]
  exact ⟨fun h k => by cases k <;> [exact h.1; exact h.2], fun h => ⟨h _, h _⟩⟩

theorem depthIn_ne_zero : m.depthIn t e ≠ 0 ↔ ∃ k, m.readDepth t e k ≠ 0 := by
  rw [Ne, depthIn_eq_zero, not_forall]

theorem nesting_eq_sum (h : ∀ e, m.engines.size ≤ e → m.depthIn t e = 0) {l : Nat}
    (hl : m.engines.size ≤ l) : m.nesting t s =
      ∑ e ∈ Finset.range l, if (m.engine e).access.scheduler = s then m.depthIn t e else 0 := by
  rw [nesting, Finset.sum_filter]
  refine Finset.sum_subset (Finset.range_mono hl) fun e _ he => ?_
  rw [h e (Nat.not_lt.1 fun hlt => he (Finset.mem_range.2 hlt)), ite_self]

theorem depthIn_le_nesting (he : e < m.engines.size) (hs : (m.engine e).access.scheduler = s) :
    m.depthIn t e ≤ m.nesting t s :=
  Finset.single_le_sum (f := fun e => m.depthIn t e) (fun _ _ => Nat.zero_le _)
    (Finset.mem_filter.2 ⟨Finset.mem_range.2 he, hs⟩)

theorem Shifts.nesting (h : Shifts t e k m m') (hunborn : ∀ e, m.engines.size ≤ e → m.depthIn t e = 0)
    (he : e < m.engines.size) (s : Nat) :
    m'.nesting t s + (if (m.engine e).access.scheduler = s then (m.readDepth t e k).toNat else 0) =
      m.nesting t s + (if (m.engine e).access.scheduler = s then (m'.readDepth t e k).toNat else 0) := by
  have hother {e' : Nat} (hne : e' ≠ e) : m'.depthIn t e' = m.depthIn t e' := by
    rw [depthIn, h.elsewhere e' _ fun hc => hne hc.1, h.elsewhere e' _ fun hc => hne hc.1, depthIn]
  have hself : m'.depthIn t e + (m.readDepth t e k).toNat = m.depthIn t e + (m'.readDepth t e k).toNat := by
    cases k with
    | regular =>
      have hk := h.elsewhere e .sleepable fun hc => nomatch hc.2
      rw [depthIn, depthIn, hk]
      omega
    | sleepable =>
      have hk := h.elsewhere e .regular fun hc => nomatch hc.2
      rw [depthIn, depthIn, hk]
      omega
  have hunborn' (e' : Nat) (hle : m'.engines.size ≤ e') : m'.depthIn t e' = 0 := by
    have hle' := h.engines_le.trans hle
    rw [hother (Nat.ne_of_gt (Nat.lt_of_lt_of_le he hle')), hunborn e' hle']
  have hmem : e ∈ Finset.range m'.engines.size := Finset.mem_range.2 (Nat.lt_of_lt_of_le he h.engines_le)
  rw [nesting_eq_sum hunborn' (Nat.le_refl _), nesting_eq_sum hunborn h.engines_le,
    ← Finset.add_sum_erase _ _ hmem, ← Finset.add_sum_erase _ _ hmem, h.access e he]
  have hrest : ∑ e' ∈ (Finset.range m'.engines.size).erase e,
        (if (m'.engine e').access.scheduler = s then m'.depthIn t e' else 0) =
      ∑ e' ∈ (Finset.range m'.engines.size).erase e,
        if (m.engine e').access.scheduler = s then m.depthIn t e' else 0 := by
    refine Finset.sum_congr rfl fun e' he' => ?_
    rw [hother (Finset.ne_of_mem_erase he')]
    by_cases hlt : e' < m.engines.size
    · rw [h.access e' hlt]
    · rw [hunborn e' (Nat.not_lt.1 hlt), ite_self, ite_self]
  rw [hrest]
  split <;> omega

theorem SameNests.nesting (h : SameNests t m m') (hunborn : ∀ e, m.engines.size ≤ e → m.depthIn t e = 0)
    (s : Nat) : m'.nesting t s = m.nesting t s := by
  have hdepth (e : Nat) : m'.depthIn t e = m.depthIn t e := by
    rw [depthIn, h.readDepth, h.readDepth, depthIn]
  rw [nesting_eq_sum (fun e hle => (hdepth e).trans (hunborn e (h.engines_le.trans hle))) (Nat.le_refl _),
    nesting_eq_sum hunborn h.engines_le]
  refine Finset.sum_congr rfl fun e _ => ?_
  rw [hdepth]
  by_cases hlt : e < m.engines.size
  · rw [h.access e hlt]
  · rw [hunborn e (Nat.not_lt.1 hlt), ite_self, ite_self]

theorem LocksReturned.unborn (h : m.LocksReturned) (hv : Visited m) (t e : Nat) (he : m.engines.size ≤ e) :
    m.depthIn t e = 0 :=
  depthIn_eq_zero.2 fun _ => by_contra fun hd => absurd (h.lt_size hv hd) (Nat.not_lt.2 he)

end Machine

end GracePeriod
