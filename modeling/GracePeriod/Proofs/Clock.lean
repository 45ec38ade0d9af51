import GracePeriod.Proofs.Accounts
import GracePeriod.Proofs.Stack

namespace GracePeriod

open History

theorem History.advances_append (vs h : History) : advances (vs ++ h) = advances vs + advances h := by
  induction vs with
  | nil => simp [advances]
  | cons p vs ih =>
    obtain ⟨t, v⟩ := p
    cases v with
    | advanced target =>
      simp only [List.cons_append, advances, ih]
      omega
    | _ => exact ih

theorem History.advances_of_still {vs : History} (hv : ∀ p ∈ vs, p.2.isStill = true) :
    advances vs = 0 := by
  induction vs with
  | nil => rfl
  | cons p vs ih =>
    have hp := hv p List.mem_cons_self
    exact (advances_still hp).trans (ih fun q hq => hv q (List.mem_cons_of_mem _ hq))

namespace Machine

variable {m m' m'' : Machine} {t e : Nat} {k : Kind} {vs vs' : History}

structure Went (e : Nat) (k : Kind) (vs : History) (m m' : Machine) : Prop where
  history : m'.history e k = vs ++ m.history e k
  epoch : (m'.domain e k).epoch = (m.domain e k).epoch + UInt32.ofNat (advances vs)

namespace Went

theorem refl (e : Nat) (k : Kind) (m : Machine) : Went e k [] m m :=
  ⟨rfl, (UInt32.add_zero _).symm⟩

theorem trans (h : Went e k vs m m') (h' : Went e k vs' m' m'') : Went e k (vs' ++ vs) m m'' := by
  refine ⟨by rw [h'.history, h.history, List.append_assoc], ?_⟩
  rw [h'.epoch, h.epoch, advances_append, Nat.add_comm, UInt32.ofNat_add, UInt32.add_assoc]

theorem of_still (hh : m'.history e k = vs ++ m.history e k)
    (he : (m'.domain e k).epoch = (m.domain e k).epoch) (hv : advances vs = 0) :
    Went e k vs m m' := ⟨hh, by rw [he, hv]; exact (UInt32.add_zero _).symm⟩

end Went

theorem SectionChange.went (h : SectionChange t e k m m') (he : e < m.engines.size) :
    ∃ vs, Went e k vs m m' := by
  cases h with
  | still h =>
    obtain ⟨vs, hv, hh⟩ := h.history
    exact ⟨vs, .of_still hh (congrArg Domain.epoch h.domain) (advances_of_still hv)⟩
  | opening w i h =>
    have hd := (congrArg Domain.epoch h.domain).trans (Domain.epoch_setRecord ..)
    exact ⟨[(t, .opened w i)], .of_still h.history hd rfl⟩
  | closing w i h =>
    have hd := (congrArg Domain.epoch h.domain).trans (Domain.epoch_onRecord ..)
    cases hr : ((m.domain e k).onRecord w (·.leave i)).2 with
    | ok u => exact ⟨[(t, .closed w i)], .of_still (h.history hr) hd rfl⟩
    | error f => exact ⟨[], .of_still (h.failed f hr) hd rfl⟩
  | stranding h => exact ⟨[(t, .lockPanicked)], .of_still h.history h.epoch rfl⟩
  | registering w hp hd hh =>
    have hd := (congrArg Domain.epoch hd).trans ((m.domain e k).register_get w 0).1
    exact ⟨[], .of_still hh hd rfl⟩
  | advancing hp hd hh => exact ⟨[(t, .advanced _)], hh, congrArg Domain.epoch hd⟩
  | founding hs => exact absurd he (Nat.not_lt.2 (Nat.le_of_eq hs.symm))

theorem Move.went {scope : Scope} (h : Move scope t m m') (hu : m.NestsUnique)
    (he : e < m.engines.size) (k : Kind) :
    ∃ vs, Went e k vs m m' ∧ Emits scope t e k vs := by
  obtain ⟨vs, hw⟩ := (h.sectionChange hu e k).went he
  obtain ⟨vs', hh, hv⟩ := h.history e k
  obtain rfl : vs = vs' := List.append_cancel_right (hw.history.symm.trans hh)
  exact ⟨vs, hw, hv⟩

theorem Moves.unique {scope : Scope} (h : Moves scope t m m') (hu : m.NestsUnique) :
    m'.NestsUnique := by
  induction h with
  | refl => exact hu
  | tail _ hm ih => exact hm.unique ih

theorem Moves.went {scope : Scope} (h : Moves scope t m m') (hu : m.NestsUnique)
    (he : e < m.engines.size) (k : Kind) :
    ∃ vs, Went e k vs m m' ∧ Emits scope t e k vs := by
  induction h with
  | refl => exact ⟨[], .refl .., nofun⟩
  | tail h hm ih =>
    obtain ⟨vs, hw, hv⟩ := ih
    have he' := Nat.lt_of_lt_of_le he (Moves.engines_le h)
    obtain ⟨vs', hw', hv'⟩ := hm.went (Moves.unique h hu) he' k
    refine ⟨vs' ++ vs, hw.trans hw', fun p hp => ?_⟩
    exact (List.mem_append.1 hp).elim (hv' p) (hv p)

theorem KeepsEngines.went (h : KeepsEngines m m') (e : Nat) (k : Kind) : Went e k [] m m' :=
  .of_still (h.history e k) (congrArg Domain.epoch (h.still e k).domain) rfl

end Machine

end GracePeriod
