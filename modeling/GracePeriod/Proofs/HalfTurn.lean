import Mathlib.Order.Fin.Basic
import GracePeriod.Proofs.Epoch

namespace GracePeriod

theorem toNat_sub_add_toNat_sub {a b : UInt32} (h : a ≠ b) :
    (b - a).toNat + (a - b).toNat = 2 ^ 32 := by
  have ha := a.toNat_lt
  have hb := b.toNat_lt
  have hne : a.toNat ≠ b.toNat := mt UInt32.toNat_inj.1 h
  rw [UInt32.toNat_sub, UInt32.toNat_sub]
  omega

theorem isBefore_asymm {a b : UInt32} (h : isBefore a b = true) : ¬isBefore b a = true := by
  have hne : a ≠ b := by
    rintro rfl
    exact Bool.eq_false_iff.1 (isBefore_self a) h
  have hturn := toNat_sub_add_toNat_sub hne
  have hab := (isBefore_iff a b).1 h
  rw [isBefore_iff]
  omega

theorem isBefore_eq_false_iff (a b : UInt32) :
    isBefore a b = false ∧ isBefore b a = false ↔ a = b ∨ (b - a).toNat = 2 ^ 31 := by
  by_cases h : a = b
  · subst h
    simp [isBefore_self]
  · have hturn := toNat_sub_add_toNat_sub h
    have hab := (b - a).toNat_lt
    have hba := (a - b).toNat_lt
    rw [← Bool.not_eq_true, ← Bool.not_eq_true, isBefore_iff, isBefore_iff, or_iff_right h]
    omega

theorem exists_isBefore_cycle (a : UInt32) :
    ∃ b c, isBefore a b = true ∧ isBefore b c = true ∧ isBefore c a = true := by
  have hab := isBefore_add_right 0 0x55555555 a
  have hbc := isBefore_add_right 0x55555555 0xAAAAAAAA a
  have hca := isBefore_add_right 0xAAAAAAAA 0 a
  rw [UInt32.zero_add] at hab hca
  exact ⟨_, _, hab.trans (by decide), hbc.trans (by decide), hca.trans (by decide)⟩

theorem not_isTrans_isBefore : ¬IsTrans UInt32 (isBefore · · = true) := by
  intro h
  obtain ⟨b, c, hab, hbc, hca⟩ := exists_isBefore_cycle 0
  exact isBefore_asymm (h.trans 0 b c hab hbc) hca

/-- The epochs from `x` on, less than half a turn ahead of it. -/
def HalfTurn (x : UInt32) : Type := { a : UInt32 // ∃ i : Fin (2 ^ 31), a = x + UInt32.ofNat i }

namespace HalfTurn

variable {x : UInt32}

def Before (a b : HalfTurn x) : Prop := isBefore a.1 b.1 = true

def ahead (x : UInt32) (i : Fin (2 ^ 31)) : HalfTurn x := ⟨x + UInt32.ofNat i, i, rfl⟩

theorem before_ahead (x : UInt32) (i j : Fin (2 ^ 31)) :
    (ahead x i).Before (ahead x j) ↔ i < j := by
  rw [Before, ahead, ahead, isBefore_add_ofNat x i.2 j.2, decide_eq_true_eq, Fin.lt_def]

theorem toNat_sub_ahead (x : UInt32) (i : Fin (2 ^ 31)) : ((ahead x i).1 - x).toNat = i :=
  toNat_sub_of_back rfl (UInt32.add_zero _).symm (Nat.zero_le _) (by omega)

def offset (a : HalfTurn x) : Fin (2 ^ 31) where
  val := (a.1 - x).toNat
  isLt := by
    obtain ⟨a, i, rfl⟩ := a
    exact (toNat_sub_ahead x i).trans_lt i.2

theorem offset_ahead (x : UInt32) (i : Fin (2 ^ 31)) : (ahead x i).offset = i :=
  Fin.ext (toNat_sub_ahead x i)

theorem ahead_offset (a : HalfTurn x) : ahead x a.offset = a := by
  obtain ⟨a, i, rfl⟩ := a
  exact congrArg (ahead x) (offset_ahead x i)

/-- The epochs of half a turn, in the order of the advances that lead to them. -/
def order (x : UInt32) : @Before x ≃r (· < · : Fin (2 ^ 31) → Fin (2 ^ 31) → Prop) where
  toFun := offset
  invFun := ahead x
  left_inv := ahead_offset
  right_inv := offset_ahead x
  map_rel_iff' {a b} := by
    have h := before_ahead x a.offset b.offset
    rw [ahead_offset, ahead_offset] at h
    exact h.symm

end HalfTurn

/-- The order of epochs looks the same from every epoch. It never goes both ways, and neither way
only between equal and between opposite epochs. On every half turn, also where the epochs wrap
around in it, it is the strict order of the advances since the beginning; on the whole turn it is
not transitive. -/
theorem epochs_ordered :
    (∀ a b s, isBefore (a + s) (b + s) = isBefore a b) ∧
      (∀ a b, ¬(isBefore a b = true ∧ isBefore b a = true)) ∧
      (∀ a b, isBefore a b = false ∧ isBefore b a = false ↔ a = b ∨ (b - a).toNat = 2 ^ 31) ∧
      (∀ x, ∀ i j : Fin (2 ^ 31),
        isBefore (x + UInt32.ofNat i) (x + UInt32.ofNat j) = true ↔ i < j) ∧
      (∀ x, IsStrictTotalOrder (HalfTurn x) HalfTurn.Before) ∧
      ¬IsTrans UInt32 (isBefore · · = true) := by
  refine ⟨isBefore_add_right, ?_, isBefore_eq_false_iff, HalfTurn.before_ahead, fun x => ?_,
    not_isTrans_isBefore⟩
  · rintro a b ⟨hab, hba⟩
    exact isBefore_asymm hab hba
  · exact (HalfTurn.order x).toRelEmbedding.isStrictTotalOrder

example : isBefore 0xFFFFFFFF 0x7FFFFFFE = true ∧ isBefore 0xFFFFFFFF 0x7FFFFFFF = false ∧
    isBefore 0x7FFFFFFF 0xFFFFFFFF = false := by decide

end GracePeriod
