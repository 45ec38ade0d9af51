import Mathlib.Algebra.Group.Nat.Defs
import GracePeriod.Epoch

namespace GracePeriod

theorem isBefore_iff (a b : UInt32) :
    isBefore a b = true ↔ 0 < (b - a).toNat ∧ (b - a).toNat < 2 ^ 31 := by
  have hlt : (b - a).toNat < 2 ^ 32 := (b - a).toNat_lt
  have h : (b - a).toInt32.toInt = ((b - a).toNat : Int).bmod (2 ^ 32) :=
    BitVec.toInt_eq_toNat_bmod _
  simp only [isBefore, decide_eq_true_eq, Int32.lt_iff_toInt_lt, Int32.toInt_zero, h, Int.bmod_def]
  omega

theorem isBefore_self (a : UInt32) : isBefore a a = false := by
  simp [← Bool.not_eq_true, isBefore_iff]

theorem isBefore_add_right (a b s : UInt32) : isBefore (a + s) (b + s) = isBefore a b := by
  have h : b + s - (a + s) = b - a := by
    have ha := a.toNat_lt
    have hs := s.toNat_lt
    rw [← UInt32.toNat_inj]
    simp only [UInt32.toNat_sub, UInt32.toNat_add]
    omega
  simp [isBefore, h]

/-- Epochs that lie less than half a turn ahead of one moment are in order. -/
theorem isBefore_add_ofNat (e : UInt32) {i n : Nat} (hi : i < 2 ^ 31) (hn : n < 2 ^ 31) :
    isBefore (e + .ofNat i) (e + .ofNat n) = decide (i < n) := by
  have hio : (UInt32.ofNat i).toNat = i :=
    UInt32.toNat_ofNat_of_lt' (by simp only [UInt32.size]; omega)
  have hno : (UInt32.ofNat n).toNat = n :=
    UInt32.toNat_ofNat_of_lt' (by simp only [UInt32.size]; omega)
  rw [UInt32.add_comm e, UInt32.add_comm e, isBefore_add_right, Bool.eq_iff_iff, isBefore_iff,
    UInt32.toNat_sub, hio, hno, decide_eq_true_eq]
  omega

theorem toNat_sub_of_back {a b now : UInt32} {i n : Nat} (ha : now = a + UInt32.ofNat i)
    (hb : now = b + UInt32.ofNat n) (h : n ≤ i) (hd : i < n + 2 ^ 32) :
    (b - a).toNat = i - n := by
  have hi : UInt32.ofNat i = UInt32.ofNat (i - n) + UInt32.ofNat n := by
    rw [← UInt32.ofNat_add, Nat.sub_add_cancel h]
  have hba : b = a + UInt32.ofNat (i - n) := by
    apply (UInt32.add_left_inj (UInt32.ofNat n)).1
    rw [← hb, ha, hi, UInt32.add_assoc]
  rw [hba, UInt32.add_comm, UInt32.add_sub_cancel, UInt32.toNat_ofNat_of_lt']
  simp only [UInt32.size]
  omega

theorem isBefore_of_lt {a b now : UInt32} {i n : Nat} (ha : now = a + UInt32.ofNat i)
    (hb : now = b + UInt32.ofNat n) (h : n < i) (hd : i < n + 2 ^ 31) : isBefore a b = true := by
  have hab := toNat_sub_of_back ha hb (Nat.le_of_lt h) (by omega)
  apply (isBefore_iff a b).2
  omega

theorem isBefore_of_le {a b now : UInt32} {i n : Nat} (ha : now = a + UInt32.ofNat i)
    (hb : now = b + UInt32.ofNat n) (h : i ≤ n) (hd : n ≤ i + 2 ^ 31) : isBefore a b = false := by
  have hba := toNat_sub_of_back hb ha h (by omega)
  have h1 := a.toNat_lt
  have h2 := b.toNat_lt
  rw [← Bool.not_eq_true, isBefore_iff]
  rw [UInt32.toNat_sub] at hba ⊢
  omega

namespace ReaderWord

theorem toNat_pack (e a : UInt32) : (pack e a).word.toNat = e.toNat * 2 ^ 32 + a.toNat := by
  have he : e.toNat < 2 ^ 32 := e.toNat_lt
  have ha : a.toNat < 2 ^ 32 := a.toNat_lt
  simp only [pack, UInt64.toNat_or, UInt64.toNat_shiftLeft, UInt32.toNat_toUInt64]
  rw [show (32 : UInt64).toNat % 64 = 32 from rfl,
    Nat.mod_eq_of_lt (by omega : e.toNat <<< 32 < 2 ^ 64),
    ← Nat.shiftLeft_add_eq_or_of_lt ha, Nat.shiftLeft_eq]

theorem toNat_epoch (r : ReaderWord) : r.epoch.toNat = r.word.toNat / 2 ^ 32 := by
  have h : r.word.toNat < 2 ^ 64 := r.word.toNat_lt
  simp only [epoch, UInt64.toNat_toUInt32, UInt64.toNat_shiftRight]
  rw [show (32 : UInt64).toNat % 64 = 32 from rfl, Nat.shiftRight_eq_div_pow]
  omega

theorem toNat_active (r : ReaderWord) : r.active.toNat = r.word.toNat % 2 ^ 32 := by
  simp [active]

@[simp] theorem epoch_pack (e a : UInt32) : (pack e a).epoch = e := by
  have := a.toNat_lt
  rw [← UInt32.toNat_inj, toNat_epoch, toNat_pack]
  omega

@[simp] theorem active_pack (e a : UInt32) : (pack e a).active = a := by
  have := a.toNat_lt
  rw [← UInt32.toNat_inj, toNat_active, toNat_pack]
  omega

theorem pack_epoch_active (r : ReaderWord) : pack r.epoch r.active = r := by
  have h : (pack r.epoch r.active).word = r.word := by
    rw [← UInt64.toNat_inj, toNat_pack, toNat_epoch, toNat_active]
    omega
  cases r; simpa [pack] using h

theorem leave_pack {e a : UInt32} (h : a ≠ 0) : (pack e a).leave = (pack e (a - 1), .ok ()) := by
  have ha : 0 < a.toNat := by
    rcases Nat.eq_zero_or_pos a.toNat with h0 | h0
    · exact absurd (UInt32.toNat_inj.mp h0) h
    · exact h0
  have hlt := a.toNat_lt
  have he := e.toNat_lt
  have hw : (pack e a).word - 1 = (pack e (a - 1)).word := by
    have h1 : (1 : UInt32) ≤ a := by rw [UInt32.le_iff_toNat_le]; exact ha
    have h2 : (1 : UInt64) ≤ (pack e a).word := by
      rw [UInt64.le_iff_toNat_le, toNat_pack]; simp; omega
    rw [← UInt64.toNat_inj, UInt64.toNat_sub_of_le _ _ h2, toNat_pack, toNat_pack,
      UInt32.toNat_sub_of_le _ _ h1]
    simp
    omega
  simp [leave, hw, h]

end ReaderWord

end GracePeriod
