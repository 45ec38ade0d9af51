import Mathlib.Data.List.Induction
import GracePeriod.Trial.Clock
import GracePeriod.Proofs.Record

namespace GracePeriod

theorem ReaderWord.word_pack_succ {r : ReaderWord} (h : r.active ≠ 0xFFFFFFFF) :
    (pack r.epoch (r.active + 1)).word = r.word + 1 := by
  have ha : r.active.toNat ≠ 2 ^ 32 - 1 := fun he => h (UInt32.toNat_inj.1 he)
  have hw := r.word.toNat_lt
  rw [← UInt64.toNat_inj, toNat_pack, UInt32.toNat_add, UInt64.toNat_add, toNat_epoch]
  rw [toNat_active] at ha ⊢
  simp only [UInt32.toNat_one, UInt64.toNat_one]
  omega

namespace Trial.Clock

def Call.isAdvance : Call → Bool
  | .advance => true
  | _ => false

def Call.isEnter (c : Clock) (r : Nat) : Call → Bool
  | .enter s => c.place s == c.place r
  | _ => false

def Call.isLeave (c : Clock) (r : Nat) : Call → Bool
  | .leave s => c.place s == c.place r
  | _ => false

def after (c : Clock) (calls : List Call) : Clock := calls.foldl (fun d s => (d.call s).1) c

def advances (calls : List Call) : Nat := calls.countP (·.isAdvance)

def begins (c : Clock) (r : Nat) (calls : List Call) : Nat := calls.countP (·.isEnter c r)

def ends (c : Clock) (r : Nat) (calls : List Call) : Nat := calls.countP (·.isLeave c r)

def readers (c : Clock) (r : Nat) (calls : List Call) : Nat := c.begins r calls - c.ends r calls

/-- After `calls` a record may be entered unless it is full, and left unless it is idle. -/
def Allows (c : Clock) (calls : List Call) : Call → Prop
  | .enter r => c.readers r calls < 2 ^ 32 - 1
  | .leave r => 0 < c.readers r calls
  | _ => True

structure Orderly (c : Clock) (calls : List Call) : Prop where
  allows : ∀ i, (h : i < calls.length) → c.Allows (calls.take i) calls[i]
  advances_lt : advances calls < 2 ^ 31

/-- Call `i` brings the first reader to an idle record. -/
def Revives (c : Clock) (calls : List Call) (r i : Nat) : Prop :=
  (∃ s, calls[i]? = some s ∧ s.isEnter c r = true) ∧ c.readers r (calls.take i) = 0

structure LastRevives (c : Clock) (calls : List Call) (r i : Nat) : Prop where
  revives : c.Revives calls r i
  last : ∀ j, c.Revives calls r j → j ≤ i

/-- Call `i` has advanced the counter and answered `target`. -/
structure Answers (c : Clock) (calls : List Call) (i : Nat) (target : UInt32) : Prop where
  advance : calls[i]? = some .advance
  answer : (c.run calls)[i]?.map Prod.fst = some (.number target.toNat)

/-- What the state after `calls` says about them. -/
structure Faithful (c : Clock) (calls : List Call) : Prop where
  now : (c.after calls).now = c.now + UInt32.ofNat (advances calls)
  active : ∀ r, ((c.after calls).word r).active.toNat + c.ends r calls = c.begins r calls
  epoch : ∀ r, ((c.after calls).word r).active ≠ 0 → ∃ i, c.LastRevives calls r i ∧
    ((c.after calls).word r).epoch = (c.after (calls.take i)).now
  blocks : ∀ r i target, c.Answers calls i target →
    (((c.after calls).word r).blocks target = true ↔
      ((c.after calls).word r).active ≠ 0 ∧ ∃ j < i, c.LastRevives calls r j)

/-- A call that meets no fault. Who joins or leaves changes the whole word by one, and that changes
the lower half alone. -/
def Effect (d : Clock) : Call → Prop
  | .advance => d.call .advance = ({ d with now := d.now + 1 }, .number (d.now + 1).toNat)
  | .enter r => ∃ w, d.call (.enter r) = (d.setWord r w, .unit) ∧
      w.active.toNat = (d.word r).active.toNat + 1 ∧
      if (d.word r).active = 0 then w.epoch = d.now
      else w.epoch = (d.word r).epoch ∧ w.word = (d.word r).word + 1
  | .leave r => ∃ w, d.call (.leave r) = (d.setWord r w, .unit) ∧
      w.active.toNat + 1 = (d.word r).active.toNat ∧ w.epoch = (d.word r).epoch ∧
      w.word = (d.word r).word - 1
  | s => (d.call s).1 = d

variable {c d : Clock} {calls : List Call} {s : Call} {r i j : Nat} {target : UInt32}

theorem after_concat (c : Clock) (calls : List Call) (s : Call) :
    c.after (calls ++ [s]) = ((c.after calls).call s).1 := by
  simp [after]

theorem after_take_succ (c : Clock) {n : Nat} (h : n < calls.length) :
    c.after (calls.take (n + 1)) = ((c.after (calls.take n)).call calls[n]).1 := by
  rw [List.take_succ_eq_append_getElem h, after_concat]

theorem size_call (d : Clock) (s : Call) : (d.call s).1.size = d.size := by
  cases s with
  | enter r =>
    simp only [call]
    split <;> rfl
  | _ => rfl

theorem place_call (d : Clock) (s : Call) (r : Nat) : (d.call s).1.place r = d.place r := by
  simp only [place, size_call]

theorem place_after (c : Clock) (calls : List Call) (r : Nat) :
    (c.after calls).place r = c.place r := by
  induction calls using List.reverseRecOn with
  | nil => rfl
  | append_singleton calls s ih => rw [after_concat, place_call, ih]

theorem now_call (d : Clock) (s : Call) :
    (d.call s).1.now = d.now + UInt32.ofNat (advances [s]) := by
  cases s with
  | advance => rfl
  | enter r =>
    simp only [call]
    split <;> exact (UInt32.add_zero _).symm
  | _ => exact (UInt32.add_zero _).symm

theorem advances_append (as bs : List Call) : advances (as ++ bs) = advances as + advances bs :=
  List.countP_append

theorem begins_append (c : Clock) (r : Nat) (as bs : List Call) :
    c.begins r (as ++ bs) = c.begins r as + c.begins r bs := List.countP_append

theorem ends_append (c : Clock) (r : Nat) (as bs : List Call) :
    c.ends r (as ++ bs) = c.ends r as + c.ends r bs := List.countP_append

theorem advances_take_le (calls : List Call) {i j : Nat} (h : i ≤ j) :
    advances (calls.take i) ≤ advances (calls.take j) :=
  (List.take_prefix_take_left h).sublist.countP_le

theorem advances_take_le_self (calls : List Call) (i : Nat) :
    advances (calls.take i) ≤ advances calls :=
  (List.take_sublist i calls).countP_le

theorem now_after (c : Clock) (calls : List Call) :
    (c.after calls).now = c.now + UInt32.ofNat (advances calls) := by
  induction calls using List.reverseRecOn with
  | nil => exact (UInt32.add_zero _).symm
  | append_singleton calls s ih =>
    rw [after_concat, now_call, ih, advances_append, UInt32.ofNat_add, UInt32.add_assoc]

theorem getElem?_run (c : Clock) (calls : List Call) (i : Nat) :
    (c.run calls)[i]? = calls[i]?.map fun s =>
      (((c.after (calls.take i)).call s).2, c.after (calls.take (i + 1))) := by
  induction calls generalizing c i with
  | nil => rfl
  | cons s calls ih =>
    cases i with
    | zero => rfl
    | succ i => exact ih (c.call s).1 i

theorem word_setWord (d : Clock) (r q : Nat) (w : ReaderWord) :
    (d.setWord r w).word q = if d.place q = d.place r then w else d.word q :=
  Table.get_set ..

theorem word_congr {q : Nat} (h : d.place q = d.place r) : d.word q = d.word r :=
  congrArg d.words.get h

theorem isEnter_after (c : Clock) (calls : List Call) (r : Nat) (s : Call) :
    s.isEnter (c.after calls) r = s.isEnter c r := by
  cases s <;> simp only [Call.isEnter, place_after]

theorem isLeave_after (c : Clock) (calls : List Call) (r : Nat) (s : Call) :
    s.isLeave (c.after calls) r = s.isLeave c r := by
  cases s <;> simp only [Call.isLeave, place_after]

def Accepts (d : Clock) : Call → Prop
  | .enter r => (d.word r).active ≠ 0xFFFFFFFF
  | .leave r => (d.word r).active ≠ 0
  | _ => True

theorem Accepts.effect (h : d.Accepts s) : d.Effect s := by
  cases s with
  | advance => rfl
  | enter r =>
    obtain ⟨w, hw⟩ : ∃ w, (d.word r).enter d.now = .ok w := by
      unfold ReaderWord.enter
      split
      · exact ⟨_, rfl⟩
      · exact ⟨_, if_neg h⟩
    obtain ⟨hactive, hepoch⟩ := ReaderWord.enter_ok hw
    refine ⟨w, by simp only [call, hw], hactive, ?_⟩
    split
    · rename_i h0
      rw [hepoch, if_pos h0]
    · rename_i h0
      rw [hepoch, if_neg h0]
      refine ⟨rfl, ?_⟩
      have hj : (d.word r).enter d.now = .ok (.pack (d.word r).epoch ((d.word r).active + 1)) := by
        rw [ReaderWord.enter, if_neg h0, if_neg h]
      obtain rfl := Except.ok.inj (hw.symm.trans hj)
      exact ReaderWord.word_pack_succ h
  | leave r =>
    obtain ⟨w, hw, hactive, hepoch⟩ := ReaderWord.leave_ok h
    refine ⟨w, by simp only [call, hw, Reading.ofExcept], hactive, hepoch, ?_⟩
    exact (congrArg (·.1.word) hw).symm
  | _ => rfl

namespace Effect

theorem active (h : d.Effect s) (r : Nat) :
    ((d.call s).1.word r).active.toNat + (if s.isLeave d r then 1 else 0) =
      (d.word r).active.toNat + (if s.isEnter d r then 1 else 0) := by
  cases s with
  | enter q =>
    obtain ⟨w, hc, hw, -⟩ := h
    rw [hc, word_setWord]
    simp only [Call.isEnter, Call.isLeave, beq_iff_eq, eq_comm (a := d.place q), Bool.false_eq_true]
    split
    · rename_i hr
      simp only [hw, word_congr hr, if_false, Nat.add_zero]
    · rfl
  | leave q =>
    obtain ⟨w, hc, hw, -⟩ := h
    rw [hc, word_setWord]
    simp only [Call.isEnter, Call.isLeave, beq_iff_eq, eq_comm (a := d.place q), Bool.false_eq_true]
    split
    · rename_i hr
      simp only [hw, word_congr hr, if_false, Nat.add_zero]
    · rfl
  | _ => rfl

theorem epoch (h : d.Effect s) (ha : (d.word r).active ≠ 0) :
    ((d.call s).1.word r).epoch = (d.word r).epoch := by
  cases s with
  | enter q =>
    obtain ⟨w, hc, -, hw⟩ := h
    rw [hc, word_setWord]
    split
    · rename_i hr
      rw [word_congr hr] at ha ⊢
      rw [if_neg ha] at hw
      exact hw.1
    · rfl
  | leave q =>
    obtain ⟨w, hc, -, hw, -⟩ := h
    rw [hc, word_setWord]
    split
    · rename_i hr
      rw [hw, word_congr hr]
    · rfl
  | _ => rfl

theorem epoch_revived (h : d.Effect s) (he : s.isEnter d r = true) (ha : (d.word r).active = 0) :
    ((d.call s).1.word r).epoch = d.now := by
  cases s with
  | enter q =>
    obtain ⟨w, hc, -, hw⟩ := h
    have hr : d.place q = d.place r := beq_iff_eq.1 he
    rw [hc, word_setWord, if_pos hr.symm]
    rwa [word_congr hr, if_pos ha] at hw
  | _ => cases he

end Effect

theorem Orderly.take (h : c.Orderly calls) (n : Nat) : c.Orderly (calls.take n) where
  allows i hi := by
    have hin : i < n := Nat.lt_of_lt_of_le hi (List.length_take_le n calls)
    have hic : i < calls.length := Nat.lt_of_lt_of_le hi (List.length_take_le' n calls)
    have ha := h.allows i hic
    rwa [List.take_take, Nat.min_eq_left (Nat.le_of_lt hin), List.getElem_take]
  advances_lt := Nat.lt_of_le_of_lt (advances_take_le_self calls n) h.advances_lt

theorem Orderly.of_concat (h : c.Orderly (calls ++ [s])) : c.Orderly calls ∧ c.Allows calls s := by
  constructor
  · simpa using h.take calls.length
  · simpa using h.allows calls.length (by simp)

/-- Some call has brought the first reader to the record, and it has had one ever since. -/
structure Since (c : Clock) (calls : List Call) (r i : Nat) : Prop where
  revives : c.Revives calls r i
  occupied : ∀ n, i < n → n ≤ calls.length → 0 < c.readers r (calls.take n)

theorem Revives.lt_length (h : c.Revives calls r i) : i < calls.length := by
  obtain ⟨⟨s, hs, -⟩, -⟩ := h
  exact (List.getElem?_eq_some_iff.1 hs).1

theorem revives_take {n : Nat} (hi : i < n) :
    c.Revives (calls.take n) r i ↔ c.Revives calls r i := by
  rw [Revives, Revives, List.getElem?_take_of_lt hi, List.take_take,
    Nat.min_eq_left (Nat.le_of_lt hi)]

namespace Since

theorem lastRevives (h : c.Since calls r i) : c.LastRevives calls r i where
  revives := h.revives
  last j hj := by
    by_contra hij
    have ho := h.occupied j (Nat.lt_of_not_le hij) (Nat.le_of_lt hj.lt_length)
    exact Nat.ne_of_gt ho hj.2

theorem take {n : Nat} (h : c.Since calls r i) (hi : i < n) : c.Since (calls.take n) r i where
  revives := (revives_take hi).2 h.revives
  occupied m him hm := by
    rw [List.length_take] at hm
    have hmn : m ≤ n := Nat.le_trans hm (Nat.min_le_left ..)
    rw [List.take_take, Nat.min_eq_left hmn]
    exact h.occupied m him (Nat.le_trans hm (Nat.min_le_right ..))

theorem concat (h : c.Since calls r i) (hr : 0 < c.readers r (calls ++ [s])) :
    c.Since (calls ++ [s]) r i where
  revives := by
    refine (revives_take (n := calls.length) h.revives.lt_length).1 ?_
    simpa using h.revives
  occupied n hin hn := by
    rw [List.length_append, List.length_singleton] at hn
    rcases Nat.lt_or_ge calls.length n with hlt | hle
    · rwa [List.take_of_length_le (by simpa using Nat.succ_le_of_lt hlt)]
    · rw [List.take_append_of_le_length hle]
      exact h.occupied n hin hle

theorem revived (he : s.isEnter c r = true) (h0 : c.readers r calls = 0)
    (hr : 0 < c.readers r (calls ++ [s])) : c.Since (calls ++ [s]) r calls.length where
  revives := ⟨⟨s, by simp, he⟩, by simpa using h0⟩
  occupied n hin hn := by
    rw [List.length_append, List.length_singleton] at hn
    rwa [List.take_of_length_le (by simpa using Nat.succ_le_of_lt hin)]

theorem unique (h : c.Since calls r i) (hj : c.LastRevives calls r j) : i = j :=
  Nat.le_antisymm (hj.last i h.revives) (h.lastRevives.last j hj.revives)

end Since

/-- What the words are like after some calls. -/
structure Keeps (c : Clock) (calls : List Call) : Prop where
  active : ∀ r, ((c.after calls).word r).active.toNat + c.ends r calls = c.begins r calls
  since : ∀ r, ((c.after calls).word r).active ≠ 0 → ∃ i, c.Since calls r i ∧
    ((c.after calls).word r).epoch = (c.after (calls.take i)).now

namespace Keeps

theorem nil (idle : ∀ r, (c.word r).active = 0) : c.Keeps [] where
  active r := by simp [after, idle, begins, ends]
  since r ha := absurd (idle r) ha

theorem readers_eq (h : c.Keeps calls) (r : Nat) :
    c.readers r calls = ((c.after calls).word r).active.toNat := by
  have := h.active r
  unfold readers
  omega

theorem readers_pos_iff (h : c.Keeps calls) (r : Nat) :
    0 < c.readers r calls ↔ ((c.after calls).word r).active ≠ 0 := by
  rw [h.readers_eq, Nat.pos_iff_ne_zero, ne_eq, ne_eq, ← UInt32.toNat_inj]
  rfl

theorem accepts (h : c.Keeps calls) (ha : c.Allows calls s) : (c.after calls).Accepts s := by
  cases s with
  | enter r =>
    intro hfull
    have hr := h.readers_eq r
    rw [hfull] at hr
    exact Nat.ne_of_lt ha hr
  | leave r => exact (h.readers_pos_iff r).1 ha
  | _ => trivial

theorem concat (h : c.Keeps calls) (ha : c.Allows calls s) : c.Keeps (calls ++ [s]) := by
  have he := (h.accepts ha).effect
  have hactive (r : Nat) : ((c.after (calls ++ [s])).word r).active.toNat + c.ends r (calls ++ [s]) =
      c.begins r (calls ++ [s]) := by
    have hn := he.active r
    have ho := h.active r
    rw [isEnter_after, isLeave_after] at hn
    rw [after_concat, begins_append, ends_append]
    simp only [begins, ends, List.countP_singleton] at ho ⊢
    omega
  refine ⟨hactive, fun r hr => ?_⟩
  have hpos : 0 < c.readers r (calls ++ [s]) := by
    have := hactive r
    have : ((c.after (calls ++ [s])).word r).active.toNat ≠ 0 := fun h0 => hr (UInt32.toNat_inj.1 h0)
    unfold readers
    omega
  by_cases h0 : ((c.after calls).word r).active = 0
  · have hidle : c.readers r calls = 0 := by rw [h.readers_eq, h0]; rfl
    have henter : s.isEnter c r = true := by
      by_contra hne
      have hn := he.active r
      rw [isEnter_after, if_neg hne, h0, ← after_concat] at hn
      exact hr (UInt32.toNat_inj.1 (Nat.eq_zero_of_add_eq_zero_right hn))
    refine ⟨calls.length, .revived henter hidle hpos, ?_⟩
    rw [after_concat, List.take_left]
    exact he.epoch_revived ((isEnter_after c calls r s).trans henter) h0
  · obtain ⟨i, hi, hepoch⟩ := h.since r h0
    refine ⟨i, hi.concat hpos, ?_⟩
    rw [after_concat, he.epoch h0, hepoch,
      List.take_append_of_le_length (Nat.le_of_lt hi.revives.lt_length)]

theorem of_orderly (idle : ∀ r, (c.word r).active = 0) (h : c.Orderly calls) : c.Keeps calls := by
  induction calls using List.reverseRecOn with
  | nil => exact nil idle
  | append_singleton calls s ih =>
    obtain ⟨hc, hs⟩ := h.of_concat
    exact (ih hc).concat hs

end Keeps

namespace Answers

theorem target_eq (h : c.Answers calls i target) :
    target = c.now + UInt32.ofNat (advances (calls.take (i + 1))) := by
  obtain ⟨hi, hs⟩ := List.getElem?_eq_some_iff.1 h.advance
  have ha := h.answer
  rw [getElem?_run, h.advance] at ha
  have ht : (c.after (calls.take (i + 1))).now = target := by
    rw [after_take_succ c hi, hs]
    exact UInt32.toNat_inj.1 (Reading.number.inj (Option.some.inj ha))
  rw [← ht, now_after]

theorem advances_lt_iff (h : c.Answers calls i target) (hj : i ≠ j) :
    advances (calls.take j) < advances (calls.take (i + 1)) ↔ j < i := by
  obtain ⟨hi, hs⟩ := List.getElem?_eq_some_iff.1 h.advance
  have hsucc : advances (calls.take (i + 1)) = advances (calls.take i) + 1 := by
    rw [List.take_succ_eq_append_getElem hi, advances_append, hs]
    rfl
  constructor
  · intro hlt
    by_contra hle
    have := advances_take_le calls (show i + 1 ≤ j by omega)
    omega
  · intro hlt
    have := advances_take_le calls (Nat.le_of_lt hlt)
    omega

theorem ne_revives (h : c.Answers calls i target) (hj : c.Revives calls r j) : i ≠ j := by
  rintro rfl
  obtain ⟨⟨s, hs, he⟩, -⟩ := hj
  obtain rfl := Option.some.inj (h.advance.symm.trans hs)
  cases he

theorem take {n : Nat} (h : c.Answers calls i target) (hi : i < n) :
    c.Answers (calls.take n) i target := by
  have ha := h.answer
  rw [getElem?_run, Option.map_map] at ha
  refine ⟨by rw [List.getElem?_take_of_lt hi, h.advance], ?_⟩
  rw [getElem?_run, List.getElem?_take_of_lt hi, List.take_take, Nat.min_eq_left (Nat.le_of_lt hi),
    Option.map_map]
  exact ha

end Answers

theorem Keeps.blocks_iff (h : c.Keeps calls) (hlt : advances calls < 2 ^ 31)
    (ht : c.Answers calls i target) :
    ((c.after calls).word r).blocks target = true ↔
      ((c.after calls).word r).active ≠ 0 ∧ ∃ j < i, c.LastRevives calls r j := by
  simp only [ReaderWord.blocks, Bool.and_eq_true, bne_iff_ne, and_congr_right_iff]
  intro ha
  obtain ⟨j, hj, hepoch⟩ := h.since r ha
  have hbound (n : Nat) : advances (calls.take n) < 2 ^ 31 :=
    Nat.lt_of_le_of_lt (advances_take_le_self calls n) hlt
  rw [hepoch, now_after, ht.target_eq, isBefore_add_ofNat _ (hbound _) (hbound _),
    decide_eq_true_eq, ht.advances_lt_iff (ht.ne_revives hj.revives)]
  constructor
  · exact fun hji => ⟨j, hji, hj.lastRevives⟩
  · rintro ⟨j', hji, hj'⟩
    rwa [hj.unique hj']

theorem Keeps.faithful (h : c.Keeps calls) (hlt : advances calls < 2 ^ 31) : c.Faithful calls where
  now := now_after c calls
  active := h.active
  epoch r ha := by
    obtain ⟨i, hi, hepoch⟩ := h.since r ha
    exact ⟨i, hi.lastRevives, hepoch⟩
  blocks _ _ _ ht := h.blocks_iff hlt ht

theorem Orderly.blocks_of_le (idle : ∀ r, (c.word r).active = 0) (h : c.Orderly calls)
    (ht : c.Answers calls i target) {n n' : Nat} (hi : i < n) (hn : n ≤ n')
    (hb : ((c.after (calls.take n')).word r).blocks target = true) :
    ((c.after (calls.take n)).word r).blocks target = true := by
  have hk (l : Nat) : c.Keeps (calls.take l) := .of_orderly idle (h.take l)
  have hi' := Nat.lt_of_lt_of_le hi hn
  obtain ⟨ha, j, hji, hj⟩ := ((hk n').blocks_iff (h.take n').advances_lt (ht.take hi')).1 hb
  obtain ⟨j', hs, -⟩ := (hk n').since r ha
  obtain rfl := hs.unique hj
  have htake : (calls.take n').take n = calls.take n := by
    rw [List.take_take, Nat.min_eq_left hn]
  have hs' : c.Since (calls.take n) r j' := htake ▸ hs.take (Nat.lt_trans hji hi)
  refine ((hk n).blocks_iff (h.take n).advances_lt (ht.take hi)).2 ⟨?_, j', hji, hs'.lastRevives⟩
  rw [← (hk n).readers_pos_iff]
  rcases Nat.le_total n calls.length with hl | hl
  · rw [← htake]
    exact hs.occupied n (Nat.lt_trans hji hi) (by rw [List.length_take]; omega)
  · rw [List.take_of_length_le hl, ← List.take_of_length_le (Nat.le_trans hl hn)]
    exact ((hk n').readers_pos_iff r).2 ha

/-- From idle records on, as long as nobody leaves an idle record or enters a full one, and the
counter is advanced less than half a turn: after every call the counter and the records tell how
many calls of each kind there were, the epoch of an active record is that of its first reader
(`Faithful`), and it blocks just the targets given out after that reader came. The calls between
change neither epoch nor, in a word, the other half. A record that has ceased to block a target does
not block it again. -/
theorem attendance (c : Clock) (calls : List Call) (idle : ∀ r, (c.word r).active = 0)
    (h : c.Orderly calls) :
    (∀ n, c.Faithful (calls.take n)) ∧
      (∀ n, (hn : n < calls.length) → (c.after (calls.take n)).Effect calls[n] ∧
        ∀ r, ((c.after (calls.take n)).word r).active ≠ 0 →
          ((c.after (calls.take (n + 1))).word r).epoch =
            ((c.after (calls.take n)).word r).epoch) ∧
      ∀ r i target, c.Answers calls i target → ∀ n n', i < n → n ≤ n' →
        ((c.after (calls.take n)).word r).blocks target = false →
          ((c.after (calls.take n')).word r).blocks target = false := by
  have hk (n : Nat) : c.Keeps (calls.take n) := .of_orderly idle (h.take n)
  refine ⟨fun n => (hk n).faithful (h.take n).advances_lt, fun n hn => ?_, ?_⟩
  · have he := ((hk n).accepts (h.allows n hn)).effect
    refine ⟨he, fun r ha => ?_⟩
    rw [after_take_succ c hn]
    exact he.epoch ha
  · intro r i target ht n n' hi hn hb
    rw [← Bool.not_eq_true] at hb ⊢
    exact mt (h.blocks_of_le idle ht hi hn) hb

instance (c : Clock) (calls : List Call) (s : Call) : Decidable (c.Allows calls s) :=
  match s with
  | .enter _ => inferInstanceAs (Decidable (_ < _))
  | .leave _ => inferInstanceAs (Decidable (_ < _))
  | .advance | .read _ | .blocks .. | .unknown _ => inferInstanceAs (Decidable True)

/-- The counter wraps around between two readers. -/
def wrapClock : Clock := start 0xFFFFFFFF [.pack 7 0, .pack 0 0]

def wrapCalls : List Call :=
  [.enter 0, .advance, .enter 1, .enter 0, .advance, .leave 0, .leave 0]

theorem wrapClock_attendance :
    (∀ r, (wrapClock.word r).active = 0) ∧ wrapClock.Orderly wrapCalls ∧
      (∀ n, wrapClock.Faithful (wrapCalls.take n)) ∧
      wrapClock.Answers wrapCalls 1 0 ∧ wrapClock.Answers wrapCalls 4 1 ∧
      ((wrapClock.after (wrapCalls.take 6)).word 0).blocks 0 = true ∧
      ((wrapClock.after (wrapCalls.take 6)).word 1).blocks 0 = false ∧
      ((wrapClock.after (wrapCalls.take 6)).word 1).blocks 1 = true := by
  have idle (r : Nat) : (wrapClock.word r).active = 0 := by
    have hr : r % 2 = 0 ∨ r % 2 = 1 := by omega
    rcases hr with hr | hr <;> simp [wrapClock, start, word, place, Table.get, hr]
  have orderly : wrapClock.Orderly wrapCalls := ⟨by decide +kernel, by decide +kernel⟩
  have answers : wrapClock.Answers wrapCalls 1 0 := ⟨rfl, rfl⟩
  have answers' : wrapClock.Answers wrapCalls 4 1 := ⟨rfl, rfl⟩
  obtain ⟨faithful, -, lasting⟩ := attendance wrapClock wrapCalls idle orderly
  refine ⟨idle, orderly, faithful, answers, answers', by decide +kernel, ?_, by decide +kernel⟩
  exact lasting 1 1 0 answers 2 6 (by decide) (by decide) (by decide +kernel)

end Trial.Clock

end GracePeriod
