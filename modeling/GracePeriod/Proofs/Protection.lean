import GracePeriod.Proofs.Clock
import GracePeriod.Proofs.ReaderCount

namespace GracePeriod

open History SlotArray

/-- One slot more is taken, and its record counts one reader more. -/
structure Domain.Joined (d d' : Domain) (w i : Nat) : Prop where
  free : (d.records.get w).readers.isTaken i = false
  taken : (d'.records.get w).readers.isTaken i = true
  count : (d'.records.get w).word.active.toNat = (d.records.get w).word.active.toNat + 1
  slots : ∀ v j, ¬(v = w ∧ j = i) →
    (d'.records.get v).readers.look j = (d.records.get v).readers.look j
  counts : ∀ v, v ≠ w → (d'.records.get v).word.active = (d.records.get v).word.active

/-- No record loses a reader, and no slot that is in use changes. -/
structure Domain.Spared (d d' : Domain) : Prop where
  counts : ∀ v, (d'.records.get v).word.active = (d.records.get v).word.active
  slots : ∀ v j, (d.records.get v).readers.isTaken j = true →
    (d'.records.get v).readers.look j = (d.records.get v).readers.look j

theorem Domain.Spared.refl (d : Domain) : d.Spared d := ⟨fun _ => rfl, fun _ _ _ => rfl⟩

namespace Machine

variable {m m' : Machine} {t u e w i : Nat} {k : Kind}

theorem Opening.joined (h : Opening t e k w i m m') (ha : Accounts m e k) :
    (m.domain e k).Joined (m'.domain e k) w i := by
  obtain ⟨hfree, hholds, -⟩ := (ha.holds w).enter h.entered
  have hget (v : Nat) : (m'.domain e k).records.get v = if v = w then
      (((m.domain e k).records.get w).enter (m.domain e k).epoch
        (m.taskId t (m.engine e).access.scheduler)).1 else (m.domain e k).records.get v := by
    rw [h.domain, Domain.get_setRecord]
  constructor
  · exact Bool.eq_false_iff.2 fun hc => hfree (((ha.holds w).taken i).1 hc)
  · rw [hget, if_pos rfl]
    exact (hholds.taken i).2 List.mem_cons_self
  · rw [hget, if_pos rfl, hholds.count, (ha.holds w).count, List.length_cons]
  · intro v j hvj
    rw [ha.look_opening h, if_neg hvj]
  · intro v hv
    rw [hget, if_neg hv]

theorem Closing.joined (h : Closing t e k w i m m') (ha : Accounts m e k) :
    (m'.domain e k).Joined (m.domain e k) w i := by
  have hi : i ∈ slotsOn (m.history e k) w :=
    mem_slotsOn.2 ⟨_, (ha.mem_iff ⟨t, w, i⟩).2 h.inside, rfl, rfl⟩
  obtain ⟨-, hholds, -⟩ := (ha.holds w).leave hi
  have hget (v : Nat) : (m'.domain e k).records.get v = if v = w then
      (((m.domain e k).records.get w).leave i).1 else (m.domain e k).records.get v := by
    rw [h.domain, ha.leave_ok h.inside, Domain.get_setRecord]
  constructor
  · rw [hget, if_pos rfl]
    exact Bool.eq_false_iff.2 fun hc =>
      (ha.holds w).nodup.not_mem_erase ((hholds.taken i).1 hc)
  · exact ((ha.holds w).taken i).2 hi
  · rw [hget, if_pos rfl, hholds.count, (ha.holds w).count, List.length_erase_of_mem hi]
    have := List.length_pos_of_mem hi
    omega
  · intro v j hvj
    rw [ha.look_closing h, if_neg hvj]
  · intro v hv
    rw [hget, if_neg hv]

theorem Stranding.spared (h : Stranding t e k m m') (ha : Accounts m e k) :
    (m.domain e k).Spared (m'.domain e k) := by
  rcases h.domain with hd | ⟨w, f, -, -, hf, hd⟩
  · rw [hd]
    exact .refl _
  · obtain ⟨hword, -, hlook⟩ :=
      WorkerRecord.enter_error (ha.holds w).wellFormed (ha.holds w).acquire_lt hf
    refine ⟨fun v => ?_, fun v j hj => ?_⟩
    · rw [hd, Domain.get_setRecord]
      split
      · rename_i hv
        rw [hword, hv]
      · rfl
    · rw [hd, Domain.get_setRecord]
      split
      · rename_i hv
        subst hv
        exact hlook j hj
      · rfl

theorem not_skips (h : ∀ s < m.schedulers.size, (m.scheduler s).halted = false) (e : Nat) :
    m.skips e = false := by
  have hall (s : Nat) : (m.scheduler s).halted = false := by
    by_cases hs : s < m.schedulers.size
    · exact h s hs
    · rw [scheduler, Table.get_of_size_le (Nat.not_lt.1 hs)]
      rfl
  rw [skips, hall, Bool.and_false]

theorem skips_pin (m : Machine) (t : Nat) (p : Access) (e : Nat) :
    (m.pin t p).skips e = m.skips e := by
  have henroll (m : Machine) (t s c : Nat) :
      ((m.enroll t s).scheduler c).halted = (m.scheduler c).halted := by
    rcases enroll_cases m t s with ⟨-, h⟩ | ⟨-, h⟩ <;> rw [h]
    show ((m.schedulers.set s _).get c).halted = _
    rw [Table.get_set]
    split
    · rename_i hc
      rw [hc]
      rfl
    · rfl
  have hrecord (c : Nat) : (m.record t p .pin).scheduler c = m.scheduler c := by
    unfold record
    split <;> rfl
  unfold skips
  rw [engine_pin]
  refine congrArg (_ && ·) ?_
  rw [pin, changeTask, setTask, scheduler_modifyScheduler]
  split
  · exact (henroll ..).trans (congrArg _ (hrecord _))
  · exact (henroll ..).trans (congrArg _ (hrecord _))

theorem skips_openSection (m : Machine) (t e : Nat) (k : Kind) :
    (m.openSection t e k).1.skips e = m.skips e := by
  have hi := Inside.openSection m t e k
  obtain ⟨ds, hd⟩ := hi.engine e
  have hs : (m.openSection t e k).1.schedulers = m.schedulers := by rw [hi.eq]
  simp only [skips, scheduler, hd, hs]

theorem readLock_eq (hs : m.skips e = false) :
    m.readLock t e k = (m.pin t (m.engine e).access).openSection t e k := by
  rw [readLock, hs]
  rfl

theorem skips_readLock (hs : m.skips e = false) : (m.readLock t e k).1.skips e = false := by
  rw [readLock_eq hs, skips_openSection, skips_pin, hs]

/-- What thread `t` gets from a lock that returns. -/
inductive Locked (t e : Nat) (k : Kind) (m m' : Machine) : Prop
  | outermost (w i : Nat) (ho : m.readDepth t e k = 0)
      (hj : (m.domain e k).Joined (m'.domain e k) w i)
      (hp : ∀ u, m'.place u e k = if u = t then some (w, i) else m.place u e k)
  | nested (hi : m.readDepth t e k ≠ 0) (hd : m'.domain e k = m.domain e k)
      (hp : ∀ u, m'.place u e k = m.place u e k)

/-- What thread `t` gives back in an unlock. -/
inductive Unlocked (t e : Nat) (k : Kind) (m m' : Machine) : Prop
  | outermost (w i : Nat) (ho : m.readDepth t e k = 1) (hi : m.place t e k = some (w, i))
      (hj : (m'.domain e k).Joined (m.domain e k) w i)
      (hp : ∀ u, m'.place u e k = if u = t then none else m.place u e k)
  | nested (hn : m.readDepth t e k ≠ 1) (hd : m'.domain e k = m.domain e k)
      (hp : ∀ u, m'.place u e k = m.place u e k)

/-- What is left of a lock of thread `t` that panics. -/
structure Panicked (t e : Nat) (k : Kind) (m m' : Machine) : Prop where
  spared : (m.domain e k).Spared (m'.domain e k)
  others : ∀ u, u ≠ t → m'.place u e k = m.place u e k
  depth : m.readDepth t e k = 0 → m'.readDepth t e k = 1

theorem unique_pin (hn : m.NestsUnique) (t : Nat) (p : Access) : ((m.pin t p).nests t).Unique := by
  rw [(Served.pin m t p).nests]
  exact hn t

theorem readDepth_pin (m : Machine) (t : Nat) (p : Access) (e : Nat) (k : Kind) :
    (m.pin t p).readDepth t e k = m.readDepth t e k :=
  congrArg (Nests.depth · e k) ((Served.pin m t p).nests t)

theorem enrolled_pin (m : Machine) (t e : Nat) : ((m.pin t (m.engine e).access).task? t
    ((m.pin t (m.engine e).access).engine e).access.scheduler).isSome = true := by
  rw [engine_pin]
  exact task?_pin ..

/-- The lock of a thread that is inside goes one level deeper, or it panics. -/
theorem readLock_inside (hn : m.NestsUnique) (hs : m.skips e = false) (h0 : m.readDepth t e k ≠ 0) :
    Still e k m (m.readLock t e k).1 ∧
      if m.readDepth t e k = 0xFFFFFFFF then (m.readLock t e k).2 = .error .nestingOverflow
      else (m.readLock t e k).2 = .ok () ∧
        (m.readLock t e k).1.readDepth t e k = m.readDepth t e k + 1 := by
  have hst := (Served.pin m t (m.engine e).access).still e k
  have hu := unique_pin hn t (m.engine e).access
  rw [← readDepth_pin m t (m.engine e).access] at h0 ⊢
  rw [readLock_eq hs]
  refine ⟨?_, ?_⟩
  · rcases openSection_cases (k := k) hu (enrolled_pin m t e) with
      ⟨-, h⟩ | ⟨w, i, -, h⟩ | ⟨f, -, h⟩
    · exact hst.trans h
    · exact absurd (readDepth_eq_zero.2 h.outside) h0
    · exact absurd (readDepth_eq_zero.2 h.outside) h0
  · split
    · rename_i hmax
      exact openSection_overflow hmax
    · rename_i hmax
      exact ⟨openSection_nested h0 hmax, readDepth_openSection hu hmax⟩

theorem readLock_cases (hn : m.NestsUnique) (ha : Accounts m e k) (hs : m.skips e = false) :
    ((m.readLock t e k).2 = .ok () ∧
      (m.readLock t e k).1.readDepth t e k = m.readDepth t e k + 1 ∧
      Locked t e k m (m.readLock t e k).1) ∨
    ∃ f, (m.readLock t e k).2 = .error f ∧ Panicked t e k m (m.readLock t e k).1 := by
  by_cases h0 : m.readDepth t e k = 0
  · have hst := (Served.pin m t (m.engine e).access).still e k
    have hu := unique_pin hn t (m.engine e).access
    have hdepth := readDepth_pin m t (m.engine e).access e k
    have hrise := readDepth_openSection (e := e) (k := k) hu (by rw [hdepth, h0]; decide)
    rw [readLock_eq hs, hrise, hdepth]
    rcases openSection_cases (k := k) hu (enrolled_pin m t e) with
      ⟨hin, -⟩ | ⟨w, i, hok, h⟩ | ⟨f, hf, h⟩
    · exact absurd (readDepth_eq_zero.1 (hdepth.trans h0)) hin
    · have hj := h.joined (ha.still hst)
      rw [hst.domain] at hj
      refine .inl ⟨hok, rfl, .outermost w i h0 hj fun u => ?_⟩
      rw [h.place, hst.place]
    · have hsp := h.spared (ha.still hst)
      rw [hst.domain] at hsp
      refine .inr ⟨f, hf, hsp, fun u hne => (h.others u hne).trans (hst.place u), fun _ => ?_⟩
      rw [hrise, hdepth, h0]
      rfl
  · obtain ⟨hst, hr⟩ := readLock_inside hn hs h0
    split at hr
    · exact .inr ⟨_, hr, hst.domain ▸ .refl _, fun u _ => hst.place u, fun h => absurd h h0⟩
    · exact .inl ⟨hr.1, hr.2, .nested h0 hst.domain hst.place⟩

theorem readUnlock_effect (hn : m.NestsUnique) (ha : Accounts m e k) (hs : m.skips e = false) :
    (m.readDepth t e k ≠ 0 →
      (m.readUnlock t e k).1.readDepth t e k = m.readDepth t e k - 1) ∧
    Unlocked t e k m (m.readUnlock t e k).1 := by
  have hserved : Served (m.closeSection t e k).1 (m.readUnlock t e k).1 := by
    simp only [readUnlock, hs, Bool.false_eq_true, if_false]
    split
    · exact .refl _
    · exact .unpin ..
  have hst := hserved.still e k
  have hdepth : (m.readUnlock t e k).1.readDepth t e k = (m.closeSection t e k).1.readDepth t e k :=
    congrArg (Nests.depth · e k) (hserved.nests t)
  refine ⟨fun h0 => hdepth.trans (readDepth_closeSection (hn t) h0), ?_⟩
  rcases closeSection_cases (e := e) (k := k) (hn t) with h | ⟨w, i, -, h⟩
  · refine .nested (fun h1 => ?_) (hst.domain.trans h.domain) fun u =>
      (hst.place u).trans (h.place u)
    have h0 : m.readDepth t e k ≠ 0 := by rw [h1]; decide
    have hc := readDepth_closeSection (hn t) h0
    rw [h1] at hc
    rw [Ne, readDepth_eq_zero, ← h.place, ← readDepth_eq_zero] at h0
    exact h0 hc
  · have hj := h.joined ha
    rw [← hst.domain] at hj
    refine .outermost w i ?_ h.inside hj fun u => ?_
    · have h0 : m.readDepth t e k ≠ 0 := by
        rw [Ne, readDepth_eq_zero, h.inside]
        nofun
      have hc := readDepth_closeSection (hn t) h0
      rw [readDepth_eq_zero.2 ((h.place t).trans (if_pos rfl))] at hc
      rw [← UInt32.sub_add_cancel (m.readDepth t e k) 1, ← hc]
      rfl
    · rw [hst.place, h.place]

/-- Thread `t` is the reader in slot `i` of worker `w`, and it is counted there. -/
structure Protected (m : Machine) (t e : Nat) (k : Kind) (w i : Nat) : Prop where
  place : m.place t e k = some (w, i)
  registered : w < (m.domain e k).workers ∧ ((m.domain e k).records.get w).registered = true
  taken : ((m.domain e k).records.get w).readers.isTaken i = true
  named : m.isLive t = true → ∃ id, m.task? t (m.engine e).access.scheduler = some id ∧
    (((m.domain e k).records.get w).readers.look i).value = some id
  /-- No other slot in use is its own. -/
  once : ∀ v j, ((m.domain e k).records.get v).readers.isTaken j = true → (v, j) ≠ (w, i) →
    ∃ u, u ≠ t ∧ m.place u e k = some (v, j)
  alone : ∀ u, m.place u e k = some (w, i) → u = t
  counted : t ∈ m.insiders e k w ∧
    ((m.domain e k).records.get w).word.active.toNat = (m.insiders e k w).length

/-- The next lock of thread `t` returns, but adds no reader to any record. -/
structure Unshielded (t e : Nat) (k : Kind) (m : Machine) : Prop where
  returns : (m.readLock t e k).2 = .ok ()
  depth : (m.readLock t e k).1.readDepth t e k = 2
  domain : (m.readLock t e k).1.domain e k = m.domain e k

/-- Locks protect, and what one thread does is not at the expense of another. -/
structure Protects (m : Machine) (e : Nat) (k : Kind) : Prop where
  reader : ∀ t, m.readDepth t e k ≠ 0 → ∃ w i, Protected m t e k w i
  lasting : ∀ t w i m', Change m m' → m.place t e k = some (w, i) →
    m'.place t e k = some (w, i) ∨ m'.history e k = (t, .closed w i) :: m.history e k
  lock : ∀ t, m.skips e = false → (m.readLock t e k).2 = .ok () →
    (m.readLock t e k).1.readDepth t e k = m.readDepth t e k + 1 ∧
      Locked t e k m (m.readLock t e k).1
  unlock : ∀ t, m.skips e = false →
    (m.readDepth t e k ≠ 0 →
      (m.readUnlock t e k).1.readDepth t e k = m.readDepth t e k - 1) ∧
    Unlocked t e k m (m.readUnlock t e k).1
  panic : ∀ t f, m.skips e = false → (m.readLock t e k).2 = .error f →
    Panicked t e k m (m.readLock t e k).1 ∧
      (m.readDepth t e k = 0 → Unshielded t e k (m.readLock t e k).1)

theorem mem_insiders (hp : m.place t e k = some (w, i)) : t ∈ m.insiders e k w := by
  refine List.mem_filter.2 ⟨List.mem_range.2 (lt_size_of_place (by rw [hp]; nofun)), ?_⟩
  rw [hp]
  exact decide_eq_true rfl

theorem Visited.protected_of_place (h : Visited m) (hs : (m.history e k).NoneStranded)
    (hp : m.place t e k = some (w, i)) : Protected m t e k w i := by
  have ha := h.accounts hs
  have hx := (ha.mem_iff ⟨t, w, i⟩).2 hp
  have hins := (insiders_perm ha w).length_eq
  rw [List.length_map, ← ha.count_eq] at hins
  refine ⟨hp, ha.registered _ hx, ((ha.holds w).taken i).2 (mem_slotsOn.2 ⟨_, hx, rfl, rfl⟩),
    fun hl => (h.tags hs).names h.tasked hl hp, fun v j hj hne => ?_,
    fun u hu => ha.eq_of_place hu hp, mem_insiders hp, hins.symm⟩
  obtain ⟨⟨u, v', j'⟩, hy, rfl, rfl⟩ := mem_slotsOn.1 (((ha.holds v).taken j).1 hj)
  have hpu := (ha.mem_iff _).1 hy
  refine ⟨u, ?_, hpu⟩
  rintro rfl
  exact hne (Option.some.inj (hpu.symm.trans hp))

/-- Only its own unlock ends a section. -/
theorem SectionChange.lasting (h : SectionChange u e k m m') (ha : Accounts m e k)
    (hp : m.place t e k = some (w, i)) : m'.place t e k = some (w, i) ∨
      m'.history e k = (t, .closed w i) :: m.history e k := by
  cases h with
  | still h => exact .inl ((h.place t).trans hp)
  | opening v j h =>
    rw [h.place]
    split
    · rename_i htu
      subst htu
      exact nomatch h.outside.symm.trans hp
    · exact .inl hp
  | closing v j h =>
    rw [h.place]
    split
    · rename_i htu
      have hin := h.inside
      rw [← htu, hp] at hin
      obtain ⟨rfl, rfl⟩ := Prod.mk.inj (Option.some.inj hin)
      subst htu
      exact .inr (h.history (congrArg Prod.snd (ha.leave_ok hp)))
    · exact .inl hp
  | stranding h =>
    refine .inl ((h.others t ?_).trans hp)
    rintro rfl
    exact nomatch h.outside.symm.trans hp
  | registering v hpl hd hh => exact .inl ((hpl t).trans hp)
  | advancing hpl hd hh => exact .inl ((hpl t).trans hp)
  | founding he hpl hw hd hh => exact .inl ((hpl t).trans hp)

theorem Visited.lock_protects (h : Visited m) (hs : (m.history e k).NoneStranded) : Protects m e k := by
  have hn := h.nestsUnique
  have ha := h.accounts hs
  constructor
  · intro t hd
    obtain ⟨⟨w, i⟩, hp⟩ := Option.ne_none_iff_exists'.1 (mt readDepth_eq_zero.2 hd)
    exact ⟨w, i, h.protected_of_place hs hp⟩
  · intro t w i m' hc hp
    obtain ⟨u, hsc⟩ := hc.sectionChange hn e k
    exact hsc.lasting ha hp
  · intro t hsk hr
    rcases readLock_cases (t := t) hn ha hsk with ⟨-, hd, hl⟩ | ⟨f, hf, -⟩
    · exact ⟨hd, hl⟩
    · exact nomatch hr.symm.trans hf
  · exact fun t hsk => readUnlock_effect hn ha hsk
  · intro t f hsk hf
    rcases readLock_cases (t := t) hn ha hsk with ⟨hr, -⟩ | ⟨f', -, hp⟩
    · exact nomatch hr.symm.trans hf
    · refine ⟨hp, fun h0 => ?_⟩
      have hn' := Moves.unique (Actions.moves (Actions.readLock (.refl : Actions .all t m m) e k)) hn
      have h1 := hp.depth h0
      obtain ⟨hst, hr⟩ := readLock_inside hn' (skips_readLock hsk) (by rw [h1]; decide)
      rw [h1, if_neg (by decide)] at hr
      exact ⟨hr.1, hr.2, hst.domain⟩

def reading : Machine := (sample.perform (.act 0 (.handle 0 (.readLock .regular)))).1

theorem reading_protects :
    Reachable reading ∧ reading.readDepth 0 0 .regular = 1 ∧ Protects reading 0 .regular := by
  have hr : Reachable reading := reachable_sample.perform _ (by decide +kernel)
  have hh : reading.history 0 .regular = [(0, .opened 0 0)] := rfl
  exact ⟨hr, by decide +kernel, hr.visited.lock_protects (by rw [hh]; trivial)⟩

/-- A lock has panicked on a worker that was registered too late. -/
def late : Machine :=
  let m := (Machine.perform { schedulers := ⟨[{ workers := 1 }]⟩, named := 1 }
    (.act 0 (.build 0 { scheduler := some 0, autoRegister := false }))).1
  let m := (m.perform (.act 0 (.handle 0 (.readLock .regular)))).1
  (m.perform (.act 0 (.handle 0 (.register .regular 0)))).1

theorem reachable_late : Reachable late :=
  (((@Reachable.new [1] 1 _ rfl).perform _ (by decide +kernel)).perform _
    (by decide +kernel)).perform _ (by decide +kernel)

/-- After it the same thread locks once more. -/
def lateReader : Machine := (late.perform (.act 0 (.handle 0 (.readLock .regular)))).1

/-- After it another thread locks, and the first one unlocks. -/
def lateVictim : Machine :=
  ((late.perform (.act 1 (.handle 0 (.readLock .regular)))).1.perform
    (.act 0 (.handle 0 (.readUnlock .regular)))).1

theorem late_reader_unprotected :
    (Reachable lateReader ∧ lateReader.skips 0 = false ∧ lateReader.readDepth 0 0 .regular = 2 ∧
      ∀ w i, ¬Protected lateReader 0 0 .regular w i) ∧
    Reachable lateVictim ∧ lateVictim.readDepth 3 0 .regular = 1 ∧
      ∀ w i, ¬Protected lateVictim 3 0 .regular w i := by
  refine ⟨⟨reachable_late.perform _ (by decide +kernel), by decide +kernel, by decide +kernel,
    fun w i h => ?_⟩, (reachable_late.perform _ (by decide +kernel)).perform _ (by decide +kernel),
    by decide +kernel, fun w i h => ?_⟩
  · have hp : lateReader.place 0 0 .regular = some (0, 0) := by decide +kernel
    obtain ⟨rfl, rfl⟩ := Prod.mk.inj (Option.some.inj (h.place.symm.trans hp))
    exact absurd h.taken (by decide +kernel)
  · have hp : lateVictim.place 3 0 .regular = some (0, 0) := by decide +kernel
    obtain ⟨rfl, rfl⟩ := Prod.mk.inj (Option.some.inj (h.place.symm.trans hp))
    exact absurd h.taken (by decide +kernel)

end Machine

end GracePeriod
