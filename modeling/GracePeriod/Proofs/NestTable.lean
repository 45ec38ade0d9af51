import GracePeriod.Proofs.Pins

namespace GracePeriod

namespace Nests

variable {ns : Nests} {n : Nest} {e e' i : Nat} {f : Nest → Nest}

def engines (ns : Nests) : List Nat := ns.map Nest.engine

theorem mem_engines_ensure (h : e' ∈ (ns.ensure e).engines) : e' = e ∨ e' ∈ ns.engines := by
  unfold ensure at h
  split at h
  · exact .inr h
  · rw [engines, List.map_append] at h
    rcases List.mem_append.1 h with h | h
    · exact .inr h
    · exact .inl (List.mem_singleton.1 h)

theorem mem_engines_update (hf : ∀ n, (f n).engine = n.engine) (h : e' ∈ (ns.update e f).engines) :
    e' = e ∨ e' ∈ ns.engines := by
  obtain ⟨i, -, heq⟩ := update_eq ns e f
  rw [heq, engines, map_engine_modify hf] at h
  exact mem_engines_ensure h

theorem mem_engines_swapRemove (hi : i < ns.length) (h : e ∈ engines (swapRemove ns i)) :
    e ∈ ns.engines := by
  obtain ⟨x, hx, rfl⟩ := List.mem_map.1 h
  exact List.mem_map_of_mem (List.mem_of_mem_eraseIdx ((swapRemove_perm hi).mem_iff.1 hx))

end Nests

namespace Machine

variable {m m' n : Machine} {t u s e e' w i : Nat} {k k' : Kind} {x : Nest}
  {steps : List (Machine × Machine)}

theorem mem_engines_openSection (h : e' ∈ ((m.openSection t e k).1.nests t).engines) :
    e' = e ∨ e' ∈ (m.nests t).engines := by
  have hset {m : Machine} {ns : Nests} (h : e' ∈ ((m.setNests t ns).nests t).engines) :
      e' ∈ ns.engines := by
    rwa [nests_setNests, if_pos rfl] at h
  have hupdate {m : Machine} {f : Nest → Nest} (hf : ∀ n, (f n).engine = n.engine)
      (h : e' ∈ ((m.setNests t ((m.nests t).update e f)).nests t).engines) :
      e' = e ∨ e' ∈ (m.nests t).engines := Nests.mem_engines_update hf (hset h)
  have henter {m : Machine} (h : e' ∈ ((m.enterRecord t e k).1.nests t).engines) :
      e' = e ∨ e' ∈ (m.nests t).engines := by
    unfold enterRecord at h
    dsimp only at h
    split at h
    · exact .inr h
    · split at h
      · exact .inr h
      · exact hupdate (Nest.engine_setPlace k _ _) h
  have hdeepen (h : e' ∈ ((m.deepen t e k).1.nests t).engines) : e' = e ∨ e' ∈ (m.nests t).engines := by
    unfold deepen at h
    dsimp only at h
    split at h
    · exact Nests.mem_engines_ensure (hset h)
    · split at h
      · rcases henter h with rfl | h
        · exact .inl rfl
        · exact hupdate (Nest.engine_setDepth k _) h
      · exact hupdate (Nest.engine_setDepth k _) h
  unfold openSection at h
  dsimp only at h
  split at h <;> exact hdeepen h

theorem engines_rise (m : Machine) (t : Nat) (k : Kind) (i : Nat) :
    ((m.rise t k i).nests t).engines = (m.nests t).engines := by
  rw [rise, nests_setNests, if_pos rfl]
  exact Nests.map_engine_modify (Nest.engine_setDepth k _) ..

theorem nests_leaveRecord (hn : (m.nests t)[i]? = some x) (ho : (m.leaveRecord t e k i).2 = .ok ()) :
    (m.leaveRecord t e k i).1.nests t = if x.isIdle then swapRemove (m.nests t) i else m.nests t := by
  have hg : (m.nests t).getD i default = x := by simp [List.getD, hn]
  unfold leaveRecord at ho ⊢
  dsimp only at ho ⊢
  rw [hg] at ho ⊢
  split at ho
  · cases ho
  · show (ite _ _ _ : Machine).nests t = _
    split
    · exact (nests_setNests ..).trans (if_pos rfl)
    · rfl

theorem mem_engines_closeSection (hu : (m.nests t).Unique) (ho : (m.closeSection t e k).2 = .ok ())
    (h : e' ∈ ((m.closeSection t e k).1.nests t).engines) : e' ∈ (m.nests t).engines ∧
      (e' = e → (m.closeSection t e k).1.depthIn t e ≠ 0) := by
  rw [closeSection_eq] at ho h ⊢
  cases hi : (m.nests t).openPosition e k with
  | none =>
    rw [hi] at ho
    cases ho
  | some i =>
    rw [hi] at ho h
    dsimp only at ho h ⊢
    have hur := unique_rise hu k i
    have hn := getElem?_rise hu hi
    have he : (((m.nests t).entry e).setDepth k (m.readDepth t e k - 1)).engine = e :=
      (Nest.engine_setDepth ..).trans (Nests.engine_entry ..)
    split at ho
    · rename_i h0
      rw [if_pos h0] at h ⊢
      have hleave := nests_leaveRecord hn ho
      rw [hleave] at h
      split at h
      · rename_i hidle
        have hlt := (List.getElem?_eq_some_iff.1 hn).1
        refine ⟨engines_rise m t k i ▸ Nests.mem_engines_swapRemove hlt h, fun hee => ?_⟩
        obtain ⟨y, hy, hye⟩ := List.mem_map.1 h
        exact absurd (hye.trans (hee.trans he.symm)) (Nests.engine_ne_of_mem_swapRemove hur hn hy)
      · rename_i hidle
        refine ⟨engines_rise m t k i ▸ h, fun _ => depthIn_ne_zero.2 ?_⟩
        obtain ⟨k', hk⟩ := not_forall.1 (mt (Nest.isIdle_iff _).2 hidle)
        refine ⟨k', ?_⟩
        have hent := Nests.entry_of_mem hur (List.mem_of_getElem? hn)
        rw [he] at hent
        rwa [readDepth_eq, hleave, if_neg hidle, hent]
    · rename_i h0
      rw [if_neg h0] at h ⊢
      refine ⟨engines_rise m t k i ▸ h, fun _ => depthIn_ne_zero.2 ⟨k, ?_⟩⟩
      have hd : ((m.nests t).getD i default).depth.get k = m.readDepth t e k := by
        simp [List.getD, (Nests.openPosition_eq_some hu hi).1, readDepth_eq]
      rwa [readDepth_rise hu hi, ← hd]

/-- Thread `t` keeps entries of those engines only of which it is inside. -/
def Tidy (m : Machine) (t : Nat) : Prop := ∀ e ∈ (m.nests t).engines, m.depthIn t e ≠ 0

namespace Tidy

theorem of_nests (h : Tidy m t) (hn : m'.nests t = m.nests t) : Tidy m' t := by
  intro e he
  rw [hn] at he
  obtain ⟨k, hk⟩ := depthIn_ne_zero.1 (h e he)
  exact depthIn_ne_zero.2 ⟨k, by rwa [Machine.readDepth, hn]⟩

theorem shifts (h : Tidy m t) (hs : Shifts t e k m m')
    (hm : ∀ e' ∈ (m'.nests t).engines, e' ≠ e → e' ∈ (m.nests t).engines)
    (he : e ∈ (m'.nests t).engines → m'.depthIn t e ≠ 0) : Tidy m' t := by
  intro e' he'
  by_cases hee : e' = e
  · subst hee
    exact he he'
  · obtain ⟨k', hk⟩ := depthIn_ne_zero.1 (h e' (hm e' he' hee))
    exact depthIn_ne_zero.2 ⟨k', by rwa [hs.elsewhere e' k' fun hc => hee hc.1]⟩

theorem readLock (h : Tidy m t) (hn : m.NestsUnique) (hs : m.skips e = false)
    (ho : (m.readLock t e k).2 = .ok ()) : Tidy (m.readLock t e k).1 t := by
  have hdeep := deepens_readLock hn hs ho
  refine h.shifts hdeep.toShifts (fun e' he' hne => ?_) fun _ => depthIn_ne_zero.2 ⟨k, fun h0 => ?_⟩
  · rw [readLock_eq hs] at he'
    have hpin : Served m (m.pin t (m.engine e).access) := .pin ..
    exact hpin.nests t ▸ (mem_engines_openSection he').resolve_left hne
  · have hd := hdeep.depth
    rw [h0] at hd
    cases hd

theorem readUnlock (h : Tidy m t) (hn : m.NestsUnique) (ha : Accounts m e k) (hs : m.skips e = false)
    (hd : m.readDepth t e k ≠ 0) : Tidy (m.readUnlock t e k).1 t := by
  have hc := closeSection_ok hn ha hd
  have hclose : Tidy (m.closeSection t e k).1 t := by
    refine h.shifts (.inside (.closeSection ..) (.closeSection (hn t))) (fun e' he' _ => ?_) fun he => ?_
    · exact (mem_engines_closeSection (hn t) hc he').1
    · exact (mem_engines_closeSection (hn t) hc he).2 rfl
  refine hclose.of_nests ?_
  simp only [Machine.readUnlock, hs, Bool.false_eq_true, if_false, hc]
  exact (Served.unpin ..).nests t

theorem count_engines (h : Tidy m t) (hn : m.NestsUnique) (e : Nat) :
    (m.nests t).engines.count e = if m.depthIn t e = 0 then 0 else 1 := by
  have hmem : e ∈ (m.nests t).engines ↔ m.depthIn t e ≠ 0 := by
    refine ⟨h e, fun hd => ?_⟩
    obtain ⟨k, hk⟩ := depthIn_ne_zero.1 hd
    by_contra hno
    refine hk ((readDepth_eq ..).trans ?_)
    rw [Nests.entry_of_not_mem fun x hx he => hno (List.mem_map.2 ⟨x, hx, he⟩)]
    cases k <;> rfl
  have hnodup : (m.nests t).engines.Nodup := hn t
  rw [hnodup.count]
  by_cases hd : m.depthIn t e = 0
  · rw [if_neg (fun hc => hmem.1 hc hd), if_pos hd]
  · rw [if_pos (hmem.2 hd), if_neg hd]

end Tidy

/-- In the step thread `t` enters the domain, or goes one level deeper there. -/
def enters (t e : Nat) (k : Kind) (p : Machine × Machine) : Bool :=
  decide (p.1.turn = some t ∧ p.1.locks? t = some (e, k))

/-- In the step thread `t` leaves the domain, or goes up one level. An unlock that panics does not count. -/
def leaves (t e : Nat) (k : Kind) (p : Machine × Machine) : Bool :=
  decide (p.1.turn = some t ∧ p.1.unlocks? t = some (e, k)) && (p.1.readUnlock t e k).2.isOk

/-- In the step thread `t` enters the domain from outside, as the reader in slot `i` of the worker `w` that
it is on. -/
structure Enters (t e : Nat) (k : Kind) (w i : Nat) (p : Machine × Machine) : Prop where
  turn : p.1.turn = some t
  locks : p.1.locks? t = some (e, k)
  outside : p.1.readDepth t e k = 0
  worker : (p.1.view t (p.1.engine e).access.scheduler).worker = w
  joined : (p.1.domain e k).Joined (p.2.domain e k) w i

/-- The step is the outermost unlock of thread `t` in the domain. -/
structure Exits (t e : Nat) (k : Kind) (p : Machine × Machine) : Prop where
  turn : p.1.turn = some t
  unlocks : p.1.unlocks? t = some (e, k)
  outermost : p.1.readDepth t e k = 1

/-- What a step means for the nests of thread `t`. -/
structure Turned (t : Nat) (m m' : Machine) : Prop where
  depth : ∀ e k, (m'.readDepth t e k).toNat + (leaves t e k (m, m')).toNat =
    (m.readDepth t e k).toNat + (enters t e k (m, m')).toNat
  place : ∀ e k w i, m'.place t e k = some (w, i) →
    m.place t e k = some (w, i) ∨ Enters t e k w i (m, m')
  left : ∀ e k w i, Exits t e k (m, m') → m.place t e k = some (w, i) →
    (m'.domain e k).Joined (m.domain e k) w i
  tidy : Tidy m t → Tidy m' t

theorem unlocks?_of_locks? (h : m.locks? t = some (e, k)) : m.unlocks? t = none := by
  unfold locks? at h
  unfold unlocks?
  split at h
  · rename_i held op hc
    cases op with
    | handle slot c =>
      cases c with
      | readLock | srcuLock => exact Option.bind_eq_none_iff.2 fun _ _ => rfl
      | _ => cases h
    | _ => rfl
  · cases h

theorem locks?_of_unlocks? (h : m.unlocks? t = some (e, k)) : m.locks? t = none := by
  cases hl : m.locks? t with
  | none => rfl
  | some q =>
    have hnone := unlocks?_of_locks? hl
    cases hnone.symm.trans h

theorem enters_of_none (h : m.locks? t = none) (e : Nat) (k : Kind) : enters t e k (m, m') = false :=
  decide_eq_false fun hc => nomatch h.symm.trans hc.2

theorem leaves_of_none (h : m.unlocks? t = none) (e : Nat) (k : Kind) : leaves t e k (m, m') = false :=
  Bool.and_eq_false_iff.2 (.inl (decide_eq_false fun hc => nomatch h.symm.trans hc.2))

theorem enters_of_locks? (ht : m.turn = some t) (hl : m.locks? t = some (e, k)) (e' : Nat) (k' : Kind) :
    enters t e' k' (m, m') = decide (e' = e ∧ k' = k) := by
  refine decide_eq_decide.2 ⟨fun h => ?_, fun h => ⟨ht, by rw [hl, h.1, h.2]⟩⟩
  obtain ⟨he, hk⟩ := Prod.mk.inj (Option.some.inj (hl.symm.trans h.2))
  exact ⟨he.symm, hk.symm⟩

theorem leaves_of_unlocks? (ht : m.turn = some t) (hu : m.unlocks? t = some (e, k)) (e' : Nat) (k' : Kind) :
    leaves t e' k' (m, m') = (decide (e' = e ∧ k' = k) && (m.readUnlock t e k).2.isOk) := by
  by_cases hek : e' = e ∧ k' = k
  · obtain ⟨rfl, rfl⟩ := hek
    rw [leaves, decide_eq_true ⟨ht, hu⟩, decide_eq_true ⟨rfl, rfl⟩]
  · rw [decide_eq_false hek]
    refine Bool.and_eq_false_iff.2 (.inl (decide_eq_false fun hc => hek ?_))
    obtain ⟨he, hk⟩ := Prod.mk.inj (Option.some.inj (hu.symm.trans hc.2))
    exact ⟨he.symm, hk.symm⟩

theorem worker_pin {x : Task} {p : Access} (h : Sees m t p.scheduler x)
    (hroom : ∀ i, (m.pin t p).task? t p.scheduler = some i → i < SlotArray.capacity) :
    ((m.pin t p).task t p.scheduler).worker = (m.view t p.scheduler).worker := by
  have hrec : (m.record t p .pin).view t p.scheduler = m.view t p.scheduler := by
    unfold record
    split
    · exact view_of_eq rfl rfl
    · rfl
  obtain ⟨i, y, hy, -⟩ := (sees_record h p .pin).enrolled (b := true)
  have hpin : Stands (m.pin t p) t p.scheduler i y.pin := by
    have hc := hy.changeTask (f := Task.pin) fun _ => rfl
    rwa [changeTask, hy.enroll_eq] at hc
  have hi := hroom i hpin.task?
  rw [hpin.worker_eq hi, ← hrec]
  exact (hy.worker_eq hi).symm

theorem Locks.enters {x : Task} (h : Locks t e k m n m') (hv : Visited n) (htn : n.turn = some t)
    (ht : m.turn = some t) (hl : m.locks? t = some (e, k)) (he : e < m.engines.size)
    (hs : n.skips e = false) (hx : Sees m t (m.engine e).access.scheduler x) (hp : m'.LocksReturned)
    (hroom : ∀ j, m'.task? t (m.engine e).access.scheduler = some j → j < SlotArray.capacity)
    (ho : Opening t e k w i (n.pin t (n.engine e).access) (n.readLock t e k).1) :
    Enters t e k w i (m, m') := by
  have hpin := (Served.pin n t (n.engine e).access).still e k
  have hi : Inside t (n.pin t (n.engine e).access) (n.readLock t e k).1 := readLock_eq hs ▸ .openSection ..
  refine ⟨ht, hl, ?_, ?_, ?_⟩
  · have hout := ho.outside
    rw [hpin.place, h.before.toUnasked.sameNests.place] at hout
    exact readDepth_eq_zero.2 hout
  · have hw := ho.worker
    rw [engine_pin, h.before.access e he, worker_pin (hx.of_eq h.before.schedulers h.before.tasks)] at hw
    · rw [hw]
      exact congrArg Task.worker (view_of_eq h.before.schedulers h.before.tasks).symm
    · intro j hj
      rw [h.before.access e he] at hi
      have htasks := hi.part Thread.tasks (fun _ _ => rfl) t
      exact hroom j (h.after.moves.task? ((task?_of_tasks htasks _).trans hj))
  · have hjoin := ho.joined (((hp.before (h.moves.changes htn).1).accounts hv e k).still hpin)
    rwa [hpin.domain, h.before.domain, ← h.after.domain] at hjoin

namespace Turned

theorem of_same (h : SameNests t m m') (he : ∀ e k, enters t e k (m, m') = false)
    (hl : ∀ e k, leaves t e k (m, m') = false) (hx : ∀ e k, ¬Exits t e k (m, m')) : Turned t m m' where
  depth e k := by rw [h.readDepth, he, hl]
  place e k w i hp := .inl (h.place e k ▸ hp)
  left e k w i h _ := absurd h (hx e k)
  tidy ht := ht.of_nests h.nests

theorem of_idle (h : SameNests t m m') (ht : m.turn ≠ some t) : Turned t m m' :=
  .of_same h (fun _ _ => decide_eq_false fun hc => ht hc.1)
    (fun _ _ => Bool.and_eq_false_iff.2 (.inl (decide_eq_false fun hc => ht hc.1)))
    fun _ _ hx => ht hx.turn

theorem locks {x : Task} (hr : Reachable m) (hb : m.BuildsIdle) (ht : m.turn = some t)
    (hl : m.locks? t = some (e, k)) (hx : Sees m t (m.engine e).access.scheduler x)
    (hs : m.skips e = false) (hp : (m.advance t).LocksReturned)
    (hcap : (m.advance t).threads.size < SlotArray.capacity) : Turned t m (m.advance t) := by
  have hr' : Reachable (m.advance t) := hr.step hb (by rw [step, ht])
  obtain ⟨n, hn⟩ := advance_locks hl
  obtain ⟨hvn, htn⟩ := hn.before.visited hr.visited ht
  have he := lt_size_of_locks? hr hl
  have hsn : n.skips e = false := (hn.before.skips he).trans hs
  have ho := hn.returned hp
  have hdeep := hn.deepens hvn.nestsUnique hp hsn
  have hbefore := hn.before.toUnasked.sameNests
  have hafter := hn.after.toUnasked.sameNests
  refine ⟨fun e' k' => ?_, fun e' k' w i hpl => ?_, fun e' k' w i hx _ => ?_, fun h => ?_⟩
  · rw [leaves_of_none (unlocks?_of_locks? hl), enters_of_locks? ht hl]
    by_cases hek : e' = e ∧ k' = k
    · obtain ⟨rfl, rfl⟩ := hek
      rw [hdeep.depth, decide_eq_true ⟨rfl, rfl⟩]
      rfl
    · rw [hdeep.elsewhere e' k' hek, decide_eq_false hek]
  · rw [hafter.place] at hpl
    rcases place_readLock hvn.nestsUnique hsn ho hpl with hpl | ⟨⟨rfl, rfl⟩, hopen⟩
    · exact .inl (hbefore.place e' k' ▸ hpl)
    · have hroom (j : Nat) (hj : (m.advance t).task? t (m.engine e').access.scheduler = some j) :
          j < SlotArray.capacity := ((hr'.placed hcap).1.has t _ j hj).1
      exact .inr (hn.enters hvn htn ht hl he hsn hx hp hroom hopen)
  · cases (unlocks?_of_locks? hl).symm.trans hx.unlocks
  · exact ((h.of_nests hbefore.nests).readLock hvn.nestsUnique hsn ho).of_nests hafter.nests

theorem unlocks (hr : Reachable m) (hb : m.BuildsIdle) (ht : m.turn = some t)
    (hu : m.unlocks? t = some (e, k)) (hpin : m.readDepth t e k ≠ 0 → m.Pinned t e)
    (hs : m.skips e = false) (hp : (m.advance t).LocksReturned) : Turned t m (m.advance t) := by
  obtain ⟨n, hn⟩ := advance_unlocks hu
  obtain ⟨hvn, htn⟩ := hn.before.visited hr.visited ht
  have hpm := hp.before (advance_changes hb ht)
  have hbefore := hn.before.toUnasked.sameNests
  by_cases hd : m.readDepth t e k = 0
  · -- outside of the domain the call panics, and does not count
    have hdn : n.readDepth t e k = 0 := (hbefore.readDepth e k).trans hd
    have hdeal : KeepsPins true t 0 m (m.advance t) := by
      cases hsn : n.skips e with
      | true => exact hn.skipped hsn
      | false => exact hn.refused hsn hvn.nestsUnique hdn
    refine .of_same hdeal.sameNests (enters_of_none (locks?_of_unlocks? hu)) (fun e' k' => ?_)
      fun e' k' hx => ?_
    · rw [leaves_of_unlocks? ht hu, readUnlock_outside hs hd hr.visited.nestsUnique]
      exact Bool.and_false _
    · obtain ⟨rfl, rfl⟩ := Prod.mk.inj (Option.some.inj (hu.symm.trans hx.unlocks))
      cases hd.symm.trans hx.outermost
  · have hdn : n.readDepth t e k ≠ 0 := (hbefore.readDepth e k).symm ▸ hd
    have hsn : n.skips e = false := (hn.before.skips (hpm.lt_size hr.visited hd)).trans hs
    have ha := (hp.before (hn.moves.changes htn).1).accounts hvn e k
    have hrise := hn.rises hvn.nestsUnique ha hsn hdn
    have hafter := hn.after.toUnasked.sameNests
    have hok := readUnlock_ok hr.visited.nestsUnique (hpm.accounts hr.visited e k) hs hd (hpin hd)
    refine ⟨fun e' k' => ?_, fun e' k' w i hpl => .inl ?_, fun e' k' w i hx hpl => ?_, fun h => ?_⟩
    · rw [enters_of_none (locks?_of_unlocks? hu), leaves_of_unlocks? ht hu, hok]
      by_cases hek : e' = e ∧ k' = k
      · obtain ⟨rfl, rfl⟩ := hek
        rw [← hrise.depth, decide_eq_true ⟨rfl, rfl⟩]
        rfl
      · rw [hrise.elsewhere e' k' hek, decide_eq_false hek]
        rfl
    · rw [hafter.place] at hpl
      exact hbefore.place e' k' ▸ place_readUnlock hvn.nestsUnique hpl
    · obtain ⟨rfl, rfl⟩ := Prod.mk.inj (Option.some.inj (hu.symm.trans hx.unlocks))
      rw [← hn.before.domain, hn.after.domain]
      cases (readUnlock_effect hvn.nestsUnique ha hsn).2 with
      | outermost w' i' ho hi hj _ =>
        rw [hbefore.place, hpl] at hi
        cases hi
        exact hj
      | nested hne =>
        rw [hbefore.readDepth] at hne
        exact absurd hx.outermost hne
    · exact ((h.of_nests hbefore.nests).readUnlock hvn.nestsUnique ha hsn hdn).of_nests hafter.nests

theorem own (hr : Reachable m) (hb : m.BuildsIdle) (ht : m.turn = some t) (hx : ∀ s, PinState true t s m)
    (hc : m.makesCall t SchedulerCall.repins = false) (hgo : ∀ e, m.skips e = false)
    (hlt : ∀ s, m.nesting t s < 2 ^ 32) (hu : PinConditions t (m.advance t)) : Turned t m (m.advance t) := by
  have hchanges := advance_changes hb ht
  cases hl : m.locks? t with
  | some q =>
    obtain ⟨x, hx, -⟩ := ((hx _).pinnedAsNested_of_asks (.inl (hl ▸ nofun))).pinsAgree
    exact .locks hr hb ht hl hx (hgo _) hu.returned hu.room
  | none =>
    cases hul : m.unlocks? t with
    | some q =>
      refine .unlocks hr hb ht hul (fun hd => ?_) (hgo _) hu.returned
      have hin := (hx (m.engine q.1).access.scheduler).pinnedAsNested_of_asks (.inr (hul ▸ nofun))
      exact hin.pinned hr (hu.before hr.visited.orderly hchanges) rfl hd (hlt _)
    | none =>
      have hdoing := advance_doing (b := true) (s := 0) hr.rooted hc (fun _ => rfl) hl hul
      have hlt := Nat.lt_of_lt_of_le (hr.visited.orderly.lt_size ht) (Changes.threads_le hchanges)
      have hlives := hu.lives hlt
      exact .of_same ((hdoing.sameNests hr ht rfl).resolve_left hlives) (enters_of_none hl)
        (leaves_of_none hul) fun e k hx => nomatch hul.symm.trans hx.unlocks

end Turned

/-- Thread `t` has entered the domain in one of the steps, and has been inside since. -/
def Entered (t e : Nat) (k : Kind) (w i : Nat) (steps : List (Machine × Machine)) : Prop :=
  ∃ later p earlier, steps = later ++ p :: earlier ∧ Enters t e k w i p ∧
    ∀ q ∈ later, q.2.readDepth t e k ≠ 0

/-- The nests of thread `t` mirror what it has done in these steps. -/
structure Mirrors (t : Nat) (m : Machine) (steps : List (Machine × Machine)) : Prop where
  depth : ∀ e k, (m.readDepth t e k).toNat + steps.countP (leaves t e k) = steps.countP (enters t e k)
  place : ∀ e k w i, m.place t e k = some (w, i) → Entered t e k w i steps
  left : ∀ e k later p earlier, steps = later ++ p :: earlier → Exits t e k p →
    ∃ w i, Entered t e k w i earlier ∧ (p.2.domain e k).Joined (p.1.domain e k) w i
  tidy : Tidy m t

namespace Mirrors

theorem of_nests (h : Mirrors t m steps) (hn : m'.nests t = m.nests t) : Mirrors t m' steps where
  depth e k := by
    rw [readDepth, hn]
    exact h.depth e k
  place e k w i hp := h.place e k w i (by rwa [Machine.place, hn] at hp)
  left := h.left
  tidy := h.tidy.of_nests hn

theorem step (h : Mirrors t m steps) (hs : Turned t m m') : Mirrors t m' ((m, m') :: steps) where
  depth e k := by
    have hd := hs.depth e k
    have hm := h.depth e k
    have hbool (b : Bool) : (if b = true then 1 else 0) = b.toNat := by cases b <;> rfl
    rw [List.countP_cons, List.countP_cons, hbool, hbool]
    omega
  place e k w i hp := by
    rcases hs.place e k w i hp with hold | hnew
    · obtain ⟨later, p, earlier, rfl, henter, hin⟩ := h.place e k w i hold
      refine ⟨(m, m') :: later, p, earlier, rfl, henter, fun q hq => ?_⟩
      rcases List.mem_cons.1 hq with rfl | hq
      · exact readDepth_of_place hp
      · exact hin q hq
    · exact ⟨[], (m, m'), steps, rfl, hnew, nofun⟩
  left e k later p earlier hsplit hx := by
    cases later with
    | cons q later =>
      obtain ⟨-, rfl⟩ := List.cons.inj hsplit
      exact h.left e k later p earlier rfl hx
    | nil =>
      -- the last step leaves the section that is open before it
      obtain ⟨rfl, rfl⟩ := List.cons.inj hsplit
      have hin : m.place t e k ≠ none := fun hp => nomatch (readDepth_eq_zero.2 hp).symm.trans hx.outermost
      obtain ⟨⟨w, i⟩, hp⟩ := Option.ne_none_iff_exists'.1 hin
      exact ⟨w, i, h.place e k w i hp, hs.left e k w i hx hp⟩
  tidy := hs.tidy h.tidy

theorem new {workers : List Nat} {host : Nat} (h : Machine.new workers host = .ok m) : Mirrors t m [] := by
  have hnil : m.nests t = [] := by
    obtain ⟨cs, -, rfl⟩ := new_eq h
    rw [nests, thread, Table.get_empty]
    rfl
  refine ⟨fun e k => ?_, fun e k w i hp => ?_, fun e k later p earlier hsplit _ => ?_, fun e he => ?_⟩
  · rw [readDepth, hnil]
    rfl
  · rw [Machine.place, hnil, Nests.place_nil] at hp
    cases hp
  · exact absurd hsplit.symm (List.append_ne_nil_of_right_ne_nil _ (List.cons_ne_nil _ _))
  · rw [hnil] at he
    cases he

end Mirrors

/-- The nests of a thread that changes its pin depth by locks, unlocks and grace periods only, in a run in
which no lock panics and nothing is skipped in its turns. -/
theorem Trail.mirrors {workers : List Nat} {host : Nat} {m₀ : Machine}
    (h₀ : Machine.new workers host = .ok m₀) (h : FreeTrail m₀ m steps)
    (hc : ∀ p ∈ steps, p.1.turn = some t → p.1.makesCall t SchedulerCall.repins = false)
    (hgo : ∀ p ∈ steps, p.1.turn = some t → ∀ e, p.1.skips e = false)
    (hlt : ∀ p ∈ steps, p.1.turn = some t → ∀ s, p.1.nesting t s < 2 ^ 32) (hu : PinConditions t m) :
    Mirrors t m steps := by
  induction h with
  | refl => exact .new h₀
  | @begin m steps h _ st ih =>
    have hr : Reachable m := h.reachable (.new h₀)
    have hm := hu.before hr.visited.orderly (begin_changes m st)
    refine (ih hc hgo hlt hm).of_nests ?_
    exact hr.visited.begin_preserves (P := fun n => n.nests t = m.nests t) st
      (fun n n' _ he hn => (he.keepsEngines.nests t).trans hn) rfl
  | @step m m' steps h _ hb hs ih =>
    have hr : Reachable m := h.reachable (.new h₀)
    have hm := hu.before hr.visited.orderly (step_changes hb hs)
    have hcs (p) (hp : p ∈ steps) := hc p (List.mem_cons_of_mem _ hp)
    refine (ih hcs (fun p hp => hgo p (List.mem_cons_of_mem _ hp))
      (fun p hp => hlt p (List.mem_cons_of_mem _ hp)) hm).step ?_
    rcases step_cases hs with ⟨u, ht, rfl⟩ | ⟨u, queue, hn, hq, rfl⟩
    · by_cases htu : t = u
      · subst htu
        have hpinState (s : Nat) : PinState true t s m := h.pinState h₀ hcs (fun _ _ _ _ => rfl) nofun hm
        have hlast : (m, m.advance t) ∈ (m, m.advance t) :: steps := List.mem_cons_self
        exact .own hr hb ht hpinState (hc _ hlast ht) (hgo _ hlast ht) (hlt (m, m.advance t) hlast ht) hu
      · exact .of_idle (.advance hb ht htu) fun hc => htu (Option.some.inj (hc.symm.trans ht))
    · exact .of_idle (.of_engines rfl rfl) fun hc => nomatch hn.symm.trans hc

/-- Take a run in which no lock panics and nothing is skipped in the turns of thread `t`, which makes no
calls that change how deep it is pinned, but may bind itself wherever it wants, and which is never inside
so many sections on one scheduler that the pin depth, a number of 32 bits, cannot count them. Its depth
in a domain is the number of its locks there less that of its unlocks, and another unlock panics just
when the two are equal. It has one entry for each engine of which it is inside, and no other. An unlock
that leaves a domain gives back the slot that the thread has taken when it entered, on the worker that it
was on then. -/
theorem nests_keep_sections {workers : List Nat} {host : Nat} {m₀ : Machine}
    (h₀ : Machine.new workers host = .ok m₀) (h : FreeTrail m₀ m steps)
    (hc : ∀ p ∈ steps, p.1.turn = some t → p.1.makesCall t SchedulerCall.repins = false)
    (hgo : ∀ p ∈ steps, p.1.turn = some t → ∀ e, p.1.skips e = false)
    (hlts : ∀ p ∈ steps, p.1.turn = some t → ∀ s, p.1.nesting t s < 2 ^ 32)
    (hlt : ∀ s, m.nesting t s < 2 ^ 32) (hp : m.LocksReturned)
    (hcap : m.threads.size < SlotArray.capacity) (hl : m.isLive t = true) :
    (∀ e k, (m.readDepth t e k).toNat + steps.countP (leaves t e k) = steps.countP (enters t e k)) ∧
    (∀ e k, m.skips e = false → (∀ f ∈ (m.thread t).stack, f.isGrace = false) →
      (m.readUnlock t e k).2 = if steps.countP (enters t e k) = steps.countP (leaves t e k)
        then .error (.unlockOutside k) else .ok ()) ∧
    (∀ e, (m.nests t).engines.count e = if m.depthIn t e = 0 then 0 else 1) ∧
    ∀ e k later p earlier, steps = later ++ p :: earlier → Exits t e k p →
      ∃ w i, Entered t e k w i earlier ∧ (p.2.domain e k).Joined (p.1.domain e k) w i := by
  have hr : Reachable m := h.reachable (.new h₀)
  have hu := PinConditions.of_isLive hp hcap hl
  have hm := h.mirrors h₀ hc hgo hlts hu
  refine ⟨hm.depth, fun e k hs hclear => ?_, hm.tidy.count_engines hr.visited.nestsUnique, hm.left⟩
  have hd := hm.depth e k
  split
  · rename_i heq
    have h0 : m.readDepth t e k = 0 := UInt32.toNat_inj.1 (show (m.readDepth t e k).toNat = 0 by omega)
    rw [readUnlock_outside hs h0 hr.visited.nestsUnique]
  · rename_i hne
    have h0 : m.readDepth t e k ≠ 0 := by
      rintro h0
      rw [h0] at hd
      exact hne (hd.symm.trans (Nat.zero_add _))
    have hpinState : PinState true t (m.engine e).access.scheduler m :=
      h.pinState h₀ hc (fun _ _ _ _ => rfl) nofun hu
    have hin := hpinState.pinnedAsNested fun e k c target hf => nomatch (hclear _ hf).symm
    have hpin := hin.pinned hr hu rfl h0 (hlt _)
    exact readUnlock_ok hr.visited.nestsUnique (hp.accounts hr.visited e k) hs h0 hpin

theorem nesting_le (m : Machine) (t s : Nat) :
    m.nesting t s ≤ ∑ e ∈ Finset.range m.engines.size, m.depthIn t e :=
  Finset.sum_le_sum_of_subset (Finset.filter_subset ..)

/-- A thread in two engines, which is bound to another worker before it leaves one of them for the kind for
which it has entered it first, and then the other. -/
def reboundReader : Machine × List (Machine × Machine) :=
  Machine.follow { schedulers := ⟨[{ workers := 2 }]⟩, named := 1 }
    [.act 0 (.build 0 { scheduler := some 0 }), .act 0 (.build 1 { scheduler := some 0 }),
      .act 0 (.handle 0 (.readLock .sleepable)), .act 0 (.handle 1 (.readLock .regular)),
      .act 0 (.scheduler 0 (.bind 1)), .act 1 (.handle 0 (.readLock .sleepable)),
      .act 0 (.handle 0 (.readLock .regular)), .act 0 (.handle 0 (.readUnlock .sleepable)),
      .act 0 (.handle 1 (.readUnlock .regular))]

theorem trail_reboundReader :
    FreeTrail { schedulers := ⟨[{ workers := 2 }]⟩, named := 1 } reboundReader.1 reboundReader.2 := by
  rw [← List.append_nil reboundReader.2]
  exact Trail.refl.follow _ (by decide +kernel)

/-- It is left with the section that it has entered last, and has given back what it has taken first. -/
theorem reboundReader_sections :
    (reboundReader.2.countP (enters 0 0 .sleepable) = 1 ∧ reboundReader.2.countP (leaves 0 0 .sleepable)
      = 1) ∧
      (reboundReader.1.readUnlock 0 0 .sleepable).2 = .error (.unlockOutside .sleepable) ∧
      (reboundReader.1.readUnlock 0 0 .regular).2 = .ok () ∧
      (reboundReader.1.nests 0).engines.count 0 = 1 ∧ (reboundReader.1.nests 0).engines.count 1 = 0 ∧
      ∃ later p earlier, reboundReader.2 = later ++ p :: earlier ∧ Exits 0 0 .sleepable p ∧
        (p.1.view 0 0).worker = 1 ∧ ∃ w i, Entered 0 0 .sleepable w i earlier ∧
          (p.2.domain 0 .sleepable).Joined (p.1.domain 0 .sleepable) w i := by
  have hgo (p) (hp : p ∈ reboundReader.2) (_ : p.1.turn = some 0) : ∀ e, p.1.skips e = false :=
    have h : ∀ p ∈ reboundReader.2, ∀ s < p.1.schedulers.size, (p.1.scheduler s).halted = false := by
      decide +kernel
    not_skips (h p hp)
  have hlt {m : Machine} (h : ∑ e ∈ Finset.range m.engines.size, m.depthIn 0 e < 2 ^ 32) (s : Nat) :
      m.nesting 0 s < 2 ^ 32 := Nat.lt_of_le_of_lt (nesting_le m 0 s) h
  have hlts (p) (hp : p ∈ reboundReader.2) (_ : p.1.turn = some 0) : ∀ s, p.1.nesting 0 s < 2 ^ 32 :=
    have h : ∀ p ∈ reboundReader.2, ∑ e ∈ Finset.range p.1.engines.size, p.1.depthIn 0 e < 2 ^ 32 := by
      decide +kernel
    hlt (h p hp)
  obtain ⟨hdepth, hunlock, hentries, hleft⟩ := nests_keep_sections
    (show Machine.new [2] 1 = .ok _ from rfl) trail_reboundReader (t := 0) (by decide +kernel) hgo hlts
    (hlt (by decide +kernel)) (.of_trace (by decide +kernel)) (by decide +kernel) (by decide +kernel)
  have hclear (f : Frame) (hf : f ∈ (reboundReader.1.thread 0).stack) : f.isGrace = false := by
    rw [show (reboundReader.1.thread 0).stack = [] by decide +kernel] at hf
    cases hf
  have hno := not_skips (m := reboundReader.1) (by decide +kernel) 0
  have hsteps : 8 < reboundReader.2.length := by decide +kernel
  have hworker : (reboundReader.2[8].1.view 0 0).worker = 1 := by decide +kernel +revert
  have hexit : Exits 0 0 .sleepable reboundReader.2[8] := by
    constructor <;> decide +kernel +revert
  have hsplit : reboundReader.2 = reboundReader.2.take 8 ++ reboundReader.2[8] :: reboundReader.2.drop 9 := by
    rw [← List.drop_eq_getElem_cons, List.take_append_drop]
  refine ⟨⟨by decide +kernel, by decide +kernel⟩, ?_, ?_, ?_, ?_, _, _, _, hsplit, hexit, hworker,
    hleft 0 .sleepable _ _ _ hsplit hexit⟩
  · exact (hunlock 0 .sleepable hno hclear).trans (if_pos (by decide +kernel))
  · exact (hunlock 0 .regular hno hclear).trans (if_neg (by decide +kernel))
  · exact (hentries 0).trans (if_neg (by decide +kernel))
  · exact (hentries 1).trans (if_pos (by decide +kernel))

end Machine

end GracePeriod
