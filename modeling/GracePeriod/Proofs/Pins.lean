import GracePeriod.Proofs.Barrier
import GracePeriod.Proofs.Nesting
import GracePeriod.Proofs.Seen
import GracePeriod.Proofs.GraceWaits

namespace GracePeriod

namespace Machine

variable {b : Bool} {m m' n : Machine} {t u s e : Nat} {k : Kind} {x y : Task}

/-- The thread is pinned once for each level of its sections, and, unless it may be bound elsewhere, it is
on the worker where the outermost ones were entered. -/
structure PinsAgree (b : Bool) (m : Machine) (t s : Nat) (x : Task) : Prop where
  pinDepth : x.pinDepth = UInt32.ofNat (m.nesting t s)
  worker : b = false → ∀ e k w i, (m.engine e).access.scheduler = s → m.place t e k = some (w, i) →
    x.worker = w

theorem LocksReturned.nesting_ne_zero (hp : m.LocksReturned) (hv : Visited m)
    (hs : (m.engine e).access.scheduler = s) (hd : m.readDepth t e k ≠ 0) : m.nesting t s ≠ 0 := by
  intro h0
  have hle := depthIn_le_nesting (t := t) (hp.lt_size hv hd) hs
  exact hd (depthIn_eq_zero.1 (Nat.eq_zero_of_le_zero (h0 ▸ hle)) k)

theorem ofNat_ne_zero {l : Nat} (h : l ≠ 0) (hlt : l < 2 ^ 32) : UInt32.ofNat l ≠ 0 := fun hc =>
  h ((UInt32.toNat_ofNat_of_lt' hlt).symm.trans (congrArg UInt32.toNat hc))

namespace PinsAgree

theorem stays (h : PinsAgree b m t s x) (hxy : Task.Stays b x y) (hp : m.LocksReturned) (hv : Visited m)
    (hlt : b = false → m.nesting t s < 2 ^ 32) : PinsAgree b m t s y := by
  refine ⟨hxy.pinDepth.trans h.pinDepth, fun hb e k w i hs hpl => ?_⟩
  have hd := readDepth_of_place hpl
  have hpin : x.pinDepth ≠ 0 := h.pinDepth ▸ ofNat_ne_zero (hp.nesting_ne_zero hv hs hd) (hlt hb)
  exact (hxy.worker hb hpin).trans (h.worker hb e k w i hs hpl)

theorem same (h : PinsAgree b m t s x) (hn : SameNests t m m') (hp : m.LocksReturned) (hv : Visited m) :
    PinsAgree b m' t s x := by
  refine ⟨by rw [hn.nesting (hp.unborn hv t) s, h.pinDepth], fun hb e k w i hs hpl => ?_⟩
  rw [hn.place] at hpl
  rw [hn.access e (hp.lt_size hv (readDepth_of_place hpl))] at hs
  exact h.worker hb e k w i hs hpl

end PinsAgree

def OutsideGrace (m : Machine) (t s : Nat) : Prop :=
  ∀ e k c target, Frame.grace e k c target ∈ m.graces t →
    e < m.engines.size ∧ (m.engine e).access.scheduler ≠ s

namespace OutsideGrace

theorem of_graces (h : OutsideGrace m t s) (hn : Shifts t e k m m') (hg : ∀ f ∈ m'.graces t, f ∈ m.graces t) :
    OutsideGrace m' t s := fun e k c target hf => by
  obtain ⟨he, hs⟩ := h e k c target (hg _ hf)
  exact ⟨Nat.lt_of_lt_of_le he hn.engines_le, by rwa [hn.access e he]⟩

theorem of_stack (h : OutsideGrace m t s) (hn : Shifts t e k m m')
    (hs : (m'.thread t).stack = (m.thread t).stack) : OutsideGrace m' t s :=
  h.of_graces hn fun f hf => by rwa [graces, hs] at hf

theorem of_clear (h : ∀ f ∈ (m.thread t).stack, f.isGrace = false) : OutsideGrace m t s := by
  intro e k c target hf
  cases h _ (List.mem_filter.1 hf).1

theorem keepsPin (h : OutsideGrace m t s) (hd : KeepsPin b t s m m') : OutsideGrace m' t s := by
  have hn : Shifts t 0 .regular m m' := .of_same hd.sameNests
  have hserved (hs : Served m m') : OutsideGrace m' t s := h.of_stack hn
    (hs.part Thread.stack (fun _ _ => rfl) t)
  cases hd with
  | still hu => exact h.of_graces hn hu.graces
  | enroll c => exact hserved (.enroll ..)
  | change c f ha hf => exact hserved (.changeTask ..)
  | adjust c f hf | endPause c id => exact hserved (.modifyScheduler ..)
  | addScheduler l => exact h.of_stack hn rfl
  | wait e k c target he hs =>
    intro e' k' c' target' hf
    rw [graces, stack_push, List.filter_cons_of_pos rfl] at hf
    rcases List.mem_cons.1 hf with hf | hf
    · cases hf
      exact ⟨he, hs⟩
    · exact h e' k' c' target' hf

theorem keepsPins (h : OutsideGrace m t s) (hd : KeepsPins b t s m m') : OutsideGrace m' t s := by
  induction hd with
  | refl => exact h
  | tail _ hx ih => exact ih.keepsPin hx

end OutsideGrace

/-- Outside of grace periods on the scheduler, the thread is pinned as its sections say. -/
structure PinnedAsNested (b : Bool) (t s : Nat) (m : Machine) : Prop where
  pinsAgree : ∃ x, Sees m t s x ∧ PinsAgree b m t s x
  outsideGrace : OutsideGrace m t s

namespace PinnedAsNested

theorem unasked (h : PinnedAsNested b t s m) (hu : Unasked t m m') (hp : m.LocksReturned) (hv : Visited m) :
    PinnedAsNested b t s m' := by
  obtain ⟨x, hx, hb⟩ := h.pinsAgree
  exact ⟨⟨x, hx.of_eq hu.schedulers hu.tasks, hb.same hu.sameNests hp hv⟩,
    h.outsideGrace.of_graces (e := 0) (k := .regular) (.of_same hu.sameNests) hu.graces⟩

theorem keepsPins (h : PinnedAsNested b t s m) (hd : KeepsPins b t s m m') (hp : m.LocksReturned)
    (hv : Visited m)
    (hlt : b = false → m.nesting t s < 2 ^ 32) : PinnedAsNested b t s m' := by
  obtain ⟨x, hx, hb⟩ := h.pinsAgree
  obtain ⟨y, hy, hxy⟩ := hd.sees hv.tasked.wellFormed hx
  exact ⟨⟨y, hy, (hb.stays hxy hp hv hlt).same hd.sameNests hp hv⟩, h.outsideGrace.keepsPins hd⟩

end PinnedAsNested

theorem sees_record (h : Sees m t s x) (p : Access) (v : Event) : Sees (m.record t p v) t s x := by
  unfold record
  split
  · exact h.of_eq rfl rfl
  · exact h

theorem Inside.sees (hi : Inside t m m') (h : Sees m t s x) : Sees m' t s x :=
  h.of_eq (by rw [hi.eq]) (hi.part Thread.tasks (fun _ _ => rfl) t)

theorem Sees.worker_eq (h : Sees m t s x) {i : Nat} (hid : m.task? t s = some i)
    (hi : i < SlotArray.capacity) : (m.task t s).worker = x.worker := by
  cases h with
  | task j h =>
    obtain rfl := Option.some.inj (hid.symm.trans h.task?)
    exact h.worker_eq hi
  | fresh hn hw hp => cases hn.symm.trans hid

theorem Shifts.scheduler_of_place {e' w i : Nat} {k' : Kind} (h : Shifts t e k m m') (hp : m.LocksReturned)
    (hv : Visited m) (hs : (m'.engine e').access.scheduler = s) (hpl : m.place t e' k' = some (w, i)) :
    (m.engine e').access.scheduler = s := by
  rwa [h.access e' (hp.lt_size hv (readDepth_of_place hpl))] at hs

namespace PinnedAsNested

theorem readLock (h : PinnedAsNested b t s m) (hp : m.LocksReturned) (hv : Visited m) (hs : m.skips e = false)
    (ho : (m.readLock t e k).2 = .ok ()) (he : e < m.engines.size)
    (hlt : b = false → m.nesting t s < 2 ^ 32)
    (hroom : ∀ i, (m.readLock t e k).1.task? t s = some i → i < SlotArray.capacity) :
    PinnedAsNested b t s (m.readLock t e k).1 := by
  obtain ⟨x, hx, hb⟩ := h.pinsAgree
  have hdeep := deepens_readLock hv.nestsUnique hs ho
  have hsum := hdeep.nesting (hp.unborn hv t) he s
  have houtside : OutsideGrace (m.readLock t e k).1 t s := h.outsideGrace.of_stack hdeep.toShifts
    (stack_readLock ..)
  have hi : Inside t (m.pin t (m.engine e).access) (m.readLock t e k).1 := readLock_eq hs ▸ .openSection ..
  by_cases hsch : (m.engine e).access.scheduler = s
  · subst hsch
    rw [if_pos rfl, if_pos rfl, hdeep.depth] at hsum
    have hrec := sees_record hx (m.engine e).access .pin
    obtain ⟨y, hy, hxy⟩ := hrec.changeTask (b := b) (f := Task.pin) fun _ => rfl
    have hby := hb.stays hxy hp hv hlt
    refine ⟨⟨y.pin, hi.sees hy, ?_, fun hb' e' k' w i hs' hp' => ?_⟩, houtside⟩
    · have hnext : (m.readLock t e k).1.nesting t (m.engine e).access.scheduler =
          m.nesting t (m.engine e).access.scheduler + 1 := by omega
      rw [hnext, UInt32.ofNat_add, ← hby.pinDepth]
      rfl
    · rcases place_readLock hv.nestsUnique hs ho hp' with hp' | ⟨⟨rfl, -⟩, hopen⟩
      · exact hby.worker hb' e' k' w i (hdeep.scheduler_of_place hp hv hs' hp') hp'
      · have hw := hopen.worker
        rw [engine_pin] at hw
        obtain ⟨j, hj⟩ := Option.isSome_iff_exists.1 (task?_pin m t (m.engine e').access)
        refine (Sees.worker_eq hy hj (hroom j ?_)).symm.trans hw.symm
        exact (task?_of_tasks (hi.part Thread.tasks (fun _ _ => rfl) t) _).trans hj
  · rw [if_neg hsch, if_neg hsch] at hsum
    have hpin : Sees (m.pin t (m.engine e).access) t s x :=
      (sees_record hx (m.engine e).access .pin).changeTask_ne hsch Task.pin
    refine ⟨⟨x, hi.sees hpin, ?_, fun hb' e' k' w i hs' hp' => ?_⟩, houtside⟩
    · rw [hb.pinDepth, show (m.readLock t e k).1.nesting t s = m.nesting t s from hsum]
    · rcases place_readLock hv.nestsUnique hs ho hp' with hp' | ⟨⟨rfl, -⟩, -⟩
      · exact hb.worker hb' e' k' w i (hdeep.scheduler_of_place hp hv hs' hp') hp'
      · rw [hdeep.access e' he] at hs'
        exact absurd hs' hsch

theorem readUnlock (h : PinnedAsNested b t s m) (hp : m.LocksReturned) (hv : Visited m)
    (hs : m.skips e = false)
    (hd : m.readDepth t e k ≠ 0) (hlt : b = false → m.nesting t s < 2 ^ 32) :
    PinnedAsNested b t s (m.readUnlock t e k).1 := by
  obtain ⟨x, hx, hb⟩ := h.pinsAgree
  have he := hp.lt_size hv hd
  have ha := hp.accounts hv e k
  have hrise := rises_readUnlock (t := t) hv.nestsUnique ha hs hd
  have hsum := hrise.nesting (hp.unborn hv t) he s
  have houtside : OutsideGrace (m.readUnlock t e k).1 t s := h.outsideGrace.of_stack hrise.toShifts
    (stack_readUnlock ..)
  have hi : Inside t m (m.closeSection t e k).1 := .closeSection ..
  have heq : (m.readUnlock t e k).1 = ((m.closeSection t e k).1.unpin t (m.engine e).access).1 := by
    simp only [Machine.readUnlock, hs, Bool.false_eq_true, if_false, closeSection_ok hv.nestsUnique ha hd,
      hi.access e]
  have hrec : Sees ((m.closeSection t e k).1.record t (m.engine e).access .unpin) t s x :=
    sees_record (hi.sees hx) ..
  by_cases hsch : (m.engine e).access.scheduler = s
  · subst hsch
    rw [if_pos rfl, if_pos rfl, ← hrise.depth] at hsum
    obtain ⟨y, hy, hxy⟩ := hrec.changeTask (b := b) (f := fun x => x.unpin.1) fun _ => rfl
    have hby := hb.stays hxy hp hv hlt
    refine ⟨⟨y.unpin.1, heq ▸ hy, ?_, fun hb' e' k' w i hs' hp' => ?_⟩, houtside⟩
    · have hnext : m.nesting t (m.engine e).access.scheduler =
          (m.readUnlock t e k).1.nesting t (m.engine e).access.scheduler + 1 := by omega
      have hpin := hby.pinDepth
      rw [hnext, UInt32.ofNat_add] at hpin
      show y.pinDepth - 1 = _
      rw [hpin]
      exact UInt32.add_sub_cancel ..
    · have hp' := place_readUnlock hv.nestsUnique hp'
      exact hby.worker hb' e' k' w i (hrise.scheduler_of_place hp hv hs' hp') hp'
  · rw [if_neg hsch, if_neg hsch] at hsum
    have hunpin : Sees (m.readUnlock t e k).1 t s x := heq ▸ hrec.changeTask_ne hsch (fun x => x.unpin.1)
    refine ⟨⟨x, hunpin, ?_, fun hb' e' k' w i hs' hp' => ?_⟩, houtside⟩
    · rw [hb.pinDepth, show (m.readUnlock t e k).1.nesting t s = m.nesting t s from hsum]
    · have hp' := place_readUnlock hv.nestsUnique hp'
      exact hb.worker hb' e' k' w i (hrise.scheduler_of_place hp hv hs' hp') hp'

end PinnedAsNested

theorem known_of_locks? (h : m.locks? t = some (e, k)) : m.Known e := by
  have hop {held : Option Nat} {op : Op} (h : m.opLocks? held op = some (e, k)) : m.Known e := by
    have hmap {slot : Nat} {k' : Kind} (h : (m.resolve held slot).map (·, k') = some (e, k)) :
        m.Known e := by
      obtain ⟨e', he, heq⟩ := Option.map_eq_some_iff.1 h
      cases heq
      exact known_of_resolve he
    cases op with
    | handle slot c =>
      obtain ⟨k', -, he⟩ := Option.bind_eq_some_iff.1 h
      exact hmap he
    | guard slot srcu k' caught body => exact hmap h
    | _ => cases h
  unfold locks? at h
  split at h
  · exact hop h
  · cases h

theorem lt_size_of_locks? (hr : Reachable m) (h : m.locks? t = some (e, k)) : e < m.engines.size :=
  hr.visited.drainsAssigned.engine _ e k (hr.rooted.serves e k (known_of_locks? h))

theorem Moves.task? {scope : Scope} {i : Nat} (h : Moves scope t m m') (hi : m.task? u s = some i) :
    m'.task? u s = some i := by
  induction h with
  | refl => exact hi
  | tail _ hm ih => exact hm.task? ih

namespace PinnedAsNested

theorem locks (h : PinnedAsNested b t s m) (hr : Reachable m) (hb : m.BuildsIdle) (ht : m.turn = some t)
    (hl : m.locks? t = some (e, k)) (hp : (m.advance t).LocksReturned)
    (hlt : b = false → m.nesting t s < 2 ^ 32) (hcap : (m.advance t).threads.size < SlotArray.capacity) :
    PinnedAsNested b t s (m.advance t) := by
  have hr' : Reachable (m.advance t) := hr.step hb (by rw [step, ht])
  obtain ⟨n, hn⟩ := advance_locks hl
  obtain ⟨hvn, htn⟩ := hn.before.visited hr.visited ht
  have hpm := hp.before (advance_changes hb ht)
  cases hs : n.skips e with
  | true => exact h.keepsPins (hn.skipped hs) hpm hr.visited hlt
  | false =>
    have hmoves := Moves.readLock n t e k
    have hvn' := hvn.moves hmoves htn
    have hpn' := hp.before (hn.after.moves.changes hvn'.2).1
    have hpn := hpn'.before (hmoves.changes htn).1
    have hsame := hn.before.toUnasked.sameNests
    have he := lt_size_of_locks? hr hl
    have hin := (h.unasked hn.before.toUnasked hpm hr.visited).readLock hpn hvn hs (hn.returned hp)
      (Nat.lt_of_lt_of_le he hsame.engines_le) (hsame.nesting (hpm.unborn hr.visited t) s ▸ hlt)
      fun i hi => ((hr'.placed hcap).1.has t s i (hn.after.moves.task? hi)).1
    exact hin.unasked hn.after.toUnasked hpn' hvn'.1

theorem unlocks (h : PinnedAsNested b t s m) (hr : Reachable m) (hb : m.BuildsIdle) (ht : m.turn = some t)
    (hu : m.unlocks? t = some (e, k)) (hp : (m.advance t).LocksReturned)
    (hlt : b = false → m.nesting t s < 2 ^ 32) : PinnedAsNested b t s (m.advance t) := by
  obtain ⟨n, hn⟩ := advance_unlocks hu
  obtain ⟨hvn, htn⟩ := hn.before.visited hr.visited ht
  have hpm := hp.before (advance_changes hb ht)
  cases hs : n.skips e with
  | true => exact h.keepsPins (hn.skipped hs) hpm hr.visited hlt
  | false =>
    by_cases hd : n.readDepth t e k = 0
    · exact h.keepsPins (hn.refused hs hvn.nestsUnique hd) hpm hr.visited hlt
    have hmoves := Moves.readUnlock n t e k
    have hvn' := hvn.moves hmoves htn
    have hpn' := hp.before (hn.after.moves.changes hvn'.2).1
    have hpn := hpn'.before (hmoves.changes htn).1
    have hsame := hn.before.toUnasked.sameNests
    have hin := (h.unasked hn.before.toUnasked hpm hr.visited).readUnlock hpn hvn hs hd
      (hsame.nesting (hpm.unborn hr.visited t) s ▸ hlt)
    exact hin.unasked hn.after.toUnasked hpn' hvn'.1

end PinnedAsNested

theorem stays_restored (b : Bool) (x z : Task) : Task.Stays b x ((Snapshot.of x).restored z) :=
  ⟨rfl, fun _ hx => if_pos (.inr hx)⟩

/-- Either the thread is pinned as its sections say, or it is in a grace period on the scheduler, and that
is how it will be brought back. -/
inductive PinState (b : Bool) (t s : Nat) (m : Machine) : Prop
  | free (h : PinnedAsNested b t s m)
  | waiting (v : GraceWait) (i : Nat) (ls : List (Machine × Machine)) (x : Task) (ht : v.thread = t)
      (hs : v.access.scheduler = s) (hc : v.snapshot = .of x) (hb : PinsAgree b m t s x)
      (h : v.StillWaits i (v.looks ls) m)

theorem rest_clear {v : GraceWait} (h : v.InCall m) (hp : GraceState m v.thread) :
    ∀ f ∈ v.rest, f.isGrace = false := by
  have hframe : v.frame.isGrace = true := rfl
  have hsplit {wakes rest : List Frame} {g : Frame} (hg : g.isWake = false)
      (hw : ∀ f ∈ wakes, f.isWake = true) (h : v.frame :: v.rest = wakes ++ g :: rest) :
      v.rest = rest := by
    cases wakes with
    | nil => exact (List.cons.inj h).2
    | cons f wakes =>
      obtain ⟨rfl, -⟩ := List.cons.inj h
      cases hw _ List.mem_cons_self
  cases hp with
  | clear hc =>
    have hmem : v.frame ∈ (m.thread v.thread).stack := by
      cases h with
      | looking hs => exact hs ▸ List.mem_cons_self
      | pausing id hs => exact hs ▸ List.mem_cons_of_mem _ List.mem_cons_self
    cases hframe.symm.trans (hc _ hmem)
  | waiting wakes rest e k c target pre hs hw hr hc hwaits =>
    cases h with
    | looking hst => exact hsplit rfl hw (hst.symm.trans hs) ▸ hr
    | pausing id hst =>
      have h := hst.symm.trans hs
      cases wakes with
      | nil => cases (List.cons.inj h).1
      | cons f wakes =>
        exact hsplit rfl (fun g hg => hw g (List.mem_cons_of_mem _ hg)) (List.cons.inj h).2 ▸ hr

theorem asks_of_stillWaits {v : GraceWait} {i : Nat} {ls : List Machine} (h : v.StillWaits i ls m) :
    m.locks? v.thread = none ∧ m.unlocks? v.thread = none := by
  obtain ⟨o, ho⟩ := h.control
  rw [locks?, unlocks?, ho]
  refine ⟨rfl, ?_⟩
  cases h.stack with
  | looking hst =>
    rw [hst]
    rfl
  | pausing id hst => rw [hst]

namespace PinState

theorem pinnedAsNested_of_asks (h : PinState b t s m) (ha : m.locks? t ≠ none ∨ m.unlocks? t ≠ none) :
    PinnedAsNested b t s m := by
  cases h with
  | free h => exact h
  | waiting v i ls x ht hs hc hb h =>
    subst ht
    obtain ⟨hlock, hunlock⟩ := asks_of_stillWaits h
    rcases ha with ha | ha
    · exact absurd hlock ha
    · exact absurd hunlock ha

theorem of_callOver {v : GraceWait} {i : Nat} {ls : List Machine} (h : v.CallOver i ls m)
    (hs : v.access.scheduler = s)
    (hc : v.snapshot = .of x) (hb : PinsAgree b m v.thread s x) (hrest : ∀ f ∈ v.rest, f.isGrace = false)
    (hp : m.LocksReturned) (hv : Visited m) (hlt : b = false → m.nesting v.thread s < 2 ^ 32) :
    PinState b v.thread s m := by
  obtain ⟨z, hz, -⟩ := h.stands
  rw [hs, hc] at hz
  exact .free ⟨⟨_, .task i hz, hb.stays (stays_restored b x z) hp hv hlt⟩,
    .of_clear fun f hf => hrest f (h.stack ▸ hf)⟩

theorem wait {v : GraceWait} {i : Nat} {ls : List (Machine × Machine)} (h : v.StillWaits i (v.looks ls) m)
    (hs : v.access.scheduler = s) (hc : v.snapshot = .of x) (hx : PinsAgree b m v.thread s x)
      (hr : Reachable m)
    (hb : m.BuildsIdle) (hst : m.step = some m') (hn : SameNests v.thread m m') (hp : m'.LocksReturned)
    (hlt : b = false → m.nesting v.thread s < 2 ^ 32) : PinState b v.thread s m' := by
  have hpm := hp.before (step_changes hb hst)
  have hx' := hx.same hn hpm hr.visited
  rcases h.step hr hb hst with ha | hover
  · exact .waiting v i _ x rfl hs hc hx' ha
  · refine of_callOver hover hs hc hx' (rest_clear h.stack (hr.graceState _)) hp (hr.step hb hst).visited ?_
    rw [hn.nesting (hpm.unborn hr.visited _)]
    exact hlt

theorem call {d : Nat} (h : PinnedAsNested b t s n) (hv : Visited n) (hp : n.LocksReturned)
    (hd : n.Serves d e k)
    (hs : (n.engine e).access.scheduler = s) (hr : Reachable (n.startSynchronize t e k))
    (hcap : (n.startSynchronize t e k).threads.size < SlotArray.capacity)
    (hlt : b = false → n.nesting t s < 2 ^ 32) : PinState b t s (n.startSynchronize t e k) := by
  by_cases hskip : n.skips e = true
  · refine .free (h.keepsPins ?_ hp hv hlt)
    unfold startSynchronize
    rw [if_pos hskip]
    exact (KeepsPins.mark .refl ..).done
  by_cases hdepth : n.readDepth t e k = 0
  · subst hs
    have hsame := sameNests_startSynchronize (hv.drainsAssigned.engine d e k hd) t k
    have hserves : (n.startSynchronize t e k).Serves d e k :=
      ((startSynchronize_kept n t e k).same d hd.lt_size).1.trans hd
    obtain ⟨i, hi, ha, -⟩ := startSynchronize_stillWaits hv hr hserves (Bool.eq_false_iff.2 hskip) hdepth
    obtain ⟨x, hx, hb⟩ := h.pinsAgree
    obtain ⟨z, hz, -⟩ := ha.stands
    have hview : Task.Stays b x (n.view t (n.engine e).access.scheduler) := by
      refine hx.view fun j hj => ?_
      obtain rfl := Option.some.inj (hi.symm.trans hj)
      exact ((hr.placed hcap).1.has t _ i hz.task?).1
    exact .waiting (n.graceWait t e k) i [] _ rfl rfl rfl ((hb.stays hview hp hv hlt).same hsame hp hv) ha
  · refine .free (h.keepsPins ?_ hp hv hlt)
    unfold startSynchronize
    rw [if_neg hskip, if_pos (bne_iff_ne.2 hdepth)]
    exact KeepsPins.fail .refl _

theorem own (h : PinState b t s m) (hr : Reachable m) (hb : m.BuildsIdle) (ht : m.turn = some t)
    (hc : m.makesCall t SchedulerCall.repins = false)
    (hbind : m.makesCall t SchedulerCall.binds = true → b = true) (hp : (m.advance t).LocksReturned)
    (hlt : b = false → m.nesting t s < 2 ^ 32) (hcap : (m.advance t).threads.size < SlotArray.capacity)
    (hl : ¬(m.advance t).Ended t) : PinState b t s (m.advance t) := by
  have hst : m.step = some (m.advance t) := by rw [step, ht]
  have hr' : Reachable (m.advance t) := hr.step hb hst
  have hpm := hp.before (advance_changes hb ht)
  cases h with
  | waiting v i ls x hvt hs hcs hx ha =>
    subst hvt
    -- a waiter only looks, or is told to end
    obtain ⟨hlock, hunlock⟩ := asks_of_stillWaits ha
    have hn := ((advance_doing (s := s) hr.rooted hc hbind hlock hunlock).sameNests hr ht rfl).resolve_left hl
    exact .wait ha hs hcs hx hr hb hst hn hp hlt
  | free h =>
    -- the turn enters a section, leaves one, calls for a grace period, or keeps the pins as they are
    cases hlock : m.locks? t with
    | some q => exact .free (h.locks hr hb ht hlock hp hlt hcap)
    | none =>
      cases hunlock : m.unlocks? t with
      | some q => exact .free (h.unlocks hr hb ht hunlock hp hlt)
      | none =>
        cases advance_doing (b := b) (s := s) hr.rooted hc hbind hlock hunlock with
        | deals hd => exact .free (h.keepsPins hd hpm hr.visited hlt)
        | calls n ha d e k hd heq =>
          obtain ⟨hv, htn⟩ := ha.visited hr.visited ht
          by_cases hs : (n.engine e).access.scheduler = s
          · have hsame := ha.toUnasked.sameNests
            have hmoves : Moves .all t n (n.startSynchronize t e k) :=
              .mono (Actions.startSynchronize .refl e k).moves
            rw [heq] at hp hr' hcap ⊢
            have hpn := hp.before (hmoves.changes htn).1
            exact .call (h.unasked ha.toUnasked hpm hr.visited) hv hpn hd hs hr' hcap
              (hsame.nesting (hpm.unborn hr.visited t) s ▸ hlt)
          · rw [heq]
            exact .free (h.keepsPins (ha.keepsPins.startSynchronize (hv.drainsAssigned.engine d e k hd) hs)
              hpm
              hr.visited hlt)
        | looks o e k c target rest hc hst =>
          have hmem : Frame.grace e k c target ∈ m.graces t :=
            List.mem_filter.2 ⟨hst ▸ List.mem_cons_self, rfl⟩
          obtain ⟨he, hs⟩ := h.outsideGrace e k c target hmem
          rw [advance_back hc hst]
          let n := m.modifyThread t fun x => { x with stack := rest }
          have hd : KeepsPins b t s m (n.resume t o (.grace e k c target)) :=
            KeepsPins.resumeGrace (.single (.still (.pop hst))) he hs o k c target
          exact .free (h.keepsPins hd hpm hr.visited hlt)
        | ends he => exact absurd he hl

theorem other (h : PinState b t s m) (hr : Reachable m) (hb : m.BuildsIdle) (hu : m.turn = some u)
    (ht : t ≠ u)
    (hp : (m.advance u).LocksReturned) (hlt : b = false → m.nesting t s < 2 ^ 32) :
    PinState b t s (m.advance u) := by
  have hpm := hp.before (advance_changes hb hu)
  have hn : SameNests t m (m.advance u) := .advance hb hu ht
  cases h with
  | waiting v i ls x hvt hs hcs hx ha =>
    subst hvt
    exact .wait ha hs hcs hx hr hb (by rw [step, hu]) hn hp hlt
  | free h =>
    obtain ⟨x, hx, hbk⟩ := h.pinsAgree
    refine .free ⟨⟨x, hx.advance hr hb hu ht, hbk.same hn hpm hr.visited⟩, ?_⟩
    cases advance_unmoved hb hu ht with
    | same hst _ => exact h.outsideGrace.of_stack (e := 0) (k := .regular) (.of_same hn) hst
    | started _ d _ _ hst _ =>
      refine .of_clear fun f hf => ?_
      obtain rfl := List.mem_singleton.1 (hst ▸ hf)
      rfl

theorem external (h : PinState b t s m) (hv : Visited m) (he : External m m') (hp : m.LocksReturned)
    (hl : t < m.threads.size → ¬m'.Ended t) : PinState b t s m' := by
  have hn : SameNests t m m' := .external he
  cases h with
  | waiting v i ls x hvt hs hcs hx ha =>
    subst hvt
    exact .waiting v i ls x rfl hs hcs (hx.same hn hp hv) (ha.external hv he)
  | free h =>
    obtain ⟨x, hx, hbk⟩ := h.pinsAgree
    refine .free ⟨⟨x, hx.external hv he hl, hbk.same hn hp hv⟩,
      h.outsideGrace.of_stack (e := 0) (k := .regular) (.of_same hn) ?_⟩
    by_cases hnil : (m.thread t).stack = []
    · rw [hnil, he.stack_eq_nil hnil]
    · exact (he.posture hv.orderly hnil).1

theorem new {workers : List Nat} {host : Nat} (h : Machine.new workers host = .ok m) : PinState b t s m := by
  have hw := (Reachable.new h).visited.tasked.wellFormed s
  obtain ⟨cs, -, rfl⟩ := new_eq h
  refine .free ⟨⟨default, .fresh ?_ hw rfl, ⟨rfl, fun _ e k w i _ hp => ?_⟩⟩, ?_⟩
  · rw [Machine.task?, thread, Table.get_empty]
    rfl
  · rw [place, nests, thread, Table.get_empty] at hp
    cases hp.symm.trans (Nests.place_nil e k)
  · refine .of_clear fun f hf => ?_
    rw [thread, Table.get_empty] at hf
    cases hf

end PinState

/-- Thread `t` lives, there is room for all threads, and no lock has panicked. -/
structure PinConditions (t : Nat) (m : Machine) : Prop where
  returned : m.LocksReturned
  room : m.threads.size < SlotArray.capacity
  lives : t < m.threads.size → ¬m.Ended t

theorem PinConditions.before (h : PinConditions t m') (ho : Orderly m) (hc : Changes m m') :
    PinConditions t m where
  returned := h.returned.before hc
  room := Nat.lt_of_le_of_lt hc.threads_le h.room
  lives := by
    rintro hlt ⟨q, hq⟩
    exact h.lives (Nat.lt_of_lt_of_le hlt hc.threads_le) ⟨q, hc.ended ho hlt hq⟩

theorem PinConditions.of_isLive (hp : m.LocksReturned) (hcap : m.threads.size < SlotArray.capacity)
    (hl : m.isLive t = true) : PinConditions t m := by
  refine ⟨hp, hcap, fun _ => ?_⟩
  rintro ⟨q, hq⟩
  rw [isLive, hq] at hl
  cases hl

/-- A thread that changes its pin depth by locks, unlocks and grace periods only, in a run in which no
lock panics. -/
theorem Trail.pinState {workers : List Nat} {host : Nat} {m₀ : Machine} {steps : List (Machine × Machine)}
    (h₀ : Machine.new workers host = .ok m₀) (h : FreeTrail m₀ m steps)
    (hc : ∀ p ∈ steps, p.1.turn = some t → p.1.makesCall t SchedulerCall.repins = false)
    (hbind : ∀ p ∈ steps, p.1.turn = some t → p.1.makesCall t SchedulerCall.binds = true → b = true)
    (hlt : b = false → ∀ p ∈ steps, p.1.nesting t s < 2 ^ 32) (hu : PinConditions t m) :
    PinState b t s m := by
  induction h with
  | refl => exact .new h₀
  | @begin m steps h _ st ih =>
    have hr : Reachable m := h.reachable (.new h₀)
    refine hr.visited.begin_preserves (P := fun n => PinConditions t n → PinState b t s n) st
      (fun n n' hv he ih hu => ?_) (fun hu => ih hc hbind hlt hu) hu
    have hc : Change n n' := .external he
    have hn := hu.before hv.orderly (.single hc)
    exact (ih hn).external hv he hn.returned fun hlt => hu.lives (Nat.lt_of_lt_of_le hlt hc.threads_le)
  | @step m m' steps h _ hb hs ih =>
    have hr : Reachable m := h.reachable (.new h₀)
    have hm := hu.before hr.visited.orderly (step_changes hb hs)
    have hin : PinState b t s m :=
      ih (fun p hp => hc p (List.mem_cons_of_mem _ hp)) (fun p hp => hbind p (List.mem_cons_of_mem _ hp))
        (fun hb p hp => hlt hb p (List.mem_cons_of_mem _ hp)) hm
    have hltm (hb : b = false) := hlt hb _ List.mem_cons_self
    rcases step_cases hs with ⟨u, ht, rfl⟩ | ⟨u, queue, hn, hq, rfl⟩
    · by_cases htu : t = u
      · subst htu
        refine hin.own hr hb ht (hc _ List.mem_cons_self ht) (hbind _ List.mem_cons_self ht) hu.returned hltm
          hu.room (hu.lives ?_)
        exact Nat.lt_of_lt_of_le (hr.visited.orderly.lt_size ht) (Changes.threads_le (step_changes hb hs))
      · exact hin.other hr hb ht htu hu.returned hltm
    · cases hin with
      | free h => exact .free (h.unasked (.of_threads rfl rfl rfl) hm.returned hr.visited)
      | waiting v i ls x hvt hvs hcs hx ha =>
        subst hvt
        exact .wait ha hvs hcs hx hr hb hs (.of_engines rfl rfl) hu.returned hltm

theorem migrate_pinned (h : (m.view t s).pinDepth ≠ 0) (hi : (m.task? t s).isSome = true) {w : Nat}
    (hw : w < (m.scheduler s).workers) : m.migrate t s w = (m, .ok false) := by
  obtain ⟨i, hi⟩ := Option.isSome_iff_exists.1 hi
  have hc : (m.scheduler s).checkWorker w = .ok () := if_pos hw
  rw [view, enroll_of_task? hi] at h
  have hx : (m.task t s).movable = false := by
    rw [Task.movable, decide_eq_false h]
    rfl
  unfold migrate
  rw [hc]
  dsimp only
  rw [enroll_of_task? hi, hx]
  rfl

theorem PinState.pinnedAsNested (h : PinState b t s m) (hout : ∀ e k c target,
      .grace e k c target ∈ (m.thread t).stack → (m.engine e).access.scheduler ≠ s) :
    PinnedAsNested b t s m := by
  cases h with
  | free h => exact h
  | waiting v i ls x hvt hvs hcs hx ha =>
    subst hvt hvs
    refine absurd (congrArg Access.scheduler ha.access) (hout v.engine v.kind v.snapshot v.target ?_)
    cases ha.stack with
    | looking hs => exact hs ▸ List.mem_cons_self
    | pausing id hs => exact hs ▸ List.mem_cons_of_mem _ List.mem_cons_self

theorem Sees.enrolled_of_pinned (h : Sees m t s x) (hx : x.pinDepth ≠ 0) : (m.task? t s).isSome = true := by
  cases h with
  | task i h =>
    rw [h.task?]
    rfl
  | fresh hn hw hp => exact absurd hp hx

theorem PinnedAsNested.pinned (h : PinnedAsNested b t s m) (hr : Reachable m) (hu : PinConditions t m)
    (hs : (m.engine e).access.scheduler = s) (hd : m.readDepth t e k ≠ 0) (hlt : m.nesting t s < 2 ^ 32) :
    m.Pinned t e := by
  subst hs
  obtain ⟨x, hx, hb⟩ := h.pinsAgree
  have hpin : x.pinDepth ≠ 0 :=
    hb.pinDepth ▸ ofNat_ne_zero (hu.returned.nesting_ne_zero hr.visited rfl hd) hlt
  have hid := hx.enrolled_of_pinned hpin
  have hview := hx.view (b := b) fun i hi => hr.room hu.room hi
  obtain ⟨i, hi⟩ := Option.isSome_iff_exists.1 hid
  rw [view, enroll_of_task? hi] at hview
  exact ⟨hid, hview.pinDepth ▸ hpin⟩

/-- Take a run in which no lock panics and thread `t` makes no calls that change how deep it is pinned,
as long as it lives. Outside of grace periods on a scheduler, it is pinned there as often as it is inside
of engines on that scheduler, modulo `2 ^ 32`. While it is inside, and the counter has not wrapped
around, nobody takes it to another worker. If it does not bind itself elsewhere either, it is still on
the workers where it has entered. -/
theorem pins_match_sections {workers : List Nat} {host : Nat} {m₀ : Machine}
    {steps : List (Machine × Machine)} (h₀ : Machine.new workers host = .ok m₀)
    (h : FreeTrail m₀ m steps)
    (hc : ∀ p ∈ steps, p.1.turn = some t → p.1.makesCall t SchedulerCall.repins = false)
    (hp : m.LocksReturned) (hcap : m.threads.size < SlotArray.capacity) (hl : m.isLive t = true)
    (hout : ∀ e k c target,
      .grace e k c target ∈ (m.thread t).stack → (m.engine e).access.scheduler ≠ s) :
    (m.view t s).pinDepth = UInt32.ofNat (m.nesting t s) ∧
    (m.nesting t s < 2 ^ 32 → ∀ e k, (m.engine e).access.scheduler = s → m.readDepth t e k ≠ 0 →
      ∀ w, (m.migrate t s w).1 = m ∧
        (w < (m.scheduler s).workers → (m.migrate t s w).2 = .ok false)) ∧
    ((∀ p ∈ steps, p.1.turn = some t → p.1.makesCall t SchedulerCall.binds = false) →
      (∀ p ∈ steps, p.1.nesting t s < 2 ^ 32) → m.nesting t s < 2 ^ 32 →
      ∀ e k w i, (m.engine e).access.scheduler = s → m.place t e k = some (w, i) →
        (m.view t s).worker = w) := by
  have hr : Reachable m := h.reachable (.new h₀)
  have hu := PinConditions.of_isLive hp hcap hl
  have hpinState : PinState true t s m := h.pinState h₀ hc (fun _ _ _ _ => rfl) nofun hu
  obtain ⟨x, hx, hb⟩ := (hpinState.pinnedAsNested hout).pinsAgree
  have hview : Task.Stays true x (m.view t s) := hx.view fun i hi => hr.room hcap hi
  refine ⟨hview.pinDepth.trans hb.pinDepth, fun hlt e k hs hd w => ?_,
    fun hbind hlts hlt e k w i hs hpl => ?_⟩
  · have hpin : x.pinDepth ≠ 0 := hb.pinDepth ▸ ofNat_ne_zero (hp.nesting_ne_zero hr.visited hs hd) hlt
    have hid := hx.enrolled_of_pinned hpin
    by_cases hw : w < (m.scheduler s).workers
    · rw [migrate_pinned (hview.pinDepth ▸ hpin) hid hw]
      exact ⟨rfl, fun _ => rfl⟩
    · have hc : (m.scheduler s).checkWorker w = .error (.noSuchWorker w (m.scheduler s).workers) := if_neg hw
      refine ⟨?_, fun hlt => absurd hlt hw⟩
      rw [migrate, hc]
  · have hno (p) (hmem : p ∈ steps) (ht : p.1.turn = some t)
        (hc : p.1.makesCall t SchedulerCall.binds = true) : false = true := (hbind p hmem ht).symm.trans hc
    have hstill : PinState false t s m := h.pinState h₀ hc hno (fun _ => hlts) hu
    obtain ⟨y, hy, hby⟩ := (hstill.pinnedAsNested hout).pinsAgree
    have hpin : y.pinDepth ≠ 0 :=
      hby.pinDepth ▸ ofNat_ne_zero (hp.nesting_ne_zero hr.visited hs (readDepth_of_place hpl)) hlt
    have hviewed : Task.Stays false y (m.view t s) := hy.view fun i hi => hr.room hcap hi
    exact (hviewed.worker rfl hpin).trans (hby.worker rfl e k w i hs hpl)

/-- Two engines on one scheduler, and what a thread does in both of them: it locks the first one for the
sleepable kind twice and the second one for the other, and from inside it waits for a grace period. -/
def twoEngineReader : Machine × List (Machine × Machine) :=
  Machine.follow { schedulers := ⟨[{ workers := 2 }]⟩, named := 1 }
    [.act 0 (.build 0 { scheduler := some 0 }), .act 0 (.build 1 { scheduler := some 0 }),
      .act 0 (.handle 0 (.readLock .sleepable)), .act 0 (.handle 0 (.readLock .sleepable)),
      .act 0 (.handle 1 (.readLock .regular)), .act 0 (.handle 0 (.synchronize .regular)),
      .act 0 (.handle 1 (.readUnlock .regular))]

theorem trail_twoEngineReader :
    FreeTrail { schedulers := ⟨[{ workers := 2 }]⟩, named := 1 } twoEngineReader.1 twoEngineReader.2 := by
  rw [← List.append_nil twoEngineReader.2]
  exact Trail.refl.follow _ (by decide +kernel)

/-- After it has left the second engine it is pinned twice, and stays where it has entered. -/
theorem twoEngineReader_pinned :
    (twoEngineReader.1.view 0 0).pinDepth = 2 ∧
      ((twoEngineReader.1.migrate 0 0 1).1 = twoEngineReader.1 ∧ (twoEngineReader.1.migrate 0 0 1).2 = .ok
        false) ∧
      (twoEngineReader.1.view 0 0).worker = 0 := by
  have hplace : twoEngineReader.1.place 0 0 .sleepable = some (0, 0) := by decide +kernel
  have htwice : twoEngineReader.1.nesting 0 0 = 2 := by decide +kernel
  have hout (e : Nat) (k : Kind) (c : Snapshot) (target : UInt32)
      (hf : .grace e k c target ∈ (twoEngineReader.1.thread 0).stack) :
      (twoEngineReader.1.engine e).access.scheduler ≠ 0 := by
    rw [show (twoEngineReader.1.thread 0).stack = [] by decide +kernel] at hf
    cases hf
  obtain ⟨hpin, hstay, hworker⟩ := pins_match_sections
    (show Machine.new [2] 1 = .ok _ from rfl) trail_twoEngineReader (by decide +kernel)
    (.of_trace (by decide +kernel)) (by decide +kernel) (by decide +kernel) hout
  have hlt : twoEngineReader.1.nesting 0 0 < 2 ^ 32 := htwice ▸ by decide
  have hsch : (twoEngineReader.1.engine 0).access.scheduler = 0 := by decide +kernel
  obtain ⟨hmove, hno⟩ := hstay hlt 0 .sleepable hsch (readDepth_of_place hplace) 1
  refine ⟨by rw [hpin, htwice]; rfl, ⟨hmove, hno (by decide +kernel)⟩, ?_⟩
  exact hworker (by decide +kernel) (by decide +kernel) hlt 0 .sleepable 0 0 hsch hplace

end Machine

end GracePeriod
