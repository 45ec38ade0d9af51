import GracePeriod.Proofs.Misuse
import GracePeriod.Proofs.NestTable

namespace GracePeriod

/-- An open section, by what has opened it. -/
inductive Hold
  | key (depth : Nat)
  | guard
  deriving DecidableEq

def Hold.depth? : Hold → Option Nat
  | key n => some n
  | guard => none

/-- A section is closed by its key. The key of a section that is not open closes the innermost one. -/
def release (n : Nat) (l : List Hold) : List Hold := if .key n ∈ l then l.erase (.key n) else l.tail

def keyOnTop (l : List Hold) : Bool := (l.head?.bind Hold.depth?).isSome

/-- Each key carries one more than the number of sections below its own. -/
def Stacked (l : List Hold) : Prop :=
  ∀ later n earlier, l = later ++ .key n :: earlier → n = earlier.length + 1

namespace Stacked

variable {l : List Hold} {n : Nat} {x : Hold}

theorem nil : Stacked [] :=
  fun _ _ _ h => absurd h.symm (List.append_ne_nil_of_right_ne_nil _ (List.cons_ne_nil _ _))

theorem cons (h : Stacked l) (hx : ∀ n, x = .key n → n = l.length + 1) : Stacked (x :: l) := by
  intro later n earlier hsplit
  cases later with
  | nil =>
    obtain ⟨rfl, rfl⟩ := List.cons.inj hsplit
    exact hx n rfl
  | cons y later =>
    obtain ⟨-, rfl⟩ := List.cons.inj hsplit
    exact h later n earlier rfl

theorem of_cons (h : Stacked (x :: l)) : Stacked l :=
  fun later n earlier hsplit => h (x :: later) n earlier (congrArg (x :: ·) hsplit)

theorem tail (h : Stacked l) : Stacked l.tail := by
  cases l with
  | nil => exact h
  | cons x l => exact h.of_cons

theorem bounds (h : Stacked l) (hn : .key n ∈ l) : 0 < n ∧ n ≤ l.length := by
  obtain ⟨later, earlier, rfl⟩ := List.append_of_mem hn
  obtain rfl := h later n earlier rfl
  simp

theorem head_of_length (h : Stacked l) (hn : .key l.length ∈ l) : l.head? = some (.key l.length) := by
  obtain ⟨later, earlier, hl⟩ := List.append_of_mem hn
  have hlevel := h later _ earlier hl
  have hlength := congrArg List.length hl
  rw [List.length_append, List.length_cons] at hlength
  obtain rfl : later = [] := List.length_eq_zero_iff.1 (by omega)
  rw [hl]
  simp [hlength]

theorem release_eq (h : Stacked l) (hn : n = 0 ∨ n = l.length) : release n l = l.tail := by
  unfold release
  split
  · rename_i hmem
    obtain rfl := hn.resolve_left (Nat.ne_of_gt (h.bounds hmem).1)
    have hhead := h.head_of_length hmem
    generalize l.length = n at hhead
    obtain ⟨earlier, rfl⟩ := List.head?_eq_some_iff.1 hhead
    exact List.erase_cons_head ..
  · rfl

theorem nodup (h : Stacked l) : (l.filterMap Hold.depth?).Nodup := by
  induction l with
  | nil => exact List.nodup_nil
  | cons x l ih =>
    cases x with
    | guard => exact ih h.of_cons
    | key n =>
      refine List.nodup_cons.2 ⟨fun hmem => ?_, ih h.of_cons⟩
      obtain ⟨y, hy, hn⟩ := List.mem_filterMap.1 hmem
      cases y with
      | guard => cases hn
      | key i =>
        obtain rfl : i = n := Option.some.inj hn
        have hlevel : i = l.length + 1 := h [] i l rfl
        have := (h.of_cons.bounds hy).2
        omega

end Stacked

namespace Machine

variable {m m₀ n : Machine} {t e : Nat} {k : Kind} {o : Outcome} {key : String} {l : List Hold}
  {steps : List (Machine × Machine)}

def takesKey (m : Machine) (t e : Nat) : Bool :=
  match (m.thread t).control with
  | .eval held (.handle slot (.srcuLock _)) => m.resolve held slot == some e
  | _ => false

/-- The depth on the key that thread `t` is about to hand back. -/
def releases? (m : Machine) (t e : Nat) : Option UInt32 :=
  match (m.thread t).control with
  | .eval held (.handle slot (.srcuUnlock key)) =>
    if m.resolve held slot = some e then m.keys.lookup key else none
  | _ => none

def answered (m : Machine) (t : Nat) : Nat :=
  match (m.thread t).control with
  | .back (.ok (.number n)) => n
  | _ => 0

/-- The open sections of thread `t` after a step, innermost first. -/
def holdsAfter (t e : Nat) (p : Machine × Machine) (l : List Hold) : List Hold :=
  if enters t e .sleepable p then
    (if p.1.takesKey t e then .key (p.2.answered t) else .guard) :: l
  else if leaves t e .sleepable p then
    match p.1.releases? t e with
    | some n => release n.toNat l
    | none => l.erase .guard
  else l

/-- The sections that the steps leave open. -/
def holds (t e : Nat) (steps : List (Machine × Machine)) : List Hold := steps.foldr (holdsAfter t e) []

/-- Thread `t` uses keys and guards only, and does not drop a guard while the innermost section is that of
a key. -/
def neat (m : Machine) (t e : Nat) (l : List Hold) : Bool :=
  match (m.thread t).control, (m.thread t).stack with
  | .eval held (.handle slot (.readLock .sleepable)), _
  | .eval held (.handle slot (.readUnlock .sleepable)), _ => m.resolve held slot != some e
  | .back _, .leave e' .sleepable :: _ => e' != e || !keyOnTop l
  | _, _ => true

def neatAll (t e : Nat) : List (Machine × Machine) → Bool
  | [] => true
  | p :: earlier => (p.1.turn != some t || p.1.neat t e (holds t e earlier)) && neatAll t e earlier

theorem eval_of_releases? {d : UInt32} (h : m.releases? t e = some d) :
    ∃ held slot key, (m.thread t).control = .eval held (.handle slot (.srcuUnlock key)) ∧
      m.resolve held slot = some e ∧ m.keys.lookup key = some d := by
  unfold releases? at h
  split at h
  · rename_i held slot key hc
    obtain ⟨hr, hd⟩ := Option.ite_none_right_eq_some.1 h
    exact ⟨held, slot, key, hc, hr, hd⟩
  · cases h

theorem unlocks?_of_releases? {d : UInt32} (h : m.releases? t e = some d)
    (hd : d = 0 ∨ d = m.readDepth t e .sleepable) : m.unlocks? t = some (e, .sleepable) := by
  obtain ⟨held, slot, key, hc, hr, hkey⟩ := eval_of_releases? h
  have hfits : m.fits t e key = true := by simpa [fits, hkey] using hd
  rw [unlocks?, hc]
  show (m.resolve held slot).bind _ = _
  rw [hr]
  simp [callUnlocks?, hfits]

theorem unlocks_cases (hu : m.unlocks? t = some (e, .sleepable)) (hn : m.neat t e l = true) :
    (∃ d, m.releases? t e = some d ∧ (d = 0 ∨ d = m.readDepth t e .sleepable)) ∨
      m.releases? t e = none ∧ keyOnTop l = false := by
  cases hc : (m.thread t).control with
  | eval held op =>
    simp only [unlocks?, hc] at hu
    cases op with
    | handle slot c =>
      obtain ⟨e', hr, hk⟩ := Option.bind_eq_some_iff.1 hu
      obtain ⟨k, hk, heq⟩ := Option.map_eq_some_iff.1 hk
      cases heq
      cases c with
      | readUnlock k =>
        obtain rfl := Option.some.inj hk
        simp [neat, hc, hr] at hn
      | srcuUnlock key =>
        obtain ⟨hfits, -⟩ := Option.ite_none_right_eq_some.1 hk
        unfold fits at hfits
        cases hkey : m.keys.lookup key with
        | none =>
          rw [hkey] at hfits
          cases hfits
        | some d =>
          rw [hkey] at hfits
          exact .inl ⟨d, by simp [releases?, hc, hr, hkey], by simpa using hfits⟩
      | _ => cases hk
    | _ => cases hu
  | back o =>
    refine .inr ⟨by simp [releases?, hc], ?_⟩
    simp only [unlocks?, hc] at hu
    split at hu
    · rename_i hs
      obtain ⟨rfl, rfl⟩ := Prod.mk.inj (Option.some.inj hu)
      simpa [neat, hc, hs] using hn
    · cases hu

theorem approach_visiting (m : Machine) (t e : Nat) : Approach t m (m.visiting t e) :=
  ((Approach.refl t m).push (f := .attempt) rfl).visit e

theorem advance_handle {held : Option Nat} {slot : Nat} {c : HandleCall}
    (hc : (m.thread t).control = .eval held (.handle slot c)) (hr : m.resolve held slot = some e) :
    m.advance t = (m.visiting t e).callHandle t e c :=
  (advance_eval hc).trans (withEngine_of_resolve (m := m.attempting t) hr fun m e => m.callHandle t e c)

theorem answer_srcuLock (hn : n.NestsUnique) (hs : n.skips e = false)
    (hp : (n.srcuLock t e key).LocksReturned) : ((n.srcuLock t e key).thread t).control =
      .back (.ok (.number ((n.readDepth t e .sleepable).toNat + 1))) := by
  cases ho : (n.readLock t e .sleepable).2 with
  | error f =>
    have heq : n.srcuLock t e key = (n.readLock t e .sleepable).1.fail t f := by
      simp only [srcuLock, ho]
    rw [heq] at hp
    exact absurd (lockPanicked_of_error ho) (hp t e .sleepable)
  | ok =>
    obtain ⟨hmax, hdepth⟩ := readDepth_readLock hn hs ho
    simp only [srcuLock, ho, hdepth]
    rw [control_back, toNat_succ hmax]

theorem answer_of_takesKey (hr : Reachable m) (ht : m.turn = some t) (h : m.takesKey t e = true)
    (hs : m.skips e = false) (hp : (m.advance t).LocksReturned) : ((m.advance t).thread t).control =
      .back (.ok (.number ((m.readDepth t e .sleepable).toNat + 1))) := by
  unfold takesKey at h
  split at h
  · rename_i held slot key hc
    have hv := ((approach_visiting m t e).visited hr.visited ht).1
    rw [advance_handle hc (eq_of_beq h)] at hp ⊢
    rw [← readDepth_visiting]
    exact answer_srcuLock hv.nestsUnique ((skips_visiting m t e).trans hs) hp
  · cases h

theorem answer_of_releases? {d : UInt32} (hr : Reachable m) (ht : m.turn = some t)
    (h : m.releases? t e = some d) (hd : d = m.readDepth t e .sleepable) (hd0 : d ≠ 0)
    (hs : m.skips e = false) (hp : m.LocksReturned) (hpin : m.Pinned t e) :
    ((m.advance t).thread t).control = .back (.ok .unit) ∧
      (m.advance t).readDepth t e .sleepable = d - 1 := by
  obtain ⟨held, slot, key, hc, hres, hkey⟩ := eval_of_releases? h
  have hv := ((approach_visiting m t e).visited hr.visited ht).1
  have hsn : (m.visiting t e).skips e = false := (skips_visiting m t e).trans hs
  have hdn : (m.visiting t e).readDepth t e .sleepable = d := (readDepth_visiting ..).trans hd.symm
  have hpn : (m.visiting t e).LocksReturned := hp
  have hfits : (m.visiting t e).fits t e key = true := by
    have hkey : (m.visiting t e).keys.lookup key = some d := hkey
    simp [fits, hkey, hdn]
  have ha := hpn.accounts hv e .sleepable
  have hok := readUnlock_ok hv.nestsUnique ha hsn (hdn ▸ hd0)
    (hpin.of_tasks (approach_visiting m t e).tasks
      ((approach_visiting m t e).access e (hp.lt_size hr.visited (hd ▸ hd0)))
      (approach_visiting m t e).schedulers)
  have heq : m.advance t = ((m.visiting t e).readUnlock t e .sleepable).1.done t := by
    rw [advance_handle hc hres]
    refine (srcuUnlock_of_fits hfits).trans ?_
    rw [hok]
    rfl
  refine ⟨heq ▸ control_back .., ?_⟩
  rw [heq, ← hdn, ← (readUnlock_effect hv.nestsUnique ha hsn).1 (hdn ▸ hd0)]
  exact congrArg (Nests.depth · e .sleepable) (part_modifyThread Thread.nests _ t t fun _ => rfl)

/-- The open sections are those that the thread has entered and not left. -/
structure Tiered (t e : Nat) (steps : List (Machine × Machine)) : Prop where
  length : (holds t e steps).length + steps.countP (leaves t e .sleepable) =
    steps.countP (enters t e .sleepable)
  stacked : Stacked (holds t e steps)

/-- Whatever closes a section in a neat run closes the innermost one. -/
theorem holdsAfter_of_leaves (h : Stacked l) (henters : enters t e .sleepable (m, m') = false)
    (hleaves : leaves t e .sleepable (m, m') = true) (hn : m.turn = some t → m.neat t e l = true)
    (hd : (m.readDepth t e .sleepable).toNat = l.length) : holdsAfter t e (m, m') l = l.tail := by
  obtain ⟨ht, hu⟩ := of_decide_eq_true (Bool.and_eq_true_iff.1 hleaves).1
  simp only [holdsAfter, henters, hleaves, Bool.false_eq_true, if_false, if_true]
  rcases unlocks_cases hu (hn ht) with ⟨d, hreleases, hfits⟩ | ⟨hnone, htop⟩
  · rw [hreleases]
    exact h.release_eq (hfits.imp (congrArg UInt32.toNat) fun heq => (congrArg UInt32.toNat heq).trans hd)
  · rw [hnone]
    cases l with
    | nil => rfl
    | cons x earlier =>
      cases x with
      | guard => exact List.erase_cons_head ..
      | key n => cases htop

theorem Tiered.step (h : Tiered t e steps) (hm : Mirrors t m steps) (hm' : Mirrors t m' ((m, m') :: steps))
    (hn : m.turn = some t → m.neat t e (holds t e steps) = true)
    (ha : m.turn = some t → m.takesKey t e = true →
      m'.answered t = (m.readDepth t e .sleepable).toNat + 1) : Tiered t e ((m, m') :: steps) := by
  have hlength := h.length
  have hdepth := hm.depth e .sleepable
  have hdepth' := hm'.depth e .sleepable
  rw [List.countP_cons, List.countP_cons] at hdepth'
  suffices hl : (holdsAfter t e (m, m') (holds t e steps)).length +
      (if leaves t e .sleepable (m, m') then 1 else 0) = (holds t e steps).length +
        (if enters t e .sleepable (m, m') then 1 else 0) ∧
      Stacked (holdsAfter t e (m, m') (holds t e steps)) by
    refine ⟨?_, hl.2⟩
    rw [List.countP_cons, List.countP_cons]
    show (holdsAfter t e (m, m') (holds t e steps)).length + _ = _
    omega
  cases henters : enters t e .sleepable (m, m') with
  | true =>
    obtain ⟨ht, hl⟩ := of_decide_eq_true henters
    rw [leaves_of_none (unlocks?_of_locks? hl), holdsAfter, henters]
    refine ⟨rfl, h.stacked.cons fun n hkey => ?_⟩
    split at hkey
    · rename_i htakes
      cases hkey
      rw [ha ht htakes]
      omega
    · cases hkey
  | false =>
    cases hleaves : leaves t e .sleepable (m, m') with
    | false =>
      rw [holdsAfter, henters, hleaves]
      exact ⟨rfl, h.stacked⟩
    | true =>
      rw [henters, hleaves] at hdepth'
      simp only [Bool.false_eq_true, if_false, if_true] at hdepth'
      rw [holdsAfter_of_leaves h.stacked henters hleaves hn (by omega), List.length_tail]
      refine ⟨?_, h.stacked.tail⟩
      simp only [Bool.false_eq_true, if_false, if_true]
      omega

theorem Trail.tiered {workers : List Nat} {host : Nat} (h₀ : Machine.new workers host = .ok m₀)
    (h : FreeTrail m₀ m steps)
    (hc : ∀ p ∈ steps, p.1.turn = some t → p.1.makesCall t SchedulerCall.repins = false)
    (hgo : ∀ p ∈ steps, p.1.turn = some t → ∀ e, p.1.skips e = false)
    (hlts : ∀ p ∈ steps, p.1.turn = some t → ∀ s, p.1.nesting t s < 2 ^ 32)
    (hn : neatAll t e steps = true) (hu : PinConditions t m) : Tiered t e steps := by
  induction h with
  | refl => exact ⟨rfl, .nil⟩
  | @begin m steps h _ st ih =>
    have hr : Reachable m := h.reachable (.new h₀)
    exact ih hc hgo hlts hn (hu.before hr.visited.orderly (begin_changes m st))
  | @step m m' steps h hp hb hs ih =>
    have hr : Reachable m := h.reachable (.new h₀)
    have hm := hu.before hr.visited.orderly (step_changes hb hs)
    have hcs (p) (hp : p ∈ steps) := hc p (List.mem_cons_of_mem _ hp)
    have hgos (p) (hp : p ∈ steps) := hgo p (List.mem_cons_of_mem _ hp)
    have hlts' (p) (hp : p ∈ steps) := hlts p (List.mem_cons_of_mem _ hp)
    obtain ⟨hnow, hbefore⟩ := Bool.and_eq_true_iff.1 hn
    refine (ih hcs hgos hlts' hbefore hm).step (h.mirrors h₀ hcs hgos hlts' hm)
      ((h.step hp hb hs).mirrors h₀ hc hgo hlts hu) (fun ht => ?_) fun ht htakes => ?_
    · simpa [ht] using hnow
    · obtain rfl : m.advance t = m' := by
        rw [Machine.step, ht] at hs
        exact Option.some.inj hs
      have hlast := hgo (m, m.advance t) List.mem_cons_self ht e
      rw [answered, answer_of_takesKey hr ht htakes hlast hu.returned]

/-- The keys of a thread that has the sections `l` open. -/
structure KeyStack (m : Machine) (t e : Nat) (l : List Hold) : Prop where
  depth : (m.readDepth t e .sleepable).toNat = l.length
  levels : Stacked l
  distinct : (l.filterMap Hold.depth?).Nodup
  /-- A new key carries one more than the number of open sections. -/
  takes : m.turn = some t → m.takesKey t e = true → (m.advance t).LocksReturned →
    ((m.advance t).thread t).control = .back (.ok (.number (l.length + 1)))
  /-- The key of the innermost section closes it. -/
  releases : ∀ d earlier, m.turn = some t → m.releases? t e = some d → l = .key d.toNat :: earlier →
    ((m.advance t).thread t).control = .back (.ok .unit) ∧
      ((m.advance t).readDepth t e .sleepable).toNat = earlier.length
  /-- The key of another section panics, and leaves the machine as it was. -/
  refuses : ∀ d, m.turn = some t → m.releases? t e = some d → .key d.toNat ∈ l →
    l.head? ≠ some (.key d.toNat) → ∃ n vs, m.Undone t .keyOutOfOrder n vs
  /-- A guard that is dropped while a key is the innermost one spoils that key. -/
  spoils : ∀ n earlier o, m.Drops t e .sleepable o → l = .key n :: earlier →
    ∀ key d, (m.advance t).keys.lookup key = some d → d.toNat = n →
      (m.advance t).keyMisuse? t e key = some .keyOutOfOrder

theorem Undone.of_releases? {d : UInt32} (hr : Reachable m) (ht : m.turn = some t)
    (h : m.releases? t e = some d) (hd0 : d ≠ 0) (hd : d ≠ m.readDepth t e .sleepable) :
    ∃ n vs, m.Undone t .keyOutOfOrder n vs := by
  obtain ⟨held, slot, key, hc, hres, hkey⟩ := eval_of_releases? h
  refine hr.undone ht hc ?_
  simp [misuse?, hres, handleMisuse?, keyMisuse?, hkey, hd0, hd]

theorem keyMisuse?_of_drops {d : UInt32} (hdrop : m.Drops t e .sleepable o)
    (hr : Reachable m) (hp : m.LocksReturned) (hs : m.skips e = false) (hd0 : d ≠ 0)
    (hd : d = m.readDepth t e .sleepable) (hkey : (m.advance t).keys.lookup key = some d) :
    (m.advance t).keyMisuse? t e key = some .keyOutOfOrder := by
  subst hd
  have hpred := toNat_pred hd0
  have hafter := (hdrop.inside hr (History.noneStranded_of_not_mem fun u => hp u e .sleepable) hs hd0).2
  have hne : m.readDepth t e .sleepable ≠ (m.advance t).readDepth t e .sleepable := by
    intro heq
    have htoNat := congrArg UInt32.toNat heq
    rw [hafter] at htoNat
    omega
  rw [keyMisuse?, hkey]
  exact if_neg (not_or.2 ⟨hd0, hne⟩)

/-- The sections that a thread opens and closes with keys and guards form a stack, as long as it drops no
guard while the innermost section is that of a key, in a run in which no lock panics and nothing is
skipped in its turns, and the pin depth, a number of 32 bits, can count the sections of the thread on
each scheduler. A key that is taken tells how many sections are open then, its own included. -/
theorem keys_form_stack {workers : List Nat} {host : Nat} (h₀ : Machine.new workers host = .ok m₀)
    (h : FreeTrail m₀ m steps)
    (hc : ∀ p ∈ steps, p.1.turn = some t → p.1.makesCall t SchedulerCall.repins = false)
    (hgo : ∀ p ∈ steps, p.1.turn = some t → ∀ e, p.1.skips e = false)
    (hlts : ∀ p ∈ steps, p.1.turn = some t → ∀ s, p.1.nesting t s < 2 ^ 32)
    (hlt : ∀ s, m.nesting t s < 2 ^ 32) (hp : m.LocksReturned)
    (hcap : m.threads.size < SlotArray.capacity) (hl : m.isLive t = true) (hs : m.skips e = false)
    (hn : neatAll t e steps = true) : KeyStack m t e (holds t e steps) := by
  have hr : Reachable m := h.reachable (.new h₀)
  have hu := PinConditions.of_isLive hp hcap hl
  have hx := h.tiered h₀ hc hgo hlts hn hu
  have hdepth : (m.readDepth t e .sleepable).toNat = (holds t e steps).length := by
    have hm := (h.mirrors h₀ hc hgo hlts hu).depth e .sleepable
    have hlength := hx.length
    omega
  have hfits {d : UInt32} {earlier : List Hold} (heq : holds t e steps = .key d.toNat :: earlier) :
      d ≠ 0 ∧ d = m.readDepth t e .sleepable ∧ d.toNat = earlier.length + 1 := by
    have hlevel : d.toNat = earlier.length + 1 := hx.stacked [] d.toNat earlier heq
    have htop := hdepth.trans (congrArg List.length heq)
    refine ⟨?_, UInt32.toNat_inj.1 (hlevel.trans htop.symm), hlevel⟩
    rintro rfl
    cases hlevel
  refine ⟨hdepth, hx.stacked, hx.stacked.nodup, fun ht htakes hp' => ?_, fun d earlier ht hd heq => ?_,
    fun d ht hd hmem hhead => ?_, fun n earlier o hdrop heq key d hkey hdn => ?_⟩
  · exact hdepth ▸ answer_of_takesKey hr ht htakes hs hp'
  · obtain ⟨hd0, hfits, hlevel⟩ := hfits heq
    have hpinState : PinState true t (m.engine e).access.scheduler m :=
      h.pinState h₀ hc (fun _ _ _ _ => rfl) nofun hu
    have hin := hpinState.pinnedAsNested_of_asks (.inr ((unlocks?_of_releases? hd (.inr hfits)) ▸ nofun))
    have hpin := hin.pinned hr hu rfl (hfits ▸ hd0) (hlt _)
    obtain ⟨hctrl, hafter⟩ := answer_of_releases? hr ht hd hfits hd0 hs hp hpin
    refine ⟨hctrl, ?_⟩
    have hpred := toNat_pred hd0
    rw [hafter]
    omega
  · obtain ⟨hpos, hle⟩ := hx.stacked.bounds hmem
    refine Undone.of_releases? hr ht hd (fun h0 => ?_) fun hfits => hhead ?_
    · rw [h0] at hpos
      exact absurd hpos (Nat.lt_irrefl 0)
    · have htop : d.toNat = (holds t e steps).length := hfits ▸ hdepth
      rw [htop] at hmem ⊢
      exact hx.stacked.head_of_length hmem
  · subst hdn
    obtain ⟨hd0, hfits, -⟩ := hfits heq
    exact keyMisuse?_of_drops hdrop hr hp hs hd0 hfits hkey

/-- A thread that has opened a section with a key, one with a guard inside of it, and one with a key inside
of that, is about to hand back the first key. -/
def nested : Machine × List (Machine × Machine) :=
  let q := Machine.follow { schedulers := ⟨[{ workers := 2 }]⟩, named := 1 }
    [.act 0 (.build 0 { scheduler := some 0 }), .act 0 (.clone 0), .act 0 (.handle 0 (.srcuLock "outer"))]
  let m := (q.1.begin (.act 0 (.guard 0 true .sleepable true
    [.handle 0 (.srcuLock "inner"), .handle 0 (.srcuUnlock "outer")]))).1
  (m.run 6, trailRun 6 m ++ q.2)

theorem trail_nested :
    FreeTrail { schedulers := ⟨[{ workers := 2 }]⟩, named := 1 } nested.1 nested.2 := by
  refine Trail.run (Trail.begin ?_ rfl _) (by decide +kernel)
  rw [← List.append_nil (Prod.snd _)]
  exact Trail.refl.follow _ (by decide +kernel)

/-- It is refused, and everything stays open. -/
theorem nested_key_refused :
    KeyStack nested.1 0 0 [.key 3, .guard, .key 1] ∧ nested.1.releases? 0 0 = some 1 ∧
      ∃ n vs, nested.1.Undone 0 .keyOutOfOrder n vs := by
  have hgo (p) (hp : p ∈ nested.2) (_ : p.1.turn = some 0) : ∀ e, p.1.skips e = false :=
    have h : ∀ p ∈ nested.2, ∀ s < p.1.schedulers.size, (p.1.scheduler s).halted = false := by
      decide +kernel
    not_skips (h p hp)
  have hlt {m : Machine} (h : ∑ e ∈ Finset.range m.engines.size, m.depthIn 0 e < 2 ^ 32) (s : Nat) :
      m.nesting 0 s < 2 ^ 32 := Nat.lt_of_le_of_lt (nesting_le m 0 s) h
  have hlts (p) (hp : p ∈ nested.2) (_ : p.1.turn = some 0) : ∀ s, p.1.nesting 0 s < 2 ^ 32 :=
    have h : ∀ p ∈ nested.2, ∑ e ∈ Finset.range p.1.engines.size, p.1.depthIn 0 e < 2 ^ 32 := by
      decide +kernel
    hlt (h p hp)
  have hstack := keys_form_stack (show Machine.new [2] 1 = .ok _ from rfl) trail_nested (t := 0) (e := 0)
    (by decide +kernel) hgo hlts (hlt (by decide +kernel)) (.of_trace (by decide +kernel))
    (by decide +kernel) (by decide +kernel) (by decide +kernel) (by decide +kernel)
  rw [show holds 0 0 nested.2 = [.key 3, .guard, .key 1] by decide +kernel] at hstack
  have hkey : nested.1.releases? 0 0 = some 1 := by decide +kernel
  exact ⟨hstack, hkey, hstack.refuses 1 (by decide +kernel) hkey (by decide) (by decide)⟩

/-- A thread that has dropped a guard while it had a key from inside of it, and has taken another key since,
is about to hand back the first one. -/
def keyReused : Machine × List (Machine × Machine) :=
  let q := Machine.follow { schedulers := ⟨[{ workers := 1 }]⟩, named := 1 }
    [.act 0 (.build 0 { scheduler := some 0 }),
      .act 0 (.guard 0 true .sleepable true [.handle 0 (.srcuLock "outer")]),
      .act 0 (.handle 0 (.srcuLock "inner"))]
  let m := (q.1.begin (.act 0 (.handle 0 (.srcuUnlock "outer")))).1
  (m.run 1, trailRun 1 m ++ q.2)

/-- The two keys are the same, and the outer one is not refused. -/
theorem dropped_guard_confuses_keys :
    FreeTrail { schedulers := ⟨[{ workers := 1 }]⟩, named := 1 } keyReused.1 keyReused.2 ∧
      ((∀ p ∈ keyReused.2, p.1.skips 0 = false) ∧ keyReused.1.skips 0 = false) ∧
      keyReused.1.LocksReturned ∧ holds 0 0 keyReused.2 = [.key 2, .key 2] ∧
      (keyReused.1.keys.lookup "outer" = some 2 ∧ keyReused.1.keys.lookup "inner" = some 2) ∧
      keyReused.1.releases? 0 0 = some 2 ∧
      ((keyReused.1.advance 0).thread 0).control = .back (.ok .unit) ∧
      (keyReused.1.advance 0).readDepth 0 0 .sleepable = 1 := by
  refine ⟨?_, ⟨by decide +kernel, by decide +kernel⟩, .of_trace (by decide +kernel), by decide +kernel,
    ⟨by decide +kernel, by decide +kernel⟩, by decide +kernel, rfl, by decide +kernel⟩
  refine Trail.run (Trail.begin ?_ rfl _) (by decide +kernel)
  rw [← List.append_nil (Prod.snd _)]
  exact Trail.refl.follow _ (by decide +kernel)

end Machine

end GracePeriod
