import GracePeriod.Proofs.Pins

namespace GracePeriod

/-- The guards on an engine that a thread has created. -/
structure Held where
  /-- Those that it has, innermost first, and whether there was no halt when they were created. -/
  guards : List (Kind × Bool) := []
  /-- Those that were created in no halt, and dropped in one. -/
  left : List Kind := []

namespace Held

def sections (x : Held) (k : Kind) : Nat := x.guards.count (k, true) + x.left.count k

def create (x : Held) (going : Bool) (k : Kind) : Held := { x with guards := (k, going) :: x.guards }

def drop (x : Held) (going : Bool) : Held :=
  match x.guards with
  | [] => x
  | (k, real) :: rest =>
    { guards := rest, left := if real && !going then k :: x.left else x.left }

/-- What becomes of the guards in a step, when the stack has had frames for the guards `before` and then
for the guards `after`. -/
def follow (x : Held) (going : Bool) (before after : List Kind) : Held :=
  if before.length < after.length then after.head?.elim x (x.create going)
  else if after.length < before.length then x.drop going
  else x

theorem follow_same (x : Held) (going : Bool) (ks : List Kind) : x.follow going ks ks = x := by
  simp [follow]

theorem follow_cons (x : Held) (going : Bool) (k : Kind) (ks : List Kind) :
    x.follow going ks (k :: ks) = x.create going k := by
  simp [follow]

theorem follow_tail (x : Held) (going : Bool) (k : Kind) (ks : List Kind) :
    x.follow going (k :: ks) ks = x.drop going := by
  simp [follow]

theorem sections_create (x : Held) (going : Bool) (k k' : Kind) :
    (x.create going k).sections k' = x.sections k' + if going ∧ k = k' then 1 else 0 := by
  cases going
  · simp [sections, create]
  · simp [sections, create, List.count_cons]
    omega

theorem sections_drop {x : Held} {k : Kind} {real : Bool} {rest : List (Kind × Bool)}
    (hx : x.guards = (k, real) :: rest) (going : Bool) (k' : Kind) :
    x.sections k' = (x.drop going).sections k' + if real ∧ going ∧ k = k' then 1 else 0 := by
  cases real
  · simp [sections, drop, hx]
  · cases going
    · simp [sections, drop, hx, List.count_cons]
      omega
    · simp [sections, drop, hx, List.count_cons]
      omega

end Held

namespace Machine

variable {t u e : Nat} {m m' : Machine} {k : Kind} {o : Outcome}

/-- The guards of every thread after a step. A thread that has ended keeps what it had. -/
def watch (m m' : Machine) (e : Nat) (g : Nat → Held) (u : Nat) : Held :=
  if m'.isLive u then
    (g u).follow (!m.skips e) (guardsOn e (m.thread u).stack) (guardsOn e (m'.thread u).stack)
  else g u

/-- The thread that has the turn opens and closes sections of the engine by guards alone, drops no guard
of a halt when the halt is over, and leaves it to locks and unlocks how deep it is pinned. -/
def guardsOnly (m : Machine) (e : Nat) (g : Nat → Held) : Bool :=
  match m.turn with
  | none => true
  | some t =>
    !m.makesCall t SchedulerCall.repins &&
      match (m.thread t).control, (m.thread t).stack with
      | .eval held (.handle slot c), _ => !(c.isSection && m.resolve held slot == some e)
      | .back _, .leave e' k :: _ => e' != e || m.skips e || (g t).guards.head? != some (k, false)
      | _, _ => true

/-- A run in which all threads keep to guards, and the guards that they have created. -/
inductive Watched (e : Nat) : Machine → (Nat → Held) → Prop
  | new {workers : List Nat} {host : Nat} {m : Machine} (h : Machine.new workers host = .ok m) :
      Watched e m fun _ => {}
  | begin {m : Machine} {g : Nat → Held} (h : Watched e m g) (s : Script.Step) :
      Watched e (m.begin s).1 g
  | step {m m' : Machine} {g : Nat → Held} (h : Watched e m g) (hb : m.BuildsIdle)
      (hm : m.guardsOnly e g = true) (hs : m.step = some m') : Watched e m' (watch m m' e g)

variable {g : Nat → Held}

theorem Watched.reachable (h : Watched e m g) : Reachable m := by
  induction h with
  | new h => exact .new h
  | begin _ s ih => exact ih.begin s
  | step _ hb _ hs ih => exact ih.step hb hs

theorem not_repins_of_guardsOnly (h : m.guardsOnly e g = true) (ht : m.turn = some t) :
    m.makesCall t SchedulerCall.repins = false := by
  simp only [guardsOnly, ht, Bool.and_eq_true] at h
  exact Bool.not_eq_true' _ ▸ h.1

theorem Watched.trail (h : Watched e m g) : ∃ (workers : List Nat) (host : Nat) (m₀ : Machine)
    (steps : List (Machine × Machine)), Machine.new workers host = .ok m₀ ∧ FreeTrail m₀ m steps ∧
      ∀ t, ∀ p ∈ steps, p.1.turn = some t → p.1.makesCall t SchedulerCall.repins = false := by
  induction h with
  | @new workers host m h => exact ⟨workers, host, m, [], h, .refl, fun _ _ => nofun⟩
  | begin _ s ih =>
    obtain ⟨workers, host, m₀, steps, h₀, ht, hc⟩ := ih
    exact ⟨workers, host, m₀, steps, h₀, ht.begin rfl s, hc⟩
  | step _ hb hm hs ih =>
    obtain ⟨workers, host, m₀, steps, h₀, ht, hc⟩ := ih
    refine ⟨workers, host, m₀, _, h₀, ht.step rfl hb hs, fun t p hp hturn => ?_⟩
    rcases List.mem_cons.1 hp with rfl | hp
    · exact not_repins_of_guardsOnly hm hturn
    · exact hc t p hp hturn

theorem not_raw_of_guardsOnly (h : m.guardsOnly e g = true) (ht : m.turn = some t) : ¬m.Raw t e := by
  rintro ⟨held, slot, c, hc, hsec, hres⟩
  simp [guardsOnly, ht, hc, hsec, hres] at h

theorem paired_of_guardsOnly {o : Outcome} (h : m.guardsOnly e g = true) (hd : m.Drops t e k o)
    (hs : m.skips e = false) : (g t).guards.head? ≠ some (k, false) := by
  obtain ⟨ht, hc, rest, hst⟩ := hd
  simp only [guardsOnly, ht, hc, hst, hs, bne_self_eq_false, Bool.false_or, Bool.and_eq_true] at h
  exact bne_iff_ne.1 h.2

/-- The guards are the ones that the stack has frames for, and the depths are those of the guards that
were created in no halt. -/
structure Matched (m : Machine) (e : Nat) (g : Nat → Held) : Prop where
  depth : ∀ u k, (m.readDepth u e k).toNat = (g u).sections k
  stack : ∀ u, m.isLive u = true → guardsOn e (m.thread u).stack = (g u).guards.map Prod.fst
  fresh : ∀ u, m.threads.size ≤ u → g u = {}

theorem Matched.keep (h : Matched m e g) (hd : ∀ u k, m'.readDepth u e k = m.readDepth u e k)
    (hs : ∀ u, m'.isLive u = true → guardsOn e (m'.thread u).stack = (g u).guards.map Prod.fst)
    (hle : m.threads.size ≤ m'.threads.size) : Matched m' e g where
  depth u k := by rw [hd, h.depth]
  stack := hs
  fresh u hu := h.fresh u (hle.trans hu)

theorem Matched.new {workers : List Nat} {host : Nat} (h : Machine.new workers host = .ok m) :
    Matched m e fun _ => {} := by
  obtain ⟨cs, -, rfl⟩ := new_eq h
  refine ⟨fun u k => ?_, fun u _ => ?_, fun _ _ => rfl⟩
  · rw [Machine.readDepth, nests, thread, Table.get_empty]
    rfl
  · rw [thread, Table.get_empty]
    rfl

theorem Matched.begin (h : Matched m e g) (ho : Orderly m) (s : Script.Step) :
    Matched (m.begin s).1 e g := by
  refine (begin_externals m s).preserves (P := fun m => Matched m e g) (fun n n' ho hx hm => ?_) ho h
  refine hm.keep (fun u k => congrArg (Nests.depth · e k) (hx.keepsEngines.nests u)) (fun u hl => ?_)
    hx.threads_le
  rw [hx.stack ho]
  by_cases hu : u < n.threads.size
  · exact hm.stack u (Changes.isLive (.single (.external hx)) ho hu hl)
  · have hu := Nat.le_of_not_lt hu
    rw [thread_of_size_le hu, hm.fresh u hu]
    rfl

theorem watch_of_same (hs : guardsOn e (m'.thread u).stack = guardsOn e (m.thread u).stack) :
    watch m m' e g u = g u := by
  unfold watch
  rw [hs, Held.follow_same, ite_self]

theorem guardsOn_other (hb : m.BuildsIdle) (ht : m.turn = some t) (hu : u ≠ t) :
    guardsOn e ((m.advance t).thread u).stack = guardsOn e (m.thread u).stack := by
  cases advance_unmoved hb ht hu with
  | same hs _ => rw [hs]
  | started hle _ _ _ hs _ =>
    rw [hs, thread_of_size_le hle]
    rfl

theorem Matched.turn (h : Matched m e g) (hr : Reachable m) (hb : m.BuildsIdle) (ht : m.turn = some t)
    (hd : ∀ u k, u ≠ t → (m.advance t).readDepth u e k = m.readDepth u e k)
    (hdt : ∀ k, ((m.advance t).readDepth t e k).toNat = (watch m (m.advance t) e g t).sections k)
    (hst : (m.advance t).isLive t = true → guardsOn e ((m.advance t).thread t).stack =
      (watch m (m.advance t) e g t).guards.map Prod.fst) :
    Matched (m.advance t) e (watch m (m.advance t) e g) := by
  have hc := advance_changes hb ht
  have ho := hr.visited.orderly
  have hother (u : Nat) (hu : u ≠ t) := guardsOn_other (e := e) hb ht hu
  refine ⟨fun u k => ?_, fun u hl => ?_, fun u hle => ?_⟩
  · by_cases hu : u = t
    · rw [hu, hdt]
    · rw [watch_of_same (hother u hu), hd u k hu, h.depth]
  · by_cases hu : u = t
    · rw [hu] at hl ⊢
      exact hst hl
    · rw [watch_of_same (hother u hu), hother u hu]
      by_cases hlt : u < m.threads.size
      · exact h.stack u (hc.isLive ho hlt hl)
      · have hle := Nat.le_of_not_lt hlt
        rw [thread_of_size_le hle, h.fresh u hle]
        rfl
  · have hle₀ := (Changes.threads_le hc).trans hle
    have hu : u ≠ t := by
      rintro rfl
      exact absurd (ho.lt_size ht) (Nat.not_lt_of_le hle₀)
    rw [watch_of_same (hother u hu), h.fresh u hle₀]

theorem Matched.guardEffect (h : Matched m e g) (hr : Reachable m) (hb : m.BuildsIdle) (ht : m.turn = some t)
    (hp : ∀ k u, (u, .lockPanicked) ∉ (m.advance t).history e k) (htend : GuardEffect t e m (m.advance t)) :
    Matched (m.advance t) e (watch m (m.advance t) e g) := by
  have hl := isLive_of_active (hr.visited.orderly.turn t ht).1
  cases htend with
  | same hd hs =>
    have hg : watch m (m.advance t) e g t = g t := by
      cases hl' : (m.advance t).isLive t with
      | true => exact watch_of_same (hs hl')
      | false => exact if_neg (by rw [hl']; nofun)
    refine h.turn hr hb ht (fun u k _ => hd u k) (fun k => ?_) fun hl' => ?_
    · rw [hg, hd, h.depth]
    · rw [hg, hs hl', h.stack t hl]
  | created k hl' hd hs hk =>
    have hg : watch m (m.advance t) e g t = (g t).create (!m.skips e) k := by
      unfold watch
      rw [if_pos hl', hs, Held.follow_cons]
    refine h.turn hr hb ht (fun u k' hu => hd u e k' fun hc => hu hc.1) (fun k' => ?_) fun _ => ?_
    · rw [hg, Held.sections_create, ← h.depth]
      by_cases hk' : k = k'
      · subst hk'
        split at hk
        · rename_i hskip
          simp [hk, hskip]
        · rename_i hskip
          obtain ⟨hmax, hk⟩ := hk
          simp [hk, hskip, toNat_succ hmax]
      · rw [hd t e k' fun hc => hk' hc.2.2.symm]
        simp [hk']
    · rw [hg, hs, h.stack t hl]
      rfl
  | panicked k hpan => exact absurd hpan (hp k t)

theorem Matched.innermost (h : Matched m e g) (hd : m.Drops t e k o) (ho : Orderly m) :
    ∃ real rest, (g t).guards = (k, real) :: rest := by
  obtain ⟨ht, -, rest, hs⟩ := hd
  have hst := h.stack t (isLive_of_active (ho.turn t ht).1)
  rw [hs, guardsOn_leave] at hst
  obtain ⟨⟨_, real⟩, gs, hg, rfl, -⟩ := List.map_eq_cons_iff.1 hst.symm
  exact ⟨real, gs, hg⟩

theorem Matched.innermost_real (h : Matched m e g) (hm : m.guardsOnly e g = true)
    (hd : m.Drops t e k o) (hs : m.skips e = false) (ho : Orderly m) :
    ∃ rest, (g t).guards = (k, true) :: rest := by
  obtain ⟨real, rest, hg⟩ := h.innermost hd ho
  have hpaired := paired_of_guardsOnly hm hd hs
  rw [hg] at hpaired
  cases real with
  | true => exact ⟨rest, hg⟩
  | false => exact absurd rfl hpaired

theorem Matched.readDepth_ne_zero (h : Matched m e g) (hmem : (k, true) ∈ (g u).guards) :
    m.readDepth u e k ≠ 0 := by
  intro hz
  have hdepth := h.depth u k
  rw [hz, Held.sections] at hdepth
  have hcount : 0 < (g u).guards.count (k, true) := List.count_pos_iff.2 hmem
  exact absurd hdepth (by rw [UInt32.toNat_zero]; omega)

theorem Matched.drop (h : Matched m e g) (hr : Reachable m) (hb : m.BuildsIdle)
    (hm : m.guardsOnly e g = true) (hp : (m.history e k).NoneStranded) (hd : m.Drops t e k o) :
    Matched (m.advance t) e (watch m (m.advance t) e g) := by
  have ht := hd.1
  have hl := isLive_of_active (hr.visited.orderly.turn t ht).1
  obtain ⟨n, hn, ha⟩ := hd.starts
  have hlive : (m.advance t).isLive t = true :=
    ha ▸ isLive_resume_leave ((isLive_of_status (hn.status t)).trans hl) e k o
  have hstack : guardsOn e (m.thread t).stack = k :: guardsOn e ((m.advance t).thread t).stack := by
    cases hn with
    | pop hs => rw [ha, stack_resume_leave, stack_pop, hs, guardsOn_leave]
  have hg : watch m (m.advance t) e g t = (g t).drop (!m.skips e) := by
    rw [watch, if_pos hlive, hstack, Held.follow_tail]
  have hst : guardsOn e ((m.advance t).thread t).stack =
      (watch m (m.advance t) e g t).guards.map Prod.fst := by
    obtain ⟨real, rest, hguards⟩ := h.innermost hd hr.visited.orderly
    have hall := h.stack t hl
    rw [hstack, hguards, List.map_cons] at hall
    rw [hg, (List.cons.inj hall).2, Held.drop, hguards]
  cases hs : m.skips e with
  | true =>
    have hsame := (hd.skipped hs).1
    obtain ⟨real, rest, hguards⟩ := h.innermost hd hr.visited.orderly
    refine h.turn hr hb ht (fun u k' _ => hsame u k') (fun k' => ?_) fun _ => hst
    rw [hg, hsame, h.depth, Held.sections_drop hguards (!m.skips e)]
    simp [hs]
  | false =>
    obtain ⟨rest, hguards⟩ := h.innermost_real hm hd hs hr.visited.orderly
    have hsections (k' : Kind) := Held.sections_drop hguards true k'
    have hne := h.readDepth_ne_zero (hguards ▸ List.mem_cons_self)
    obtain ⟨helse, hdepth⟩ := hd.inside hr hp hs hne
    refine h.turn hr hb ht (fun u k' hu => helse u e k' fun hc => hu hc.1) (fun k' => ?_) fun _ => hst
    rw [hg, hs]
    by_cases hk : k = k'
    · subst hk
      have hcount := h.depth t k
      have hpred := toNat_pred hne
      rw [hsections] at hcount
      rw [hdepth]
      simp at hcount ⊢
      omega
    · rw [helse t e k' fun hc => hk hc.2.2.symm, h.depth, hsections]
      simp [hk]

/-- What becomes of the guards in a run is what the depths show. -/
theorem Watched.matched (h : Watched e m g) (hp : ∀ k u, (u, .lockPanicked) ∉ m.history e k) :
    Matched m e g := by
  have hback {m m' : Machine} (hc : Changes m m') (hp : ∀ k u, (u, .lockPanicked) ∉ m'.history e k)
      (k : Kind) (u : Nat) : (u, .lockPanicked) ∉ m.history e k := by
    obtain ⟨vs, hh⟩ := hc.history e k
    exact fun hu => hp k u (hh ▸ List.mem_append_right vs hu)
  induction h with
  | new h => exact .new h
  | begin h s ih => exact (ih (hback (begin_changes _ s) hp)).begin h.reachable.visited.orderly s
  | @step m m' g h hb hm hs ih =>
    have hp₀ := hback (step_changes hb hs) hp
    have hmatched := ih hp₀
    rcases step_cases hs with ⟨t, ht, rfl⟩ | ⟨t, rest, hn, hr, rfl⟩
    · by_cases hdrop : ∃ k o, m.Drops t e k o
      · obtain ⟨k, o, hd⟩ := hdrop
        exact hmatched.drop h.reachable hb hm (History.noneStranded_of_not_mem (hp₀ k)) hd
      · exact hmatched.guardEffect h.reachable hb ht hp (h.reachable.guardEffect ht
          (not_raw_of_guardsOnly hm ht) fun k o hd => hdrop ⟨k, o, hd⟩)
    · have hsame (u : Nat) : watch m { m with turn := some t, ready := rest } e g u = g u :=
        watch_of_same rfl
      have hg : watch m { m with turn := some t, ready := rest } e g = g := funext hsame
      rw [hg]
      exact hmatched.keep (fun _ _ => rfl) hmatched.stack (Nat.le_refl _)

theorem unpin_eq (m : Machine) (t : Nat) (p : Access) : (m.unpin t p).2 =
    if (m.view t p.scheduler).pinDepth = 0 then .error .unpinned else .ok () := by
  have hview : (m.record t p .unpin).view t p.scheduler = m.view t p.scheduler := by
    unfold record
    split
    · exact view_of_eq rfl rfl
    · rfl
  rw [← hview]
  rfl

theorem readUnlock_inside (hn : m.NestsUnique) (ha : Accounts m e k) (hs : m.skips e = false)
    (hd : m.readDepth t e k ≠ 0) : (m.readUnlock t e k).2 =
      if (m.view t (m.engine e).access.scheduler).pinDepth = 0 then .error .unpinned else .ok () := by
  have hi : Inside t m (m.closeSection t e k).1 := .closeSection ..
  simp only [readUnlock, hs, Bool.false_eq_true, if_false, closeSection_ok hn ha hd]
  rw [unpin_eq, hi.access e, view_of_eq (by rw [hi.eq]) (hi.part Thread.tasks (fun _ _ => rfl) t)]

theorem Drops.answer (h : m.Drops t e k o) (hr : Reachable m) (hp : (m.history e k).NoneStranded)
    (hs : m.skips e = false) (hd : m.readDepth t e k ≠ 0) : ((m.advance t).thread t).control = .back
      (if (m.view t (m.engine e).access.scheduler).pinDepth = 0 then .error (.fault .unpinned) else o) := by
  obtain ⟨n, hn, ha⟩ := h.starts
  have hview (s : Nat) : n.view t s = m.view t s := by
    cases hn with
    | pop hs => exact view_of_eq rfl (part_modifyThread Thread.tasks m t t fun _ => rfl)
  have hengine : n.engine e = m.engine e := by
    cases hn with
    | pop hs => rfl
  have hh : n.history e k = m.history e k := by
    cases hn with
    | pop hs => rfl
  have hv := (hn.visited h.1 hr.visited).2
  have hunlock := readUnlock_inside hv.nestsUnique (hv.accounts (hh ▸ hp)) (hn.skips.trans hs)
    (show n.readDepth t e k ≠ 0 from hn.readDepth t e k ▸ hd)
  rw [hengine, hview] at hunlock
  rw [ha]
  split
  · rename_i hzero
    rw [if_pos hzero] at hunlock
    rw [resume_leave_error hunlock]
    exact control_back ..
  · rename_i hpinned
    rw [if_neg hpinned] at hunlock
    rw [resume_leave_ok hunlock]
    exact control_back ..

theorem Drops.unlocks? (h : m.Drops t e k o) : m.unlocks? t = some (e, k) := by
  obtain ⟨-, hc, rest, hs⟩ := h
  rw [Machine.unlocks?, hc, hs]

theorem Watched.pinDepth (h : Watched e m g) (hd : m.Drops t e k o) (hp : m.LocksReturned)
    (hcap : m.threads.size < SlotArray.capacity) (s : Nat) :
    (m.view t s).pinDepth = UInt32.ofNat (m.nesting t s) := by
  obtain ⟨workers, host, m₀, steps, h₀, htrail, hc⟩ := h.trail
  have hr := h.reachable
  have hl := isLive_of_active (hr.visited.orderly.turn t hd.1).1
  have hpinState : PinState true t s m :=
    htrail.pinState h₀ (hc t) (fun _ _ _ _ => rfl) nofun (.of_isLive hp hcap hl)
  obtain ⟨x, hx, hb⟩ := (hpinState.pinnedAsNested_of_asks (.inr (hd.unlocks? ▸ nofun))).pinsAgree
  exact (hx.view (b := true) fun i hi => hr.room hcap hi).pinDepth.trans hb.pinDepth

/-- Guards protect, and the depths count them, in both domains of an engine. -/
structure GuardProtection (m : Machine) (e : Nat) (g : Nat → Held) : Prop where
  /-- From its creation until it is dropped. -/
  guarded : ∀ u k, (k, true) ∈ (g u).guards → ∃ w i, Protected m u e k w i
  depth : ∀ u k, (m.readDepth u e k).toNat = (g u).sections k
  /-- A thread without guards that has dropped none in a halt is outside. -/
  outside : ∀ u, (g u).guards = [] → (g u).left = [] → ∀ k, m.readDepth u e k = 0
  /-- In a halt the drop of a guard does nothing. -/
  halted : ∀ t k o, m.Drops t e k o → m.skips e = true →
    (∀ u k', (m.advance t).readDepth u e k' = m.readDepth u e k') ∧
      ((m.advance t).thread t).control = .back o
  /-- Otherwise it ends the section of the guard. It panics where the pin depth, which counts the sections
  of the thread on the scheduler, has wrapped around to zero. -/
  ended : ∀ t k o rest, m.Drops t e k o → m.skips e = false → (g t).guards = (k, true) :: rest →
    Elsewhere t e k m (m.advance t) ∧
      (m.advance t).readDepth t e k + 1 = m.readDepth t e k ∧
      ((m.advance t).thread t).control = .back
        (if UInt32.ofNat (m.nesting t (m.engine e).access.scheduler) = 0 then
          .error (.fault .unpinned) else o)
  /-- No drop panics, as long as the pin depth can count the sections. -/
  returns : ∀ t k o, m.Drops t e k o → m.guardsOnly e g = true →
    m.nesting t (m.engine e).access.scheduler < 2 ^ 32 → ((m.advance t).thread t).control = .back o
  /-- Where the guard has none, it panics, or it ends a section that is not its own. -/
  mistaken : ∀ t k o rest, m.Drops t e k o → m.skips e = false → (g t).guards = (k, false) :: rest →
    if m.readDepth t e k = 0 then
      ((m.advance t).thread t).control = .back (.error (.fault (.unlockOutside k)))
    else (m.advance t).readDepth t e k + 1 = m.readDepth t e k

theorem guards_protect (h : Watched e m g) (hp : m.LocksReturned)
    (hcap : m.threads.size < SlotArray.capacity) : GuardProtection m e g := by
  have hm := h.matched fun k u => hp u e k
  have hr := h.reachable
  have hns (k : Kind) : (m.history e k).NoneStranded := History.noneStranded_of_not_mem fun u => hp u e k
  have hinside {t : Nat} {k : Kind} {o : Outcome} (hd : m.Drops t e k o) (hs : m.skips e = false)
      (hne : m.readDepth t e k ≠ 0) : (m.advance t).readDepth t e k + 1 = m.readDepth t e k := by
    rw [(hd.inside hr (hns k) hs hne).2, UInt32.sub_add_cancel]
  have hanswer {t : Nat} {k : Kind} {o : Outcome} {rest : List (Kind × Bool)} (hd : m.Drops t e k o)
      (hs : m.skips e = false) (hg : (g t).guards = (k, true) :: rest) :
      ((m.advance t).thread t).control = .back
        (if UInt32.ofNat (m.nesting t (m.engine e).access.scheduler) = 0 then
          .error (.fault .unpinned) else o) := by
    rw [hd.answer hr (hns k) hs (hm.readDepth_ne_zero (hg ▸ List.mem_cons_self)),
      h.pinDepth hd hp hcap]
  refine ⟨fun u k hmem => ?_, hm.depth, fun u hg hl k => ?_, fun t k o hd hs => hd.skipped hs,
    fun t k o rest hd hs hg => ?_, fun t k o hd honly hlt => ?_, fun t k o rest hd hs hg => ?_⟩
  · obtain ⟨⟨w, i⟩, hplace⟩ := Option.ne_none_iff_exists'.1
      (mt readDepth_eq_zero.2 (hm.readDepth_ne_zero hmem))
    exact ⟨w, i, hr.visited.protected_of_place (hns k) hplace⟩
  · rw [← UInt32.toNat_inj, hm.depth, Held.sections, hg, hl]
    rfl
  · have hne := hm.readDepth_ne_zero (hg ▸ List.mem_cons_self)
    exact ⟨(hd.inside hr (hns k) hs hne).1, hinside hd hs hne, hanswer hd hs hg⟩
  · cases hs : m.skips e with
    | true => exact (hd.skipped hs).2
    | false =>
      obtain ⟨rest, hg⟩ := hm.innermost_real honly hd hs hr.visited.orderly
      have hne := hm.readDepth_ne_zero (hg ▸ List.mem_cons_self)
      rw [hanswer hd hs hg, if_neg (ofNat_ne_zero (hp.nesting_ne_zero hr.visited rfl hne) hlt)]
  · split
    · rename_i hz
      exact (hd.outside hr hs hz).2
    · rename_i hne
      exact hinside hd hs hne

def watchRun (e : Nat) : Nat → Machine → (Nat → Held) → Nat → Held
  | 0, _, g => g
  | fuel + 1, m, g =>
    match m.step with
    | none => g
    | some m' => watchRun e fuel m' (watch m m' e g)

def runsGuardsOnly (e : Nat) : Nat → Machine → (Nat → Held) → Bool
  | 0, _, _ => true
  | fuel + 1, m, g =>
    m.buildsPlain && m.guardsOnly e g &&
      match m.step with
      | none => true
      | some m' => runsGuardsOnly e fuel m' (watch m m' e g)

theorem Watched.run (h : Watched e m g) (fuel : Nat) (hr : runsGuardsOnly e fuel m g = true) :
    Watched e (m.run fuel) (watchRun e fuel m g) := by
  induction fuel generalizing m g with
  | zero => exact h
  | succ fuel ih =>
    rw [runsGuardsOnly, Bool.and_eq_true, Bool.and_eq_true] at hr
    obtain ⟨⟨hb, hm⟩, hr⟩ := hr
    cases hs : m.step with
    | none =>
      rw [Machine.run, watchRun, hs]
      exact h
    | some m' =>
      rw [hs] at hr
      rw [Machine.run, watchRun, hs]
      exact ih (h.step (buildsIdle_of_buildsPlain hb) hm hs) hr

theorem watched_sample : Watched 0 sample
    (watchRun 0 stepLimit ((Machine.begin { schedulers := ⟨[{ workers := 1 }]⟩, named := 1 }
      (.act 0 (.build 0 { scheduler := some 0, seeds := [0xFFFFFFFF] }))).1) fun _ => {}) :=
  ((Watched.new (@rfl _ (Machine.new [1] 1))).begin _).run _ (by decide +kernel)

/-- A thread sets the halt and clears it again inside a guard, and another guard comes and goes in
between. -/
def haltedWithin : Machine :=
  (sample.begin (.act 0 (.guard 0 false .regular true
    [.logical 0 (.setHalted true), .guard 0 false .sleepable true [], .logical 0 (.setHalted false)]))).1

/-- The inner guard is dropped in the halt, and nothing happens; the outer one protects all the time, and
when it is dropped after the halt, the thread is outside again. -/
theorem guard_outlasts_halt :
    ((haltedWithin.run 6).skips 0 = true ∧ (∃ w i, Protected (haltedWithin.run 6) 0 0 .regular w i) ∧
      ∃ o, (haltedWithin.run 6).Drops 0 0 .sleepable o ∧
        (((haltedWithin.run 6).advance 0).thread 0).control = .back o) ∧
    ((haltedWithin.run 13).skips 0 = false ∧ (∃ w i, Protected (haltedWithin.run 13) 0 0 .regular w i) ∧
      ∃ o, (haltedWithin.run 13).Drops 0 0 .regular o ∧
        (((haltedWithin.run 13).advance 0).thread 0).control = .back o ∧
        ((haltedWithin.run 13).advance 0).readDepth 0 0 .regular = 0) := by
  have hw : Watched 0 haltedWithin _ := watched_sample.begin _
  have hin : GuardProtection (haltedWithin.run 6) 0 _ :=
    guards_protect (hw.run 6 (by decide +kernel)) (.of_trace (by decide +kernel)) (by decide +kernel)
  have hout : GuardProtection (haltedWithin.run 13) 0 _ :=
    guards_protect (hw.run 13 (by decide +kernel)) (.of_trace (by decide +kernel)) (by decide +kernel)
  have hinner : (haltedWithin.run 6).Drops 0 0 .sleepable (.ok (.guarded .sleepable [])) :=
    ⟨rfl, rfl, _, rfl⟩
  have houter : (haltedWithin.run 13).Drops 0 0 .regular
      (.ok (.guarded .regular [.unit, .guarded .sleepable [], .unit])) := ⟨rfl, rfl, _, rfl⟩
  have hgoing : (haltedWithin.run 13).skips 0 = false := by decide +kernel
  have hone : (haltedWithin.run 13).readDepth 0 0 .regular = 1 := by decide +kernel
  obtain ⟨-, hdepth, -⟩ := hout.ended 0 .regular _ [] houter hgoing (by decide +kernel)
  have hback := hout.returns 0 .regular _ houter (by decide +kernel) (by decide +kernel)
  refine ⟨⟨by decide +kernel, hin.guarded 0 .regular (by decide +kernel), _, hinner, ?_⟩,
    hgoing, hout.guarded 0 .regular (by decide +kernel), _, houter, ?_, ?_⟩
  · exact (hin.halted 0 .sleepable _ hinner (by decide +kernel)).2
  · exact hback
  · simpa using hdepth.trans hone

/-- A guard is created in a halt and dropped after it, inside another guard of its kind. -/
def haltedAcross : Machine :=
  (sample.begin (.act 0 (.guard 0 false .regular true
    [.logical 0 (.setHalted true), .guard 0 false .regular true [.logical 0 (.setHalted false)]]))).1

/-- The outer guard is created in no halt and not dropped until step 13. But it protects only up to step 9,
when the other guard is dropped; and in the end its own drop panics. -/
theorem halted_guard_ends_another :
    (Reachable (haltedAcross.run 13) ∧
      ∀ k u, (u, .lockPanicked) ∉ (haltedAcross.run 13).history 0 k) ∧
    ((haltedAcross.run 2).skips 0 = false ∧
      guardsOn 0 ((haltedAcross.run 2).thread 0).stack = [.regular] ∧
      (haltedAcross.run 2).readDepth 0 0 .regular = 1) ∧
    ((haltedAcross.run 9).skips 0 = false ∧
      (∃ o, (haltedAcross.run 9).Drops 0 0 .regular o) ∧
      guardsOn 0 ((haltedAcross.run 9).thread 0).stack = [.regular, .regular]) ∧
    (guardsOn 0 ((haltedAcross.run 13).thread 0).stack = [.regular] ∧
      (haltedAcross.run 13).readDepth 0 0 .regular = 0 ∧
      (∀ w i, ¬Protected (haltedAcross.run 13) 0 0 .regular w i) ∧
      (∃ o, (haltedAcross.run 13).Drops 0 0 .regular o) ∧
      (((haltedAcross.run 13).advance 0).thread 0).control =
        .back (.error (.fault (.unlockOutside .regular)))) := by
  refine ⟨⟨(reachable_sample.begin _).run (by decide +kernel), ?_⟩,
    ⟨by decide +kernel, by decide +kernel, by decide +kernel⟩,
    ⟨by decide +kernel, ⟨_, rfl, rfl, _, rfl⟩, by decide +kernel⟩,
    by decide +kernel, by decide +kernel, fun w i hp => ?_, ⟨_, rfl, rfl, _, rfl⟩, rfl⟩
  · rintro (_ | _) u hu
    · have hu : (u, Mark.lockPanicked) ∈
        [(0, Mark.closed 0 0), (0, Mark.skipped), (0, Mark.opened 0 0)] := hu
      simp at hu
    · cases (show _ ∈ [] from hu)
  · have hplace : (haltedAcross.run 13).place 0 0 .regular = none := by decide +kernel
    cases hplace.symm.trans hp.place

end Machine

end GracePeriod
