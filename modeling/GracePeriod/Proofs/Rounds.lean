import GracePeriod.Proofs.LostTurns
import GracePeriod.Proofs.GraceWaits

namespace GracePeriod

open Machine

namespace GraceWait

def Blocks (v : GraceWait) (m : Machine) (w : Nat) : Prop :=
  let d := m.domain v.engine v.kind
  w < d.workers ∧ (d.records.get w).registered = true ∧ (d.records.get w).word.blocks v.target = true

def Lowest (v : GraceWait) (m : Machine) (w : Nat) : Prop := v.Blocks m w ∧ ∀ u < w, ¬v.Blocks m u

/-- The looks and the calls of a round, the last one first. -/
inductive Round (v : GraceWait) : List Machine → List Event → Prop
  | here {l : Machine} {w : Nat} {vs : List Event} (hb : v.Lowest l w) (hw : v.worker l = w)
      (hg : v.GivesWay l w vs) : Round v [l] vs
  /-- Between the looks the waiter has gone over to the worker that blocks it. -/
  | there {l l' : Machine} {w : Nat} {vs : List Event} (hb : v.Lowest l w) (hw : v.worker l ≠ w)
      (hb' : v.Lowest l' w) (hw' : v.worker l' = w) (hg : v.GivesWay l' w vs) :
      Round v [l', l] (vs ++ [.bind w, .setPriority .highest])

inductive Rounds (v : GraceWait) : List Machine → List Event → Prop
  | nil : Rounds v [] []
  | cons {ls ls' : List Machine} {vs vs' : List Event} (h : v.Round ls' vs') (hs : Rounds v ls vs) :
      Rounds v (ls' ++ ls) (vs' ++ vs)

end GraceWait

variable {v : GraceWait} {m m' l l' : Machine} {i u w : Nat} {x : Task} {ls ls' : List Machine}
  {vs vs' : List Event}

namespace GraceWait

theorem blocks_iff : v.Blocks m w ↔ w < (m.domain v.engine v.kind).workers ∧
    (m.domain v.engine v.kind).isBlocker v.target w = true := by
  rw [Blocks, Domain.isBlocker, Bool.and_eq_true]

theorem blocker?_eq_none : v.blocker? m = none ↔ ∀ w, ¬v.Blocks m w := by
  simp only [blocker?, Domain.firstBlocker?, List.find?_eq_none, List.mem_range, blocks_iff, not_and]

theorem blocker?_eq_some : v.blocker? m = some w ↔ v.Lowest m w := by
  rw [blocker?, Domain.firstBlocker?, List.find?_range_eq_some, Lowest, blocks_iff, List.mem_range]
  constructor
  · rintro ⟨hb, hlt, hn⟩
    refine ⟨⟨hlt, hb⟩, fun u hu hbu => ?_⟩
    have hnot := hn u hu
    rw [(blocks_iff.1 hbu).2] at hnot
    cases hnot
  · rintro ⟨⟨hlt, hb⟩, hn⟩
    refine ⟨hb, hlt, fun u hu => ?_⟩
    rw [Bool.not_eq_true', Bool.eq_false_iff]
    exact fun hbu => hn u hu (blocks_iff.2 ⟨hu.trans hlt, hbu⟩)

end GraceWait

/-- How often the caller has been bound since it has parked last. -/
def bindsSincePark : List Event → Nat
  | [] => 0
  | .bind _ :: vs => bindsSincePark vs + 1
  | .yield :: _ | .pause _ :: _ => 0
  | _ :: vs => bindsSincePark vs

/-- There is never more than one call of `bind` before the next time to park. -/
def SeldomBinds (vs : List Event) : Prop := ∀ ws, ws <:+ vs → bindsSincePark ws ≤ 1

theorem SeldomBinds.cons {c : Event} (h : SeldomBinds vs)
    (hc : bindsSincePark (c :: vs) ≤ 1) : SeldomBinds (c :: vs) := by
  intro ws hws
  rcases List.suffix_cons_iff.1 hws with rfl | hws
  · exact hc
  · exact h ws hws

theorem SeldomBinds.move (h : SeldomBinds vs) (h0 : bindsSincePark vs = 0)
    (w : Nat) (q : Priority) : SeldomBinds (.bind w :: .setPriority q :: vs) := by
  have hq : bindsSincePark (.setPriority q :: vs) = 0 := h0
  have hw : bindsSincePark (.bind w :: .setPriority q :: vs) = 1 := by rw [bindsSincePark, hq]
  exact (h.cons (hq.trans_le (Nat.zero_le 1))).cons (Nat.le_of_eq hw)

theorem Machine.GivesWay.seldomBinds {p : Access} {ids : List Nat} {micros : Nat}
    {ws : List Event} (hg : m.GivesWay p ids micros ws) (h : SeldomBinds vs)
    (hle : bindsSincePark vs ≤ 1) :
    bindsSincePark (ws ++ vs) = 0 ∧ SeldomBinds (ws ++ vs) := by
  cases hg with
  | pause id hid hi => exact ⟨rfl, h.cons (Nat.zero_le 1)⟩
  | yield q hi hq hle' =>
    have hs : SeldomBinds (.setPriority q :: vs) := h.cons hle
    exact ⟨rfl, hs.cons (Nat.zero_le 1)⟩

namespace GraceWait

theorem Rounds.seldomBinds (h : v.Rounds ls vs) : bindsSincePark vs = 0 ∧ SeldomBinds vs := by
  induction h with
  | nil => exact ⟨rfl, fun ws hws => by rw [List.suffix_nil.1 hws]; exact Nat.zero_le 1⟩
  | cons hr hs ih =>
    obtain ⟨h0, h1⟩ := ih
    cases hr with
    | here hb hw hg => exact hg.seldomBinds h1 (h0.trans_le (Nat.zero_le 1))
    | @there l l' w ws hb hw hb' hw' hg =>
      rw [List.append_assoc]
      exact hg.seldomBinds (h1.move h0 w .highest) (h1.move h0 w .highest _ List.suffix_rfl)

structure Arrived (v : GraceWait) (m : Machine) (w : Nat) : Prop where
  turn : m.turn = some v.thread
  stack : (m.thread v.thread).stack = v.frame :: v.rest
  control : ∃ r, (m.thread v.thread).control = .back (.ok r)
  blocker : v.blocker? m = some w
  worker : v.worker m = w

theorem Arrived.atLook (h : v.Arrived m w) : v.atLook m = true := by
  obtain ⟨r, hc⟩ := h.control
  exact atLook_of_looking h.turn h.stack hc

/-- The looks and the calls of a waiter that waits on. -/
inductive Progress (v : GraceWait) (m : Machine) : List Machine → List Event → Prop
  | between {ls : List Machine} {vs : List Event} (h : v.Rounds ls vs) : Progress v m ls vs
  | midway {l : Machine} {w : Nat} {ls : List Machine} {vs : List Event} (h : v.Rounds ls vs)
      (hb : v.Lowest l w) (hw : v.worker l ≠ w) (hn : v.Arrived m w ∨ m.OutOfTurns v.thread) :
      Progress v m (l :: ls) (.bind w :: .setPriority .highest :: vs)

theorem Progress.other (h : v.Progress m ls vs) (ho : Orderly m) (hc : Changes m m')
    (ht : m.turn ≠ some v.thread) : v.Progress m' ls vs := by
  cases h with
  | between h => exact .between h
  | midway h hb hw hn =>
    refine .midway h hb hw (.inr ?_)
    exact (hn.resolve_left fun ha => ht ha.turn).changes ho hc

theorem Spared.worker_eq (h : v.Spared m m') (ha : v.StillWaits i ls m) (hi : i < SlotArray.capacity) :
    v.worker m' = v.worker m := by
  obtain ⟨x, hx, -⟩ := ha.stands
  exact ((h.stands i x hx).worker_eq hi).trans (hx.worker_eq hi).symm

theorem Arrived.external (h : v.Arrived m w) (hv : Visited m) (he : External m m')
    (ha : v.StillWaits i ls m) (hi : i < SlotArray.capacity) :
    v.Arrived m' w ∨ m'.OutOfTurns v.thread := by
  have hactive := (hv.orderly.turn _ h.turn).1
  have hpark : m.isParked v.thread = false := by rw [isParked, hactive]
  have hidle : m.isIdle v.thread = false := by rw [isIdle, hactive]
  rcases he.turn_or_outOfTurns hv.orderly h.turn with ht | hm
  · refine .inl ⟨ht, (he.stack hv.orderly _).trans h.stack, ?_, ?_, ?_⟩
    · rw [he.control_eq hpark hidle]
      exact h.control
    · rw [blocker?, domain, Machine.engine, he.keepsEngines.engines]
      exact h.blocker
    · have hs : v.Spared m m' := .external he hv ha.stack_ne_nil
      exact (hs.worker_eq ha hi).trans h.worker
  · exact .inr hm

theorem Progress.external (h : v.Progress m ls vs) (hv : Visited m) (he : External m m')
    (ha : v.StillWaits i ls' m) (hi : i < SlotArray.capacity) : v.Progress m' ls vs := by
  cases h with
  | between h => exact .between h
  | midway h hb hw hn =>
    refine .midway h hb hw ?_
    rcases hn with hn | hn
    · exact hn.external hv he ha hi
    · exact .inr (hn.change hv.orderly (.external he))

theorem Progress.between_of_idle (h : v.Progress m ls vs) (ht : m.turn = some v.thread)
    (hl : v.atLook m = false) : v.Rounds ls vs := by
  cases h with
  | between h => exact h
  | midway h hb hw hn =>
    rcases hn with hn | hn
    · rw [hn.atLook] at hl
      cases hl
    · exact absurd ht hn.turn

inductive Over (v : GraceWait) (m : Machine) : List Machine → List Event → Prop
  | returned {l : Machine} {ls : List Machine} {vs : List Event} (h : v.Rounds ls vs)
      (hb : ∀ w, ¬v.Blocks l w) (hs : (m.thread v.thread).stack = v.rest)
      (hc : (m.thread v.thread).control = .back (.ok .unit)) : Over v m (l :: ls) vs
  | thrown {ls : List Machine} {vs : List Event} (h : v.Rounds ls vs)
      (hs : (m.thread v.thread).stack = v.rest) (q : Payload)
      (hc : (m.thread v.thread).control = .back (.error q)) : Over v m ls vs

theorem GoesOn.called {goal : Option Nat} (h : v.GoesOn vs goal m m')
    (hr : v.access.recorded = true) : m'.called v.thread = vs ++ m.called v.thread := by
  obtain ⟨f, -, ha⟩ := h.answers
  rw [ha.called, if_pos hr]

theorem Ends.called {o : Outcome} (h : v.Ends vs o m m') (hr : v.access.recorded = true) :
    m'.called v.thread = v.snapshot.calls ++ vs ++ m.called v.thread := by
  obtain ⟨f, -, ha⟩ := h.answers
  rw [ha.called, if_pos hr]

theorem GoesOn.arrived (h : v.GoesOn vs (v.movesTo? m) m m') (ha : v.StillWaits i ls m)
    (hi : i < SlotArray.capacity) (hb : v.blocker? m = some w) (hw : v.worker m ≠ w)
    (hlt : w < (v.scheduler m).workers) (hs : (m'.thread v.thread).stack = v.frame :: v.rest)
    (ht : m'.turn = some v.thread) : v.Arrived m' w := by
  obtain ⟨f, hf, hans⟩ := h.answers
  obtain ⟨x, hx, -⟩ := ha.stands
  refine ⟨ht, hs, h.control, ?_, ?_⟩
  · rw [blocker?, domain, Machine.engine, hans.engines]
    exact hb
  · refine ((hans.stands i x hx).worker_eq hi).trans ?_
    rw [hf, movesTo?_of_ne hb hw, if_pos hlt]
    rfl

theorem Progress.lookResult (h : v.Progress m ls vs) (ha : v.StillWaits i ls m) (hi : i < SlotArray.capacity)
    (ht : m.turn = some v.thread) (hl : ¬m.Lost v.engine v.kind v.target)
    (hr : v.access.recorded = true) (hg : v.LookResult m m') :
    (∃ ws, v.GoesOn ws (v.movesTo? m) m m' ∧ v.Progress m' (m :: ls) (ws ++ vs)) ∨
      m'.called v.thread = v.snapshot.calls ++ m.called v.thread ∧ v.Over m' (m :: ls) vs := by
  cases h with
  | between h =>
    cases hg with
    | ended hb he =>
      have hc := he.called hr
      rw [List.append_nil] at hc
      exact .inr ⟨hc, .returned h (blocker?_eq_none.1 hb) he.stack he.control⟩
    | lost hlost hm ws q he => exact absurd hlost hl
    | stayed w ws hb hw hgives hgo hp =>
      exact .inl ⟨ws, hgo, .between (.cons (.here (blocker?_eq_some.1 hb) hw hgives) h)⟩
    | moved w hb hw hlt hgo hs hturn =>
      exact .inl ⟨_, hgo, .midway h (blocker?_eq_some.1 hb) hw
        (.inl (hgo.arrived ha hi hb hw hlt hs (hturn.trans ht)))⟩
  | @midway l w ls vs h hb hw hn =>
    have harr := hn.resolve_right fun hn => hn.turn ht
    cases hg with
    | ended hb' he => cases hb'.symm.trans harr.blocker
    | lost hlost hm ws q he => exact absurd hlost hl
    | stayed w' ws hb' hw' hgives hgo hp =>
      obtain rfl : w' = w := Option.some.inj (hb'.symm.trans harr.blocker)
      have hround := Rounds.cons (.there hb hw (blocker?_eq_some.1 hb') hw' hgives) h
      rw [List.append_assoc] at hround
      exact .inl ⟨ws, hgo, .between hround⟩
    | moved w' hb' hw' =>
      obtain rfl : w' = w := Option.some.inj (hb'.symm.trans harr.blocker)
      exact absurd harr.worker hw'

structure Waits (v : GraceWait) (i : Nat) (start : List Event) (ls : List Machine) (m : Machine) : Prop where
  stillWaits : v.StillWaits i ls m
  progress : ∃ vs, m.called v.thread = vs ++ start ∧ v.Progress m ls vs

/-- The calls since the beginning `start`, when the call is over. -/
def Concluded (v : GraceWait) (start : List Event) (ls : List Machine) (m : Machine) : Prop :=
  ∃ vs, m.called v.thread = v.snapshot.calls ++ (vs ++ start) ∧ v.Over m ls vs

variable {start : List Event} {steps : List (Machine × Machine)}

theorem Waits.slot_lt (h : v.Waits i start ls m) (hr : Reachable m)
    (hlt : m.threads.size < SlotArray.capacity) : i < SlotArray.capacity := by
  obtain ⟨x, hx, -⟩ := h.stillWaits.stands
  exact ((hr.placed hlt).1.has _ _ _ hx.task?).1

theorem Waits.spared (h : v.Waits i start ls m) (hs : v.Spared m m') (hst : v.InCall m')
    (hc : ∃ o, (m'.thread v.thread).control = .back o)
    (hp : ∀ vs, v.Progress m ls vs → v.Progress m' ls vs) : v.Waits i start ls m' := by
  obtain ⟨vs, hcalled, hprog⟩ := h.progress
  exact ⟨h.stillWaits.spared hs hst hc, vs, hs.called.trans hcalled, hp vs hprog⟩

theorem Waits.look (h : v.Waits i start ls m) (hi : i < SlotArray.capacity)
    (ht : m.turn = some v.thread) (hl : ¬m.Lost v.engine v.kind v.target)
    (hrec : v.access.recorded = true) (hg : v.LookResult m m') :
    v.Waits i start (m :: ls) m' ∨ v.Concluded start (m :: ls) m' := by
  obtain ⟨vs, hcalled, hprog⟩ := h.progress
  rcases hprog.lookResult h.stillWaits hi ht hl hrec hg with ⟨ws, hgo, hp⟩ | ⟨hc, ho⟩
  · refine .inl ⟨hgo.stillWaits h.stillWaits (goal_cons ..), ws ++ vs, ?_, hp⟩
    rw [hgo.called hrec, hcalled, List.append_assoc]
  · exact .inr ⟨vs, by rw [hc, hcalled], ho⟩

theorem Waits.step (h : v.Waits i start (v.looks steps) m) (hrec : v.access.recorded = true)
    (hr : Reachable m) (hlt : m.threads.size < SlotArray.capacity) (hb : m.BuildsIdle)
    (hs : m.step = some m') :
    v.Waits i start (v.looks ((m, m') :: steps)) m' ∨
      v.Concluded start (v.looks ((m, m') :: steps)) m' := by
  rw [looks_cons]
  cases h.stillWaits.waiterStep hr hb hs with
  | idle hl hsp hst hc =>
    rw [if_neg (by rw [hl]; exact Bool.false_ne_true)]
    refine .inl (h.spared hsp hst hc fun vs hp => ?_)
    by_cases ht : m.turn = some v.thread
    · exact .between (hp.between_of_idle ht hl)
    · exact hp.other hr.visited.orderly (step_changes hb hs) ht
  | thrown hl ht q he =>
    rw [if_neg (by rw [hl]; exact Bool.false_ne_true)]
    obtain ⟨vs, hcalled, hprog⟩ := h.progress
    have hc := he.called hrec
    rw [List.append_nil, hcalled] at hc
    exact .inr ⟨vs, hc, .thrown (hprog.between_of_idle ht hl) he.stack q he.control⟩
  | look hl ht hg =>
    rw [if_pos hl]
    exact h.look (h.slot_lt hr hlt) ht (hr.not_lost hlt) hrec hg

theorem Concluded.stack (h : v.Concluded start ls m) : (m.thread v.thread).stack = v.rest := by
  obtain ⟨vs, -, ho⟩ := h
  cases ho with
  | returned h hb hs hc | thrown h hs q hc => exact hs

theorem Waits.begin (h : v.Waits i start ls m) (hr : Reachable m)
    (hlt : m.threads.size < SlotArray.capacity) (s : Script.Step) :
    v.Waits i start ls (m.begin s).1 := by
  have hi := h.slot_lt hr hlt
  refine hr.visited.begin_preserves (P := fun n => v.Waits i start ls n) s (fun n n' hv he hn => ?_) h
  obtain ⟨vs, hc, hprog⟩ := hn.progress
  have hsp : v.Spared n n' := .external he hv hn.stillWaits.stack_ne_nil
  exact ⟨hn.stillWaits.external hv he, vs, hsp.called.trans hc, hprog.external hv he hn.stillWaits hi⟩

/-- Whatever happens meanwhile, the call goes on round by round until it is over. -/
theorem Waits.trail {m₀ : Machine} (h₀ : v.Waits i start [] m₀) (hrec : v.access.recorded = true)
    (hr : Reachable m₀) (h : Trail (above v.thread v.rest) m₀ m steps)
    (hlt : m.threads.size < SlotArray.capacity) :
    v.Waits i start (v.looks steps) m ∨ v.Concluded start (v.looks steps) m := by
  -- threads do not go away, so there have been fewer than slots all the time
  have hall := h.underway hr
    (P := fun ls n => n.threads.size < SlotArray.capacity → v.Waits i start (v.looks ls) n)
    (Q := fun ls n => v.Concluded start (v.looks ls) n) (fun _ _ hq => hq.stack)
    (fun ls n s hn hw hlt => by
      have hlt := Nat.lt_of_le_of_lt (begin_changes n s).threads_le hlt
      exact (hw hlt).begin hn hlt s)
    (fun ls n n' hn hb hs hw => by
      by_cases hlt : n.threads.size < SlotArray.capacity
      · exact ((hw hlt).step hrec hn hlt hb hs).imp_left fun hw _ => hw
      · exact .inl fun hlt' => absurd (Nat.lt_of_le_of_lt (step_changes hb hs).threads_le hlt') hlt)
    fun _ => h₀
  exact hall.imp_left fun hw => hw hlt

/-- The waiter parks or returns. -/
def Rests (v : GraceWait) (m : Machine) : Prop :=
  m.isParked v.thread = true ∨ (m.thread v.thread).stack = v.rest

theorem run_turn (ht : m.turn = some u) (j : Nat) : m.run (j + 1) = (m.advance u).run j := by
  rw [run, step, ht]

theorem Arrived.rests (h : v.Arrived m w) (ha : v.StillWaits i ls m) (hrec : v.access.recorded = true) :
    v.Rests (m.advance v.thread) := by
  obtain ⟨r, hc⟩ := h.control
  cases GraceWait.lookResult h.stack hc ha.access ha.worker_lt with
  | ended hb he => exact .inr he.stack
  | lost hl hm vs q he => exact .inr he.stack
  | stayed w vs hb hw hg hgo hp => exact .inl (hp hrec)
  | moved w' hb hw =>
    obtain rfl : w' = w := Option.some.inj (hb.symm.trans h.blocker)
    exact absurd h.worker hw

theorem StillWaits.rests_of_looking (h : v.StillWaits i ls m) (hi : i < SlotArray.capacity)
    (hrec : v.access.recorded = true) (ht : m.turn = some v.thread)
    (hs : (m.thread v.thread).stack = v.frame :: v.rest) : ∃ j ≤ 2, v.Rests (m.run j) := by
  have hone : v.Rests (m.advance v.thread) → ∃ j ≤ 2, v.Rests (m.run j) := fun hrest =>
    ⟨1, by omega, by rw [run_turn ht]; exact hrest⟩
  obtain ⟨o, hc⟩ := h.control
  cases o with
  | error q => exact hone (.inr (GraceWait.thrown hs hc h.access h.worker_lt).stack)
  | ok r =>
    cases GraceWait.lookResult hs hc h.access h.worker_lt with
    | ended hb he => exact hone (.inr he.stack)
    | lost hl hm vs q he => exact hone (.inr he.stack)
    | stayed w vs hb hw hg hgo hp => exact hone (.inl (hp hrec))
    | moved w hb hw hlt hgo hs' ht' =>
      have harr := hgo.arrived h hi hb hw hlt hs' (ht'.trans ht)
      refine ⟨2, Nat.le_refl _, ?_⟩
      rw [run_turn ht, run_turn harr.turn]
      exact harr.rests (hgo.stillWaits h (goal_cons ..)) hrec

/-- Once it has the turn, the waiter parks or returns after three steps at most: the end of a pause, a
look that makes it move, and one that does not. -/
theorem StillWaits.rests (h : v.StillWaits i ls m) (hi : i < SlotArray.capacity)
    (hw : ∀ s, (m.scheduler s).tasks.WellFormed) (hrec : v.access.recorded = true)
    (ht : m.turn = some v.thread) : ∃ j ≤ 3, v.Rests (m.run j) := by
  cases h.stack with
  | looking hs =>
    obtain ⟨j, hj, hrest⟩ := h.rests_of_looking hi hrec ht hs
    exact ⟨j, by omega, hrest⟩
  | pausing id hs =>
    obtain ⟨o, hc⟩ := h.control
    obtain ⟨hsp, hst, hc', hturn⟩ := awakens hw hs hc
    obtain ⟨j, hj, hrest⟩ := (h.spared hsp (.looking hst) ⟨o, hc'⟩).rests_of_looking hi hrec
      (hturn.trans ht) hst
    exact ⟨j + 1, by omega, by rw [run_turn ht]; exact hrest⟩

theorem Progress.seldomBinds (h : v.Progress m ls vs) : SeldomBinds vs := by
  cases h with
  | between h => exact h.seldomBinds.2
  | midway h => exact h.seldomBinds.2.move h.seldomBinds.1 _ _

theorem Over.seldomBinds (h : v.Over m ls vs) : SeldomBinds vs := by
  cases h with
  | returned h | thrown h => exact h.seldomBinds.2

end GraceWait

namespace Machine

variable {n m : Machine} {t e : Nat} {k : Kind}

/-- The calls that a waiter makes through a recorder. A call that is refused makes none. Any other
begins with the same three calls, goes on round by round, and ends, if it has, with the calls that
bring the waiter back. Between two times to park the waiter is bound elsewhere once at most, and in its
turn it soon parks or returns. There are fewer threads than slots. -/
theorem rounds_followed {d : Nat} {steps : List (Machine × Machine)} (hn : Visited n)
    (hr : Reachable (n.startSynchronize t e k)) (hd : (n.startSynchronize t e k).Serves d e k)
    (hrec : (n.engine e).access.recorded = true) (hs : n.skips e = false)
    (h : Trail (above t (n.thread t).stack) (n.startSynchronize t e k) m steps)
    (hlt : m.threads.size < SlotArray.capacity) :
    (n.readDepth t e k ≠ 0 →
      m.called t = n.called t ∧ (m.thread t).stack = (n.thread t).stack) ∧
    (n.readDepth t e k = 0 → ∃ vs tail, m.called t = tail ++ (vs ++
        (.bind (n.view t (n.engine e).access.scheduler).worker :: .setPinDepth 0 :: .unbind ::
          n.called t)) ∧
      SeldomBinds vs ∧
      (tail = [] ∧ (n.graceWait t e k).InCall m ∧
          (n.graceWait t e k).Progress m ((n.graceWait t e k).looks steps) vs ∧
          (m.turn = some t → ∃ j ≤ 3, (n.graceWait t e k).Rests (m.run j)) ∨
        tail = (n.graceWait t e k).snapshot.calls ∧
          (n.graceWait t e k).Over m ((n.graceWait t e k).looks steps) vs)) := by
  refine ⟨fun h0 => ?_, fun h0 => ?_⟩
  · obtain ⟨-, -, hst, hc⟩ := startSynchronize_refused (k := k) (.inr h0)
    obtain rfl := h.eq_of_refused (.inr h0)
    exact ⟨hc, hst⟩
  · obtain ⟨i, -, ha, hc⟩ := startSynchronize_stillWaits hn hr hd hs h0
    rw [if_pos hrec] at hc
    have hw : (n.graceWait t e k).Waits i _ [] (n.startSynchronize t e k) := ⟨ha, [], hc, .between .nil⟩
    rcases hw.trail hrec hr h hlt with hw | ⟨vs, hc, ho⟩
    · obtain ⟨vs, hc, hprog⟩ := hw.progress
      have hm := h.reachable hr
      exact ⟨vs, [], hc, hprog.seldomBinds, .inl ⟨rfl, hw.stillWaits.stack, hprog, fun ht =>
        hw.stillWaits.rests (hw.slot_lt hm hlt) hm.visited.tasked.wellFormed hrec ht⟩⟩
    · exact ⟨vs, _, hc, ho.seldomBinds, .inr ⟨rfl, ho⟩⟩

/-- The caller is bound next to the reader, whose priority it takes before it yields. -/
theorem remote_round_followed : ∃ vs,
    vs = [.yield, .setPriority ⟨120⟩, .bind 0, .setPriority .highest] ∧ SeldomBinds vs ∧
      (remoteCaller.graceWait 3 0 .regular).Progress remoteWait
        ((remoteCaller.graceWait 3 0 .regular).looks (trailRun 2 (remote.run 1) ++ [])) vs ∧
      remoteWait.called 3 = vs ++ [.bind 1, .setPinDepth 0, .unbind] := by
  have hr : Reachable (remoteCaller.startSynchronize 3 0 .regular) := by
    have h : Reachable (remote.run 1) := reachable_remote.run (by decide +kernel)
    exact h
  obtain ⟨vs, tail, hc, hs, h⟩ := (rounds_followed (n := remoteCaller) (d := 0)
    (reachable_remote.visited.call rfl 0) hr rfl rfl rfl trail_remoteWait (by decide +kernel)).2 rfl
  have hcalled : remoteWait.called 3 = [.yield, .setPriority ⟨120⟩, .bind 0, .setPriority .highest] ++
      [.bind 1, .setPinDepth 0, .unbind] := rfl
  rcases h with ⟨rfl, -, hp, -⟩ | ⟨-, ho⟩
  · have hc : remoteWait.called 3 = vs ++ [.bind 1, .setPinDepth 0, .unbind] := hc
    exact ⟨vs, List.append_cancel_right (hc.symm.trans hcalled), hs, hp, hc⟩
  · -- the frames of the call are still there
    have hstack : (remoteWait.thread 3).stack.length ≠ 2 := by decide +kernel
    cases ho with
    | returned _ _ hst | thrown _ hst => exact absurd (congrArg List.length hst) hstack

end Machine

end GracePeriod
