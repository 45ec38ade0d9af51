import GracePeriod.Proofs.Loops
import GracePeriod.Proofs.Stamps
import GracePeriod.Proofs.Trail

namespace GracePeriod.Machine

variable {m m' n : Machine} {t u d d' i : Nat}

/-- The loop of the drain task has the turn, and the pass with this ticket has returned to it. -/
def returning (m : Machine) (d : Nat) : Option Nat :=
  let x := m.thread (m.drain d).thread
  if m.turn = some (m.drain d).thread then
    match x.control, x.stack with
    | .back (.ok _), .worker d' ticket :: _ => if d' = d then ticket else none
    | _, _ => none
  else none

/-- The step from `m` to `m'` calls `enqueue` on the drain task. -/
def calls (m m' : Machine) (d : Nat) : Bool :=
  match m.turn with
  | none => false
  | some t =>
    match (m.thread t).control with
    | .eval held op => m.enqueues held d op
    | .back _ => (m'.drain d).passes != (m.drain d).passes && m.passEnqueues d

/-- What a step does to the drain task, the last thing first. -/
def stamps (d : Nat) (p : Machine × Machine) : List Stamp :=
  List.replicate (p.1.calls p.2 d).toNat .requested ++
    ((if (p.2.drain d).passes = (p.1.drain d).passes then [] else
      (p.2.serving d).toList.map .started) ++ (p.1.returning d).toList.map .returned)

/-- What a run has done to the drain task, the last thing first. -/
def stampLog (d : Nat) (steps : List (Machine × Machine)) : List Stamp := steps.flatMap (stamps d)

/-- The log fits the machine. A pass of which nothing is left has ended with a panic. -/
def Tied (m : Machine) (d : Nat) (log : List Stamp) : Prop :=
  ∃ s, Book log (m.tally d).1 (m.tally d).2.1 s ∧ (m.tally d).2.2 = (tickets log).length ∧
    (∀ j, m.loop? d = some j → j = s) ∧
    (s ≠ none → d < m.drains.size ∧ (m.drain d).thread < m.threads.size)

variable {log : List Stamp}

theorem Tied.still (h : m.Tied d log) {a : Bool}
    (hm : m'.tally d = ((m.tally d).1 + a.toNat, (m.tally d).2)) (hc : m.calls m' d = a)
    (hr : m.returning d = none) (hk : Kept m m') (hle : m.threads.size ≤ m'.threads.size)
    (hl : ∀ j, m'.loop? d = some j → m.loop? d = some j ∨
      j = none ∧ (d < m.drains.size → m.threads.size ≤ (m.drain d).thread)) :
    m'.Tied d (stamps d (m, m') ++ log) := by
  obtain ⟨s, hb, hp, hs, hd⟩ := h
  have hpass : (m'.drain d).passes = (m.drain d).passes := congrArg (fun x => x.2.2) hm
  have hst : stamps d (m, m') = List.replicate a.toNat .requested := by
    rw [stamps, if_pos hpass, hc, hr]
    simp
  refine ⟨s, ?_, ?_, fun j hj => ?_, fun hne => ?_⟩
  · rw [hm, hst]
    exact hb.requests_add a
  · rw [hm, hst, hp, tickets_requested]
  · rcases hl j hj with hj | ⟨rfl, hnew⟩
    · exact hs j hj
    · by_contra hne
      obtain ⟨h1, h2⟩ := hd (Ne.symm hne)
      exact absurd (hnew h1) (Nat.not_le.2 h2)
  · obtain ⟨h1, h2⟩ := hd hne
    refine ⟨Nat.lt_of_lt_of_le h1 hk.size, ?_⟩
    rw [(hk.same d h1).2]
    exact Nat.lt_of_lt_of_le h2 hle

theorem returning_eq_none (hn : ∀ u ticket o, m.turn = some u → ¬m.AtLoop u d ticket o) :
    m.returning d = none := by
  unfold returning
  dsimp only
  split
  · rename_i ht
    split
    · rename_i hc hs
      split
      · rename_i hd
        rw [hd] at hs
        exact absurd ⟨hc, _, hs⟩ (hn _ _ _ ht)
      · rfl
    · rfl
  · rfl

theorem returning_of_atLoop {ticket : Option Nat} {o : Outcome} (ht : m.turn = some t)
    (hth : (m.drain d).thread = t) (h : m.AtLoop t d ticket o) :
    m.returning d = if o.isOk then ticket else none := by
  obtain ⟨hc, rest, hs⟩ := h
  unfold returning
  rw [hth, if_pos ht, hc, hs]
  cases o <;> simp [Except.isOk, Except.toBool]

theorem AtLoop.stamps_of_eq {ticket : Option Nat} {o : Outcome} (hl : m.AtLoop t d ticket o)
    (ht : m.turn = some t) (hth : (m.drain d).thread = t)
    (hp : (m'.drain d).passes = (m.drain d).passes) :
    stamps d (m, m') = (if o.isOk then ticket else none).toList.map .returned := by
  have hcalls : m.calls m' d = false := by
    rw [calls, ht]
    dsimp only
    rw [hl.1, hp, bne_self_eq_false, Bool.false_and]
  rw [stamps, hcalls, if_pos hp, returning_of_atLoop ht hth hl]
  rfl

theorem AtLoop.stamps_of_ne {ticket : Option Nat} {o : Outcome} (hl : m.AtLoop t d ticket o)
    (ht : m.turn = some t) (hth : (m.drain d).thread = t)
    (hp : (m'.drain d).passes ≠ (m.drain d).passes) (hj : m'.loop? d = some (some i)) :
    stamps d (m, m') = List.replicate (m.passEnqueues d).toNat .requested ++
      .started i :: (if o.isOk then ticket else none).toList.map .returned := by
  have hcalls : m.calls m' d = m.passEnqueues d := by
    rw [calls, ht]
    dsimp only
    rw [hl.1, bne_iff_ne.2 hp, Bool.true_and]
  rw [stamps, hcalls, if_neg hp, returning_of_atLoop ht hth hl, serving, hj]
  rfl

/-- A turn at the loop of the task, with its stamps: the thread ends, finds that all has been served, or
starts a pass. -/
inductive LoopTurn (m m' : Machine) (d : Nat) (ticket : Option Nat) : Prop
  | dies (hl : m'.loop? d = none) (hm : m'.tally d = m.tally d) (hz : stamps d (m, m') = [])
  | rests (hr : (m.tally d).1 = ticket.getD (m.tally d).2.1) (hl : ∀ j, m'.loop? d = some j → j = none)
      (hm : m'.tally d = ((m.tally d).1, ticket.getD (m.tally d).2.1, (m.tally d).2.2))
      (hz : stamps d (m, m') = ticket.toList.map .returned)
  | serves (a : Bool) (hr : (m.tally d).1 ≠ ticket.getD (m.tally d).2.1)
      (hl : m'.loop? d = some (some (m.tally d).1))
      (hm : m'.tally d =
        ((m.tally d).1 + a.toNat, ticket.getD (m.tally d).2.1, (m.tally d).2.2 + 1))
      (hz : stamps d (m, m') = List.replicate a.toNat .requested ++
        .started (m.tally d).1 :: ticket.toList.map .returned)

theorem AtLoop.loopTurn {ticket : Option Nat} {o : Outcome} (hl : m.AtLoop t d ticket o)
    (hg : m.Grounded) (hlt : t < m.threads.size) (ht : m.turn = some t)
    (hth : (m.drain d).thread = t) (hth' : ((m.advance t).drain d).thread = t) :
    LoopTurn m (m.advance t) d ticket := by
  obtain ⟨n, hnd, hnst, hc⟩ := hl.loopStep hg hlt
  have hdrain : n.drain d = m.drain d := by rw [drain, hnd, drain]
  have htally : n.tally d = m.tally d := by rw [tally, hdrain, tally]
  have hserved : n.served d ticket = ticket.getD (m.tally d).2.1 := by rw [served, hdrain, tally]
  have hpass : n.passEnqueues d = m.passEnqueues d := by rw [passEnqueues, hdrain, passEnqueues]
  have hreq : (n.drain d).tickets.requested = (m.tally d).1 := by rw [hdrain, tally]
  have hloop {fs : List Frame} (hf : ((m.advance t).thread t).stack = fs) {j : Option Nat} :
      (m.advance t).loop? d = some j ↔ fs.getLast? = some (.worker d j) := by
    rw [loop?_eq_some, hth', hf]
  cases hc with
  | dies p ho hs hm =>
    have hm := (hm.same d).trans htally
    refine .dies (Option.eq_none_iff_forall_ne_some.2 fun j hj => ?_) hm ?_
    · cases (hloop hs).1 hj
    · rw [hl.stamps_of_eq ht hth (congrArg (fun x => x.2.2) hm), ho]
      rfl
  | rests r ho hr hs hm =>
    have hm := hm d
    rw [if_pos rfl, htally, hserved] at hm
    rw [hreq, hserved] at hr
    refine .rests hr (fun j hj => ?_) hm ?_
    · rw [hnst] at hs
      rcases hs with hs | hs
      · cases (hloop hs).1 hj
      · exact (Frame.worker.inj (Option.some.inj ((hloop hs).1 hj))).2.symm
    · rw [hl.stamps_of_eq ht hth (congrArg (fun x => x.2.2) hm), ho]
      rfl
  | serves r ho hr gs hg hs hm =>
    have hm := hm d
    rw [if_pos rfl, htally, hserved, hpass] at hm
    rw [hreq, hserved] at hr
    rw [hreq, hnst] at hs
    have hserving : (m.advance t).loop? d = some (some (m.tally d).1) := by
      rw [hloop hs, List.getLast?_concat]
    have hmore : ((m.advance t).drain d).passes = (m.drain d).passes + 1 :=
      congrArg (fun x => x.2.2) hm
    refine .serves (m.passEnqueues d) hr hserving hm ?_
    rw [hl.stamps_of_ne ht hth (by omega) hserving, ho]
    rfl

theorem Tied.loopStep (h : m.Tied d log) (hr : Reachable m) (ht : m.turn = some t)
    (hb : m.BuildsIdle) {ticket : Option Nat} {o : Outcome} (hl : m.AtLoop t d ticket o) :
    (m.advance t).Tied d (stamps d (m, m.advance t) ++ log) := by
  obtain ⟨s, hbook, hp, hs, -⟩ := h
  have hlt := hr.visited.orderly.lt_size ht
  have hst := hl.stack_eq hr.grounded
  obtain ⟨hdlt, hth⟩ : m.Fits t (.worker d ticket) := hr.framesFit t _ (by rw [hst]; exact List.mem_cons_self)
  obtain rfl : ticket = s := hs ticket (loop?_eq_some.2 (by rw [hth, hst]; rfl))
  have hth' : ((m.advance t).drain d).thread = t := ((advance_kept hb ht).same d hdlt).2.trans hth
  have hd' : d < (m.advance t).drains.size ∧ ((m.advance t).drain d).thread < (m.advance t).threads.size := by
    have := (advance_changes hb ht).threads_le
    exact ⟨Nat.lt_of_lt_of_le hdlt (advance_kept hb ht).size, by omega⟩
  cases hl.loopTurn hr.grounded hlt ht hth hth' with
  | dies hl' hm hz =>
    rw [hz]
    refine ⟨ticket, ?_, ?_, fun j hj => ?_, fun _ => hd'⟩
    · rw [hm]
      exact hbook
    · rw [hm]
      exact hp
    · cases hl'.symm.trans hj
  | rests hr' hl' hm hz =>
    rw [hz]
    refine ⟨none, ?_, ?_, hl', fun hne => absurd rfl hne⟩
    · rw [hm]
      exact hbook.settles hr'
    · rw [hm, tickets_returned]
      exact hp
  | serves a hr' hl' hm hz =>
    rw [hz, List.append_assoc, List.cons_append]
    refine ⟨some (m.tally d).1, ?_, ?_, fun j hj => ?_, fun _ => hd'⟩
    · rw [hm]
      exact (hbook.serves hr').requests_add a
    · rw [hm, tickets_requested, tickets_started, tickets_returned]
      exact congrArg (· + 1) hp
    · exact (Option.some.inj (hl'.symm.trans hj)).symm

theorem advance_asks (ht : m.turn = some t)
    (hn : ∀ d ticket o, ¬m.AtLoop t d ticket o) :
    ∃ a : Bool, (m.advance t).tally d = ((m.tally d).1 + a.toNat, (m.tally d).2) ∧
      m.calls (m.advance t) d = a := by
  have hcounts {o : Outcome} (hc : (m.thread t).control = .back o) (hm : KeepsCounts m (m.advance t)) :
      ∃ a : Bool, (m.advance t).tally d = ((m.tally d).1 + a.toNat, (m.tally d).2) ∧
        m.calls (m.advance t) d = a := by
    have hd := hm.same d
    have hp : ((m.advance t).drain d).passes = (m.drain d).passes := congrArg (fun x => x.2.2) hd
    refine ⟨false, hd, ?_⟩
    rw [calls, ht]
    dsimp only
    rw [hc, hp, bne_self_eq_false, Bool.false_and]
  cases hc : (m.thread t).control with
  | eval held op =>
    have ha : m.advance t = m.start t held op := by rw [advance, hc]
    refine ⟨m.enqueues held d op, ?_, ?_⟩
    · rw [ha]
      exact (start_asks m t held op).sums d
    · rw [calls, ht]
      dsimp only
      rw [hc]
  | back o =>
    refine hcounts hc ?_
    cases hs : (m.thread t).stack with
    | nil =>
      have ha : m.advance t = m.finish t o := by rw [advance, hc, hs]
      rw [ha]
      exact .of_drains rfl
    | cons f rest =>
      rw [advance_back hc hs]
      refine KeepsCounts.head (.resume _ t o fun d i hf => hn d i o ⟨hc, rest, ?_⟩) rfl
      rw [hs, hf]

theorem Tied.loopStep_ne (h : m.Tied d log) (hr : Reachable m) (ht : m.turn = some t)
    (hb : m.BuildsIdle) {ticket : Option Nat} {o : Outcome} (hl : m.AtLoop t d' ticket o)
    (hd : d ≠ d') : (m.advance t).Tied d (stamps d (m, m.advance t) ++ log) := by
  have hkept := advance_kept hb ht
  have hst := hl.stack_eq hr.grounded
  obtain ⟨n, hnd, hnst, hc⟩ := hl.loopStep hr.grounded (hr.visited.orderly.lt_size ht)
  have hnone {j : Option Nat} (hj : ((m.advance t).thread t).stack.getLast? = some (.worker d j)) :
      (m.thread t).stack.getLast? = some (.worker d j) := by
    cases hc with
    | dies p ho hs =>
      rw [hs] at hj
      cases hj
    | rests r ho hr' hs =>
      rw [hnst] at hs
      rcases hs with hs | hs <;> rw [hs] at hj
      · cases hj
      · exact absurd (Frame.worker.inj (Option.some.inj hj)).1.symm hd
    | serves r ho hr' gs hg hs =>
      rw [hs, hnst, List.getLast?_concat] at hj
      exact absurd (Frame.worker.inj (Option.some.inj hj)).1.symm hd
  have htally : (m.advance t).tally d = m.tally d := by
    have hn : n.tally d = m.tally d := by rw [tally, drain, hnd, tally, drain]
    cases hc with
    | dies p ho hs hm => exact (hm.same d).trans hn
    | rests r ho hr' hs hm | serves r ho hr' gs hg hs hm => exact ((hm d).trans (if_neg hd)).trans hn
  have hpass : ((m.advance t).drain d).passes = (m.drain d).passes :=
    congrArg (fun x => x.2.2) htally
  refine h.still (a := false) htally ?_ (returning_eq_none fun u i o' hu hx => ?_) hkept
    (advance_changes hb ht).threads_le fun j hj =>
      loop?_back hr.framesFit hkept (fun u hu => advance_unmoved hb ht hu) hnone hj
  · rw [calls, ht]
    dsimp only
    rw [hl.1, hpass, bne_self_eq_false, Bool.false_and]
  · obtain rfl := Option.some.inj (ht.symm.trans hu)
    have hx := (hx.stack_eq hr.grounded).symm.trans hst
    exact hd (Frame.worker.inj (List.cons.inj hx).1).1

theorem Tied.advance (h : m.Tied d log) (hr : Reachable m) (ht : m.turn = some t)
    (hb : m.BuildsIdle) : (m.advance t).Tied d (stamps d (m, m.advance t) ++ log) := by
  by_cases hl : ∃ d ticket o, m.AtLoop t d ticket o
  · obtain ⟨d', ticket, o, hl⟩ := hl
    by_cases hd : d = d'
    · subst hd
      exact h.loopStep hr ht hb hl
    · exact h.loopStep_ne hr ht hb hl hd
  · replace hl : ∀ d ticket o, ¬m.AtLoop t d ticket o := fun d i o hx => hl ⟨d, i, o, hx⟩
    have hlt := hr.visited.orderly.lt_size ht
    have hkept := advance_kept hb ht
    obtain ⟨a, hm, hc⟩ := advance_asks (d := d) ht hl
    refine h.still hm hc (returning_eq_none fun u i o hu hx => ?_) hkept
      (advance_changes hb ht).threads_le fun j hj =>
        loop?_back hr.framesFit hkept (fun u hu => advance_unmoved hb ht hu)
          (fun hj => (advance_overlaid hb ht hlt hl).getLast? hj rfl) hj
    obtain rfl := Option.some.inj (ht.symm.trans hu)
    exact hl _ _ _ hx

theorem Tied.external (h : m.Tied d log) (ho : Orderly m) (he : External m m') : m'.Tied d log := by
  have hdrain (d : Nat) : m'.drain d = m.drain d := congrArg (Table.get · d) he.drains
  obtain ⟨s, hb, hp, hs, hd⟩ := h
  have ht : m'.tally d = m.tally d := by rw [tally, hdrain, tally]
  refine ⟨s, ht ▸ hb, ht ▸ hp, fun j hj => hs j ?_, fun hne => ?_⟩
  · rwa [loop?, hdrain, he.stack ho] at hj
  · rw [he.drains, hdrain]
    exact ⟨(hd hne).1, Nat.lt_of_lt_of_le (hd hne).2 he.threads_le⟩

/-- In every run from the start, the log of a drain task is regular. -/
theorem Trail.tied {workers : List Nat} {host : Nat} {m₀ : Machine} {steps : List (Machine × Machine)}
    (h₀ : Machine.new workers host = .ok m₀) (h : FreeTrail m₀ m steps) (d : Nat) :
    m.Tied d (stampLog d steps) := by
  induction h with
  | refl =>
    obtain ⟨cs, -, rfl⟩ := new_eq h₀
    refine ⟨none, .nil, rfl, fun j hj => ?_, fun hne => absurd rfl hne⟩
    rw [loop?_eq_some, thread, Table.get_empty] at hj
    cases hj
  | begin h _ s ih =>
    exact (begin_externals _ s).preserves (P := fun n => n.Tied d _)
      (fun _ _ ho he hn => hn.external ho he) (h.reachable (.new h₀)).visited.orderly ih
  | @step m m' steps h _ hb hs ih =>
    have hr := h.reachable (.new h₀)
    rcases step_cases hs with ⟨t, ht, rfl⟩ | ⟨t, rest, hn, hq, rfl⟩
    · exact ih.advance hr ht hb
    · refine ih.still (a := false) rfl ?_ ?_ (.of_drains rfl) (Nat.le_refl _) fun j hj => .inl hj
      · rw [calls, hn]
      · rw [returning, if_neg]
        rw [hn]
        exact (Option.some_ne_none _).symm

theorem Trail.book {workers : List Nat} {host : Nat} {m₀ : Machine} {steps : List (Machine × Machine)}
    (h₀ : Machine.new workers host = .ok m₀) (h : FreeTrail m₀ m steps) (d : Nat) :
    ∃ s, Book (stampLog d steps) (m.drain d).tickets.requested (m.drain d).tickets.completed s ∧
      (m.drain d).passes = (tickets (stampLog d steps)).length ∧
      ∀ j, m.loop? d = some j → j = s := by
  obtain ⟨s, hb, hp, hs, -⟩ := h.tied h₀ d
  exact ⟨s, hb, hp, hs⟩

/-- The thread runs or waits for its turn; it sleeps only as long as the ticket is not served. -/
def Heeds (m : Machine) (t d i : Nat) : Prop :=
  (m.thread t).status = .active ∨
    (m.thread t).status = .waiting d ∧ (m.drain d).tickets.completed < i

namespace Heeds

theorem lt_size (h : m.Heeds t d i) : t < m.threads.size := by
  refine lt_threads_size fun he => ?_
  rcases h with h | ⟨h, -⟩ <;> cases h.symm.trans he

theorem same (h : m.Heeds t d i) (hs : (m'.thread t).status = (m.thread t).status)
    (hd : (m'.drain d).tickets = (m.drain d).tickets) : m'.Heeds t d i := by
  rw [Heeds, hs, hd]
  exact h

theorem news (h : m.Heeds t d i) (ha : Attentive m) (d' : Nat) {f : Drain → Drain}
    (hf : ∀ x, (f x).waiters = x.waiters) : ((m.modifyDrain d' f).notify d').Heeds t d i := by
  have hwaiters : ((m.modifyDrain d' f).drain d').waiters = (m.drain d').waiters :=
    part_modifyDrain Drain.waiters m d' d' hf
  have hth := thread_notify (m.modifyDrain d' f) d' t
  rw [hwaiters] at hth
  by_cases hmem : t ∈ (m.drain d').waiters
  · rw [if_pos hmem] at hth
    exact .inl (congrArg Thread.status hth)
  · rw [if_neg hmem] at hth
    rcases h with h | ⟨h, hlt⟩
    · exact .inl ((congrArg Thread.status hth).trans h)
    · have hne : d ≠ d' := by
        rintro rfl
        exact hmem (ha.listed t d h)
      refine .inr ⟨(congrArg Thread.status hth).trans h, ?_⟩
      rw [part_drain_notify (fun x => x.tickets.completed) (fun _ _ => rfl), drain_modifyDrain,
        if_neg hne]
      exact hlt

end Heeds

theorem TicketMove.heeds {m₀ : Machine} (h : TicketMove u m₀ m m') (ha : Attentive m) (ht : t ≠ u)
    (hk : m.Heeds t d i) : m'.Heeds t d i := by
  cases h with
  | keepsTickets h => exact hk.same (h.others t ht) (h.drain d).2.2
  | request d' _ => exact hk.news ha d' fun _ => rfl
  | complete d' n _ => exact hk.news ha d' fun _ => rfl
  | close d' => exact hk.news ha d' fun _ => rfl
  | wait d' _ =>
    refine hk.same ?_ ?_
    · exact congrArg Thread.status ((thread_modifyThread_ne _ _ ht).trans
        (thread_modifyThread_ne m _ ht))
    · exact part_modifyDrain Drain.tickets (m.done u) d' d
        (f := fun x => { x with waiters := x.waiters ++ [u] }) fun _ => rfl
  | hire name systemName x _ =>
    have hs : ((m.spawnDrain name systemName x).2.thread t).status = (m.thread t).status :=
      congrArg Thread.status ((thread_spawnDrain ..).trans (if_neg (Nat.ne_of_lt hk.lt_size)))
    rcases hk with hk | ⟨hk, hlt⟩
    · exact .inl (hs.trans hk)
    · have hne : d ≠ m.drains.size := by
        rintro rfl
        have hw := ha.listed t _ hk
        rw [drain, Table.get_of_size_le (Nat.le_refl _)] at hw
        cases hw
      refine .inr ⟨hs.trans hk, ?_⟩
      rwa [drain_spawnDrain, if_neg hne]

theorem TicketMoves.heeds {m₀ : Machine} (h : TicketMoves u m₀ m m') (ha : Attentive m) (ht : t ≠ u)
    (hk : m.Heeds t d i) : m'.Heeds t d i := by
  induction h with
  | refl => exact hk
  | tail h hs ih => exact hs.heeds (TicketMoves.attentive h ha) ht ih

theorem Heeds.endThread (h : m.Heeds t d i) (ht : t ≠ u) (p : Option Payload) :
    (m.endThread u p).Heeds t d i := by
  have hd : (m.endThread u p).drain d = m.drain d := congrArg (Table.get · d) (drains_endThread ..)
  rw [Heeds, hd]
  rcases h with h | ⟨h, hlt⟩
  · exact .inl (status_endThread h ht nofun p)
  · exact .inr ⟨status_endThread h ht nofun p, hlt⟩

theorem Heeds.advance (h : m.Heeds t d i) (hr : Reachable m) (hu : m.turn = some u) (ht : t ≠ u) :
    (m.advance u).Heeds t d i := by
  obtain ⟨top, n, hn, hf⟩ := hr.turnEnd hu
  have ha : Attentive n := hr.attentive.same (fun v d hv => (hn.status v).symm.trans hv) fun d => by
    rw [drain, hn.drains, drain]
    exact ⟨rfl, rfl, rfl⟩
  have hn' : n.Heeds t d i := h.same (hn.status t) (by rw [drain, hn.drains, drain])
  cases hf with
  | goesOn hs => exact hs.heeds ha ht hn'
  | retires n' hs d' ticket _ _ he =>
    rw [he]
    exact (hs.heeds ha ht hn').endThread ht none
  | dies d' ticket p _ _ he =>
    rw [he]
    exact hn'.endThread ht _

theorem Heeds.external (h : m.Heeds t d i) (he : External m m') : m'.Heeds t d i := by
  have hdrain : m'.drain d = m.drain d := congrArg (Table.get · d) he.drains
  rw [Heeds, hdrain]
  rcases h with h | ⟨h, hlt⟩
  · rcases he.status (lt_threads_size (by rw [h]; nofun)) h nofun nofun with hs | ⟨v, hv, -⟩
    · exact .inl hs
    · cases hv
  · rcases he.status (lt_threads_size (by rw [h]; nofun)) h nofun nofun with hs | ⟨v, hv, -⟩
    · exact .inr ⟨hs, hlt⟩
    · cases hv

theorem External.control_eq (h : External m m') (hp : m.isParked u = false) (hi : m.isIdle u = false) :
    (m'.thread u).control = (m.thread u).control := by
  have hwake (m : Machine) (t : Nat) := part_wake Thread.control (fun _ _ => rfl) m t u
  have hne {t : Nat} {b : Machine → Nat → Bool} (hb : b m u = false) (ht : b m t = true) : u ≠ t := by
    rintro rfl
    rw [hb] at ht
    cases ht
  cases h with
  | actor i =>
    refine (congrArg Thread.control (Table.get_push ..)).trans ?_
    split
    · rename_i hu
      rw [thread_of_size_le (Nat.le_of_eq hu.symm)]
      rfl
    · rfl
  | resume ht => exact hwake m _
  | fault ht text =>
    rw [hwake]
    exact congrArg Thread.control (thread_modifyThread_ne m _ (hne hp ht))
  | instruct ht op =>
    rw [hwake]
    exact congrArg Thread.control (thread_modifyThread_ne m _ (hne hi ht))
  | exit ht => exact part_endThread Thread.control (fun _ _ => rfl) (fun _ _ => rfl) m _ none u

/-- The thread waits until ticket `i` is served. -/
structure Draining (m : Machine) (t d i : Nat) (rest : List Frame) : Prop where
  stack : (m.thread t).stack = .await d i :: rest
  control : (m.thread t).control = .back (.ok .unit)
  heeds : m.Heeds t d i

theorem Draining.own {rest : List Frame} (h : m.Draining t d i rest) :
    (i ≤ (m.drain d).tickets.completed →
      ((m.advance t).thread t).stack = rest ∧ ((m.advance t).thread t).control = .back (.ok .unit)) ∧
    (¬i ≤ (m.drain d).tickets.completed → (m.advance t).Draining t d i rest) := by
  let n := m.modifyThread t fun x => { x with stack := rest }
  have ha : m.advance t = n.resumeAwait t d i := advance_back h.control h.stack
  have hn : (n.thread t).stack = rest := stack_pop ..
  have hcov : (n.drain d).tickets.covers i = decide (i ≤ (m.drain d).tickets.completed) := rfl
  rw [ha, resumeAwait, hcov]
  refine ⟨fun hle => ?_, fun hle => ?_⟩
  · rw [decide_eq_true hle, if_pos rfl]
    exact ⟨(stack_back ..).trans hn, control_back ..⟩
  · rw [decide_eq_false hle, if_neg (by decide)]
    refine ⟨?_, ?_, .inr ⟨?_, ?_⟩⟩
    · refine ((stack_stop ..).trans (stack_back (n.push t (.await d i)) t _ t)).trans ?_
      rw [stack_push, hn]
    · exact (control_stop ..).trans (control_back (n.push t (.await d i)) t _)
    · exact congrArg Thread.status (thread_modifyThread_self
        (((n.push t (.await d i)).done t).modifyDrain d fun x => { x with waiters := x.waiters ++ [t] }) t
        fun x => { x with status := .waiting d })
    · have hc : (((n.push t (.await d i)).waitFor t d).drain d).tickets = (m.drain d).tickets :=
        part_modifyDrain Drain.tickets _ d d (f := fun x => { x with waiters := x.waiters ++ [t] })
          fun _ => rfl
      rw [hc]
      exact Nat.not_le.1 hle

theorem Draining.external {rest : List Frame} (h : m.Draining t d i rest) (ho : Orderly m)
    (he : External m m') : m'.Draining t d i rest := by
  have hs : m.isParked t = false ∧ m.isIdle t = false := by
    rw [isParked, isIdle]
    rcases h.heeds with hs | ⟨hs, -⟩ <;> rw [hs] <;> exact ⟨rfl, rfl⟩
  exact ⟨(he.stack ho t).trans h.stack, (he.control_eq hs.1 hs.2).trans h.control, h.heeds.external he⟩

theorem Draining.other {rest : List Frame} (h : m.Draining t d i rest) (hr : Reachable m)
    (hb : m.BuildsIdle) (hu : m.turn = some u) (ht : t ≠ u) : (m.advance u).Draining t d i rest := by
  cases advance_unmoved hb hu ht with
  | same hs hc => exact ⟨hs.trans h.stack, hc.trans h.control, h.heeds.advance hr hu ht⟩
  | started hle => exact absurd hle (Nat.not_le.2 h.heeds.lt_size)

structure DrainEnded (m : Machine) (t d i : Nat) (rest : List Frame) : Prop where
  stack : (m.thread t).stack = rest
  control : (m.thread t).control = .back (.ok .unit)
  served : i ≤ (m.drain d).tickets.completed

theorem Draining.step {rest : List Frame} (h : m.Draining t d i rest) (hr : Reachable m)
    (hb : m.BuildsIdle) (hs : m.step = some m') : m'.Draining t d i rest ∨ m'.DrainEnded t d i rest := by
  rcases step_cases hs with ⟨u, hu, rfl⟩ | ⟨u, queue, hn, hq, rfl⟩
  · by_cases ht : t = u
    · subst ht
      by_cases hle : i ≤ (m.drain d).tickets.completed
      · obtain ⟨hst, hc⟩ := h.own.1 hle
        have hm : KeepsCounts m (m.advance t) := by
          rw [advance_back h.control h.stack]
          exact KeepsCounts.head (.resume _ t _ nofun) rfl
        have hsame : ((m.advance t).drain d).tickets.completed = (m.drain d).tickets.completed :=
          congrArg (fun x => x.2.1) (hm.same d)
        exact .inr ⟨hst, hc, by rwa [hsame]⟩
      · exact .inl (h.own.2 hle)
    · exact .inl (h.other hr hb hu ht)
  · exact .inl ⟨h.stack, h.control, h.heeds⟩

/-- A call of `drain` lasts until the ticket is served. -/
theorem Draining.trail {rest : List Frame} {steps : List (Machine × Machine)} {m₀ : Machine}
    (h₀ : m₀.Draining t d i rest) (hr : Reachable m₀) (h : Trail (above t rest) m₀ m steps) :
    m.Draining t d i rest ∨ m.DrainEnded t d i rest :=
  h.underway hr (P := fun _ n => n.Draining t d i rest) (Q := fun _ n => n.DrainEnded t d i rest)
    (fun _ _ hq => hq.stack)
    (fun _ _ s hn => hn.visited.begin_preserves (P := fun n => n.Draining t d i rest) s
      fun _ _ hv he hd => hd.external hv.orderly he)
    (fun _ _ _ hn hb hs hd => hd.step hn hb hs) h₀

/-- What can be told from the log of a drain task, and what its tickets promise. -/
structure Punctual (m : Machine) (d : Nat) (log : List Stamp) : Prop where
  requested : (m.drain d).tickets.requested = requests log
  between : (m.drain d).tickets.completed ≤ (m.drain d).tickets.requested ∧
    ∀ n, m.serving d = some n →
      (m.drain d).tickets.completed < n ∧ n ≤ (m.drain d).tickets.requested
  lasting : ∀ m' later, FreeTrail m m' later →
    (m.drain d).tickets.completed ≤ (m'.drain d).tickets.completed
  increasing : (tickets log).Pairwise (· > ·)
  /-- A pass has the ticket of the last request before it. -/
  newest : ∀ late n early, log = late ++ .started n :: early → n = requests early
  few : (m.drain d).passes = (tickets log).length ∧ (tickets log).length ≤ requests log
  /-- It is always the last pass that returns. -/
  returned : ∀ late n early', log = late ++ .returned n :: early' →
    ∃ mid early, early' = mid ++ .started n :: early ∧ tickets mid = []
  /-- All that is requested during a pass that returns is served by the next pass, which starts at
  once, and no further pass starts unless more is requested. -/
  coalesced : ∀ late n mid early, log = late ++ .returned n :: (mid ++ .started n :: early) →
    0 < requests mid → ∃ late', late = late' ++ [.started (requests mid + requests early)] ∧
      (requests late' = 0 → tickets late' = [])
  /-- A call of `drain` that begins now lasts until all requests so far are covered by passes that
  have returned, and then the next turn of the caller is the last one of the call; what is requested
  since the call has no part in it. -/
  drained : ∀ (n : Machine) (t : Nat), n.turn = some t → n.isWorkerThread t d = false →
    m = n.startDrain t d → ∀ m' later, Trail (above t (n.thread t).stack) m m' later →
      ((m'.thread t).stack = .await d (requests log) :: (n.thread t).stack ∧
        (CaughtUp log (stampLog d later) → (m'.thread t).status = .active ∧
          (m'.turn = some t → ((m'.advance t).thread t).stack = (n.thread t).stack ∧
            ((m'.advance t).thread t).control = .back (.ok .unit))) ∧
        (¬CaughtUp log (stampLog d later) → m'.turn = some t →
          ((m'.advance t).thread t).stack = .await d (requests log) :: (n.thread t).stack)) ∨
      ((m'.thread t).stack = (n.thread t).stack ∧ (m'.thread t).control = .back (.ok .unit) ∧
        CaughtUp log (stampLog d later))

theorem stampLog_append (d : Nat) (later steps : List (Machine × Machine)) :
    stampLog d (later ++ steps) = stampLog d later ++ stampLog d steps := List.flatMap_append

/-- The tickets of a drain task in any run: of whatever passes there are and whether they park, return
or panic, and however many threads ask for passes or wait for them. -/
theorem tickets_kept {workers : List Nat} {host : Nat} {m₀ : Machine} {steps : List (Machine × Machine)}
    (h₀ : Machine.new workers host = .ok m₀) (h : FreeTrail m₀ m steps) (d : Nat) :
    m.Punctual d (stampLog d steps) := by
  obtain ⟨s, hb, hp, hs⟩ := h.book h₀ d
  have hreq := hb.requests_eq
  have hlater {p : Machine → Bool} {m' : Machine} {later : List (Machine × Machine)}
      (h' : Trail p m m' later) : ∃ s', Book (stampLog d later ++ stampLog d steps)
        (m'.drain d).tickets.requested (m'.drain d).tickets.completed s' := by
    obtain ⟨s', hb', -⟩ := (h.append h').book h₀ d
    rw [stampLog_append] at hb'
    exact ⟨s', hb'⟩
  refine ⟨hreq.symm, ⟨hb.bounds.1, fun n hn => ?_⟩, fun m' later h' => ?_, hb.increasing,
    fun late n early => hb.started_eq, ⟨hp, ?_⟩, fun late n early' hl => ?_,
    fun late n mid early => hb.coalesced, fun n t ht hw hm m' later h' => ?_⟩
  · exact hb.bounds.2 n (hs _ (Option.join_eq_some_iff.1 hn)).symm
  · obtain ⟨s', hb'⟩ := hlater h'
    rcases hb.returned_mem with hc | hc
    · omega
    · obtain ⟨a, b, hl⟩ := List.append_of_mem (List.mem_append_right (stampLog d later) hc)
      obtain ⟨-, -, -, hle, -⟩ := hb'.at_return hl
      exact hle
  · have hle := hb.length_le
    rw [hreq]
    cases s with
    | none => exact hle.trans hb.bounds.1
    | some n => exact hle.trans (hb.bounds.2 n rfl).2
  · obtain ⟨r', c', hb', -⟩ := hb.at_return hl
    exact hb'.last_started
  · have hr := h.reachable (.new h₀)
    have hcall : m = (n.push t (.await d (n.drain d).tickets.requested)).done t := by
      rw [hm, startDrain, if_neg (by rw [hw]; nofun)]
    have hi : (n.drain d).tickets.requested = requests (stampLog d steps) := by
      rw [hreq, hcall]
      rfl
    have hdrain : m.Draining t d (requests (stampLog d steps)) (n.thread t).stack := by
      have hturn : m.turn = some t := by rw [hcall]; exact ht
      refine ⟨?_, ?_, .inl (hr.visited.orderly.turn t hturn).1⟩
      · rw [hcall, done, stack_back, stack_push, hi]
      · rw [hcall]
        exact control_back ..
    obtain ⟨s', hb'⟩ := hlater h'
    rcases hdrain.trail hr h' with hd | hd
    · rw [hb'.caughtUp_iff]
      refine .inl ⟨hd.stack, fun hle => ⟨?_, fun _ => hd.own.1 hle⟩, fun hle _ => (hd.own.2 hle).stack⟩
      rcases hd.heeds with hst | ⟨-, hlt⟩
      · exact hst
      · exact absurd hlt (Nat.not_lt.2 hle)
    · exact .inr ⟨hd.stack, hd.control, hb'.caughtUp_iff.2 hd.served⟩

/-- The first pass waits at a gate, while two more are requested. -/
def gated : Machine × List (Machine × Machine) :=
  follow {} [.act 0 (.task (.spawn "task" ["gate"])), .act 0 (.task .enqueue),
    .act 0 (.task .enqueue), .act 0 (.task .enqueue)]

def gatedCall : Machine := (gated.1.begin (.act 1 (.task .drain))).1

def gatedWait : Machine := (gatedCall.run 2).run 1

/-- The gate is opened, and it is the turn of the waiter again. -/
def gateOpened : Machine := (gatedWait.wake 1).run 4

theorem trail_gatedCall :
    FreeTrail {} (gatedCall.run 2) (trailRun 2 gatedCall ++ (gated.2 ++ [])) :=
  ((Trail.refl.follow _ (by decide +kernel)).begin rfl _).run (by decide +kernel)

theorem trail_gateOpened : Trail (above 2 [.releaseTask 0, .attempt]) (gatedCall.run 2) gateOpened
    (trailRun 4 (gatedWait.wake 1) ++ (trailRun 1 (gatedCall.run 2) ++ [])) :=
  ((Trail.refl.run (by decide +kernel)).wakeOnly (by decide +kernel) (by decide +kernel)).run
    (by decide +kernel)

/-- The machine in which the waiter calls `drain`. -/
def gatedCaller : Machine :=
  (((gatedCall.run 1).push 2 .attempt).modifyDrain 0 fun x => { x with holders := x.holders + 1 }).push
    2 (.releaseTask 0)

theorem gated_pass_served_twice :
    stampLog 0 (trailRun 2 gatedCall ++ (gated.2 ++ [])) =
      [.requested, .requested, .started 1, .requested] ∧
    (((gatedCall.run 2).drain 0).tickets.completed < 1 ∧
      1 ≤ ((gatedCall.run 2).drain 0).tickets.requested) ∧
    stampLog 0 (trailRun 4 (gatedWait.wake 1) ++ (trailRun 1 (gatedCall.run 2) ++ [])) =
      [.returned 3, .started 3, .returned 1] ∧
    (∃ late', [.returned 3, .started 3] = late' ++ [Stamp.started 3] ∧
      (requests late' = 0 → tickets late' = [])) ∧
    (gateOpened.turn = some 2 ∧ ((gateOpened.advance 2).thread 2).stack = [.releaseTask 0, .attempt]) := by
  have hlog : stampLog 0 (trailRun 2 gatedCall ++ (gated.2 ++ [])) =
      [.requested, .requested, .started 1, .requested] := by decide +kernel
  have hlater : stampLog 0 (trailRun 4 (gatedWait.wake 1) ++ (trailRun 1 (gatedCall.run 2) ++ [])) =
      [.returned 3, .started 3, .returned 1] := by decide +kernel
  have hnew : Machine.new [] 1 = .ok {} := rfl
  have hcall := tickets_kept hnew trail_gatedCall 0
  have hopened := tickets_kept hnew (trail_gatedCall.append trail_gateOpened) 0
  rw [stampLog_append, hlog, hlater] at hopened
  rw [hlog] at hcall
  refine ⟨hlog, hcall.between.2 1 (by decide +kernel), hlater,
    hopened.coalesced [.returned 3, .started 3] 1 [.requested, .requested] [.requested] rfl (by decide),
    by decide +kernel, ?_⟩
  have hcaught : CaughtUp [.requested, .requested, .started 1, .requested]
      [.returned 3, .started 3, .returned 1] :=
    .inr ⟨3, [], [], [.returned 1, .requested, .requested, .started 1, .requested], rfl, by decide⟩
  rw [← hlater] at hcaught
  rcases hcall.drained gatedCaller 2 rfl rfl rfl _ _ trail_gateOpened with ⟨-, hend, -⟩ | ⟨hs, -⟩
  · exact ((hend hcaught).2 rfl).1
  · exact absurd (congrArg List.length hs) (by decide +kernel)

end GracePeriod.Machine
