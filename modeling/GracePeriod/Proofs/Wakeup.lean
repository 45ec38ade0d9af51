import GracePeriod.Proofs.Stage
import GracePeriod.Proofs.TicketMoves

namespace GracePeriod.Machine

open History

variable {t u d e : Nat} {m m₀ m' n : Machine} {k : Kind} {f : Frame} {top : Option Frame}

/-- Who waits for a drain task is in its list, and its own thread waits only when it has nothing to
do. -/
structure Attentive (m : Machine) : Prop where
  listed : ∀ u d, (m.thread u).status = .waiting d → u ∈ (m.drain d).waiters
  resting : ∀ u d, (m.thread u).status = .waiting d → (m.drain d).thread = u →
    (m.drain d).tickets.duty = .rest

namespace Attentive

theorem same (h : Attentive m)
    (hs : ∀ u d, (m'.thread u).status = .waiting d → (m.thread u).status = .waiting d)
    (hd : ∀ d, (m'.drain d).thread = (m.drain d).thread ∧
      (m'.drain d).waiters = (m.drain d).waiters ∧ (m'.drain d).tickets = (m.drain d).tickets) :
    Attentive m' := by
  refine ⟨fun u d hu => ?_, fun u d hu ht => ?_⟩
  · rw [(hd d).2.1]
    exact h.listed u d (hs u d hu)
  · rw [(hd d).1] at ht
    rw [(hd d).2.2]
    exact h.resting u d (hs u d hu) ht

theorem news (h : Attentive m) (d : Nat) {f : Drain → Drain}
    (hf : ∀ x, (f x).thread = x.thread ∧ (f x).waiters = x.waiters) :
    Attentive ((m.modifyDrain d f).notify d) := by
  let n := m.modifyDrain d f
  have hwaiters (d' : Nat) : (n.drain d').waiters = (m.drain d').waiters :=
    part_modifyDrain Drain.waiters m d d' fun x => (hf x).2
  /- Who still waits, waits for another task, about which nothing has changed. -/
  have hother {u d' : Nat} (hu : ((n.notify d).thread u).status = .waiting d') :
      (m.thread u).status = .waiting d' ∧ d' ≠ d := by
    rw [thread_notify, hwaiters] at hu
    split at hu
    · cases hu
    · rename_i hmem
      refine ⟨hu, ?_⟩
      rintro rfl
      exact hmem (h.listed u d' hu)
  have hdrain {d' : Nat} (hne : d' ≠ d) : (n.notify d).drain d' = m.drain d' := by
    have hn : (n.notify d).drain d' = (n.modifyDrain d fun x => { x with waiters := [] }).drain d' := by
      rw [notify_eq]
      rfl
    rw [hn, drain_modifyDrain, if_neg hne]
    exact (drain_modifyDrain m d d' f).trans (if_neg hne)
  refine ⟨fun u d' hu => ?_, fun u d' hu ht => ?_⟩
  · obtain ⟨hu, hne⟩ := hother hu
    rw [hdrain hne]
    exact h.listed u d' hu
  · obtain ⟨hu, hne⟩ := hother hu
    rw [hdrain hne] at ht ⊢
    exact h.resting u d' hu ht

theorem waitFor (h : Attentive m) (hd : (m.drain d).thread = t → (m.drain d).tickets.duty = .rest) :
    Attentive (m.waitFor t d) := by
  have hthread (u : Nat) : ((m.waitFor t d).thread u).status =
      if u = t then .waiting d else (m.thread u).status := by
    have ht := thread_modifyThread ((m.done t).modifyDrain d fun x =>
      { x with waiters := x.waiters ++ [t] }) t u fun x => { x with status := .waiting d }
    rw [show (m.waitFor t d).thread u = _ from ht]
    split
    · rfl
    · exact status_back m t _ u
  have hdrain (d' : Nat) : (m.waitFor t d).drain d' =
      if d' = d then { m.drain d' with waiters := (m.drain d').waiters ++ [t] } else m.drain d' :=
    drain_modifyDrain (m.done t) d d' _
  refine ⟨fun u d' hu => ?_, fun u d' hu ht => ?_⟩
  · rw [hthread] at hu
    rw [hdrain]
    split at hu
    · rename_i hut
      obtain rfl := Status.waiting.inj hu
      rw [if_pos rfl, hut]
      exact List.mem_append_right _ List.mem_cons_self
    · have := h.listed u d' hu
      split
      · exact List.mem_append_left _ this
      · exact this
  · have hsame : ((m.waitFor t d).drain d').thread = (m.drain d').thread ∧
        ((m.waitFor t d).drain d').tickets = (m.drain d').tickets := by
      rw [hdrain]
      split <;> exact ⟨rfl, rfl⟩
    rw [hsame.1] at ht
    rw [hsame.2]
    rw [hthread] at hu
    split at hu
    · rename_i hut
      obtain rfl := Status.waiting.inj hu
      exact hd (ht.trans hut)
    · exact h.resting u d' hu ht

theorem spawnDrain (h : Attentive m) (name : ThreadName) (systemName : String) {x : Drain}
    (hx : x.tickets = {}) : Attentive (m.spawnDrain name systemName x).2 := by
  have hthread (u : Nat) : ((m.spawnDrain name systemName x).2.thread u).status =
      if u = m.threads.size then .waiting m.drains.size else (m.thread u).status := by
    rw [thread_spawnDrain]
    split <;> rfl
  have hdrain := drain_spawnDrain m name systemName x
  have hnone {u d' : Nat} (hu : (m.thread u).status = .waiting d') : d' ≠ m.drains.size := by
    rintro rfl
    have hw := h.listed u _ hu
    rw [drain, Table.get_of_size_le (Nat.le_refl _)] at hw
    cases hw
  refine ⟨fun u d' hu => ?_, fun u d' hu ht => ?_⟩
  · rw [hthread] at hu
    rw [hdrain]
    split at hu
    · rename_i hun
      obtain rfl := Status.waiting.inj hu
      rw [if_pos rfl, hun]
      exact List.mem_cons_self
    · rw [if_neg (hnone hu)]
      exact h.listed u d' hu
  · rw [hthread] at hu
    rw [hdrain] at ht ⊢
    split at hu
    · obtain rfl := Status.waiting.inj hu
      rw [if_pos rfl]
      show x.tickets.duty = .rest
      rw [hx]
      rfl
    · rw [if_neg (hnone hu)] at ht ⊢
      exact h.resting u d' hu ht

theorem endThread (h : Attentive m) (t : Nat) (p : Option Payload) : Attentive (m.endThread t p) := by
  have hdrain (d : Nat) : (m.endThread t p).drain d = m.drain d := by
    rw [drain, drains_endThread, drain]
  refine h.same (fun u d hu => ?_) fun d => by rw [hdrain]; exact ⟨rfl, rfl, rfl⟩
  rcases status_endThread_cases m t p u with hs | ⟨-, hs⟩ | ⟨-, hs⟩
  · exact hs.symm.trans hu
  · cases hs.symm.trans hu
  · cases hs.symm.trans hu

end Attentive

theorem KeepsTickets.attentive (h : KeepsTickets t m m') (ha : Attentive m) : Attentive m' := by
  refine ha.same (fun u d hu => ?_) h.drain
  by_cases hut : u = t
  · subst hut
    rcases h.own with ho | ho
    · exact ho.symm.trans hu
    · rw [hu] at ho
      exact ho.elim
  · exact (h.others u hut).symm.trans hu

theorem TicketMove.attentive (h : TicketMove t m₀ m m') (ha : Attentive m) : Attentive m' := by
  cases h with
  | keepsTickets h => exact h.attentive ha
  | request d h => exact ha.news d fun _ => ⟨rfl, rfl⟩
  | complete d n h => exact ha.news d fun _ => ⟨rfl, rfl⟩
  | close d => exact ha.news d fun _ => ⟨rfl, rfl⟩
  | wait d h => exact ha.waitFor h
  | hire name systemName x h => exact ha.spawnDrain name systemName h

theorem TicketMoves.attentive (h : TicketMoves t m₀ m m') (ha : Attentive m) : Attentive m' := by
  induction h with
  | refl => exact ha
  | tail _ hs ih => exact hs.attentive ih

theorem External.attentive (h : External m m') (ha : Attentive m) : Attentive m' := by
  have hdrain (d : Nat) : m'.drain d = m.drain d := congrArg (Table.get · d) h.drains
  refine ha.same (fun u d hu => ?_) fun d => by rw [hdrain]; exact ⟨rfl, rfl, rfl⟩
  rcases h.status_cases u with hs | ⟨-, hs⟩ | ⟨-, hs⟩ | ⟨-, hs⟩
  · exact hs.symm.trans hu
  all_goals cases hs.symm.trans hu

theorem TurnEnd.attentive (h : TurnEnd top t m₀ m') (ha : Attentive m₀) : Attentive m' := by
  cases h with
  | goesOn h => exact h.attentive ha
  | retires n h d ticket ht hd he =>
    rw [he]
    exact (h.attentive ha).endThread t none
  | dies d ticket p ht hc he =>
    rw [he]
    exact ha.endThread t _

theorem Reachable.attentive (h : Reachable m) : Attentive m := by
  induction h with
  | new hm =>
    obtain ⟨cs, -, rfl⟩ := new_eq hm
    constructor <;> (intro u d hu; rw [thread, Table.get_empty] at hu; cases hu)
  | begin h s ih =>
    exact (begin_externals _ s).preserves (fun _ _ _ he ha => he.attentive ha) h.visited.orderly ih
  | step h hb hs ih =>
    rcases step_cases hs with ⟨t, ht, rfl⟩ | ⟨t, rest, hn, hr, rfl⟩
    · obtain ⟨top, n, hn, hf⟩ := h.turnEnd ht
      refine hf.attentive (ih.same (fun u d hu => (hn.status u).symm.trans hu) fun d => ?_)
      rw [drain, hn.drains, drain]
      exact ⟨rfl, rfl, rfl⟩
    · exact ⟨ih.listed, ih.resting⟩

/-- A drain thread that has ended without a panic was told to stop and has served all requests. -/
def Retired (m : Machine) : Prop :=
  ∀ d e k, m.Serves d e k → (m.thread (m.drain d).thread).status = .ended none →
    m.isShut d = true ∧ (m.drain d).tickets.requested = (m.drain d).tickets.completed

/-- The thread of a drain task has ended, or its loop is the only one on the stack, at the bottom of
it; and the callbacks for which the ticket of the pass stands have been detached. -/
theorem Stage.loop (h : Stage t d e k m) : (m.thread t).stack = [] ∨ ∃ fs ticket batch,
    (m.thread t).stack = fs ++ [.worker d ticket] ∧ (∀ d' i, .worker d' i ∉ fs) ∧
      Holds m e k ticket batch := by
  have hnone {fs : List Frame} (hf : ∀ f ∈ fs, f.isPass = false) (d' : Nat) (i : Option Nat) :
      .worker d' i ∉ fs := fun hi => by cases hf _ hi
  cases h with
  | rest ticket o hs hc hh hf => exact .inr ⟨[], ticket, [], hs, nofun, hh⟩
  | waiting wakes c target pre batch ticket o hs hw hc hh hf hg hp =>
    refine .inr ⟨wakes ++ [.grace e k c target, .detached e k batch], ticket, batch, ?_, fun d' i hi => ?_,
      hh⟩
    · rw [hs, List.append_assoc]
      rfl
    · rcases List.mem_append.1 hi with hi | hi
      · cases hw _ hi
      · simp at hi
  | landed batch ticket o hs hc hh hf hr => exact .inr ⟨[.detached e k batch], ticket, batch, hs, by simp, hh⟩
  | running above batch ticket hs ha hh hf hr =>
    refine .inr ⟨above ++ [.batch e k batch], ticket, batch, ?_, fun d' i hi => ?_, hh⟩
    · rw [hs, List.append_assoc]
      rfl
    · rcases List.mem_append.1 hi with hi | hi
      · exact hnone ha d' i hi
      · simp at hi
  | beingStopped lost ticket hu hh hf =>
    obtain ⟨fs, o, hs, -, hu⟩ := hu
    exact .inr ⟨fs, ticket, lost, hs, hnone fun f hf => (hu.of_mem hf).1, hh⟩
  | gone lost p hs he hh hf hl => exact .inl hs

theorem Stage.worker_mem (h : Stage t d e k m) {d' : Nat} {ticket : Option Nat}
    (hw : .worker d' ticket ∈ (m.thread t).stack) : d' = d ∧ ∃ batch, Holds m e k ticket batch := by
  rcases h.loop with hs | ⟨fs, i, batch, hs, hn, hh⟩
  · rw [hs] at hw
    cases hw
  · rw [hs] at hw
    rcases List.mem_append.1 hw with hw | hw
    · exact absurd hw (hn d' ticket)
    · obtain ⟨rfl, rfl⟩ := Frame.worker.inj (List.mem_singleton.1 hw)
      exact ⟨rfl, batch, hh⟩

theorem Stage.not_idle (h : Stage t d e k m) (ho : Orderly m) : (m.thread t).status ≠ .idle := by
  intro hi
  rcases h.loop with hs | ⟨fs, ticket, batch, hs, -⟩
  · cases h with
    | gone lost p hs' he => cases hi.symm.trans he
    | rest _ _ hs' | landed _ _ _ hs' => exact absurd (hs.symm.trans hs') nofun
    | waiting _ _ _ _ _ _ _ hs' | running _ _ _ hs' => exact absurd (hs.symm.trans hs') (by simp)
    | beingStopped _ _ hu =>
      obtain ⟨fs, o, hs', -⟩ := hu
      exact absurd (hs.symm.trans hs') (by simp)
  · exact absurd ((ho.resting t (.inl hi)).symm.trans hs) (by simp)

theorem Reachable.stage (h : Reachable m) (hd : m.Serves d e k) : Stage (m.drain d).thread d e k m := by
  cases (h.ledger e k).1 with
  | unserved hn _ _ => exact absurd hd (hn d)
  | served d' hd' hs => rwa [h.visited.drainsAssigned.one hd hd']

theorem External.ended_of {q : Option Payload} (he : External m m')
    (hs : (m'.thread u).status = .ended q) :
    (m.thread u).status = .ended q ∨ (m.thread u).status = .idle ∧ q = none := by
  rcases he.status_cases u with h | ⟨-, h⟩ | ⟨-, h⟩ | ⟨hi, h⟩
  · exact .inl (h.symm.trans hs)
  · cases h.symm.trans hs
  · cases h.symm.trans hs
  · exact .inr ⟨hi, Status.ended.inj (hs.symm.trans h)⟩

theorem External.retired (he : External m m') (ho : Orderly m) (hl : ∀ e k, Ledger m e k)
    (hst : DrainsAssigned m) (hr : Retired m) : Retired m' := by
  intro d e k hd hs
  have hd₀ : m.Serves d e k := (he.work_eq d).symm.trans hd
  have hdrain : m'.drain d = m.drain d := congrArg (Table.get · d) he.drains
  rw [hdrain] at hs ⊢
  rw [isShut_of_drains he.drains]
  rcases he.ended_of hs with hs | ⟨hs, -⟩
  · exact hr d e k hd₀ hs
  · cases hl e k with
    | unserved hn _ _ => exact absurd hd₀ (hn d)
    | served d' hd' hstage =>
      obtain rfl := hst.one hd₀ hd'
      exact absurd hs (hstage.not_idle ho)

theorem duty_eq_stop {s : Tickets} : s.duty = .stop ↔ s.shutdown = true ∧ s.requested = s.completed := by
  unfold Tickets.duty
  split
  · split <;> simp_all
  · simp_all

theorem duty_eq_rest {s : Tickets} : s.duty = .rest ↔ s.shutdown = false ∧ s.requested = s.completed := by
  unfold Tickets.duty
  split
  · split <;> simp_all
  · simp_all

theorem HandleInvariant.not_wanted (h : HandleInvariant m) (hd : m.Serves d e k) (hs : m.isShut d = true) :
    ¬m.Wanted d := fun hw =>
  Nat.ne_of_gt (hw e k hd) ((h.closed d hs).2 e k hd)

theorem TicketMoves.retired (hs : TicketMoves t n n m') (hw : n.isShut d = true → ¬n.Wanted d)
    (hr : Retired n)
    (hl : (n.thread t).status = .active) (hd : n.Serves d e k)
    (he : (m'.thread (n.drain d).thread).status = .ended none) :
    m'.isShut d = true ∧ (m'.drain d).tickets.requested = (m'.drain d).tickets.completed := by
  have hx := hs.ticketChange hd.lt_size
  have he₀ := hs.ended he
  obtain ⟨hshut, heq⟩ := hr d e k hd he₀
  have hne : (n.drain d).thread ≠ t := by
    intro hu
    rw [hu, hl] at he₀
    cases he₀
  rw [hx.requested (hw hshut), hx.completed hne]
  exact ⟨hx.shut hshut, heq⟩

theorem Retired.of_drains (hr : Retired m) (hd : m'.drains = m.drains)
    (hs : ∀ u, (m'.thread u).status = .ended none → (m.thread u).status = .ended none) :
    Retired m' := by
  intro d e k hserves he
  have hdrain : m'.drain d = m.drain d := congrArg (Table.get · d) hd
  rw [Serves, hdrain] at hserves
  rw [hdrain] at he ⊢
  rw [isShut_of_drains hd]
  exact hr d e k hserves (hs _ he)

theorem step_of_turn (ht : m.turn = some t) : m.step = some (m.advance t) := by
  rw [Machine.step, ht]

theorem advance_retired (h : Reachable m) (hb : m.BuildsIdle) (ht : m.turn = some t) (hr : Retired m) :
    Retired (m.advance t) := by
  intro d e k hd he
  have ho := h.visited.orderly
  have ho' := (h.step hb (step_of_turn ht)).visited.orderly
  have hold : m.Serves d e k := by
    rcases advance_startsService hb ht (ho.lt_size ht) d e k hd with hold | ⟨-, hs, -⟩
    · exact hold
    · exact absurd ((ho'.resting _ (.inr ⟨_, he⟩)).symm.trans hs) nofun
  have hth := (hold.kept (advance_kept hb ht)).2
  rw [hth] at he
  obtain ⟨top, n, hn, hf⟩ := h.turnEnd ht
  have hdrain (d : Nat) : n.drain d = m.drain d := congrArg (Table.get · d) hn.drains
  have hrn : Retired n := hr.of_drains hn.drains fun u hu => (hn.status u).symm.trans hu
  have hdn : n.Serves d e k := by
    rw [Serves, hdrain]
    exact hold
  have hgoes {n' : Machine} (hs : TicketMoves t n n n')
      (he : (n'.thread (m.drain d).thread).status = .ended none) :
      n'.isShut d = true ∧ (n'.drain d).tickets.requested = (n'.drain d).tickets.completed := by
    refine hs.retired (fun hshut hw => ?_) hrn ((hn.status t).trans (ho.turn t ht).1) hdn ?_
    · rw [isShut_of_drains hn.drains] at hshut
      exact h.handleInvariant.not_wanted hold hshut (hn.keepsPlaces.foundsNone.wanted hw)
    · rwa [hdrain]
  have hend {n' : Machine} {p : Option Payload}
      (hx : n'.isShut d = true ∧ (n'.drain d).tickets.requested = (n'.drain d).tickets.completed) :
      (n'.endThread t p).isShut d = true ∧ ((n'.endThread t p).drain d).tickets.requested =
        ((n'.endThread t p).drain d).tickets.completed := by
    have hd' : (n'.endThread t p).drain d = n'.drain d := congrArg (Table.get · d) (drains_endThread ..)
    rwa [isShut_of_drains (drains_endThread ..), hd']
  cases hf with
  | goesOn hs => exact hgoes hs he
  | retires n' hs d' ticket htop hduty heq =>
    rw [heq] at he ⊢
    refine hend ?_
    rcases ended_of_endThread he with he | ⟨hu, -⟩
    · exact hgoes hs he
    · -- the thread of `d` itself has nothing left to do
      have hstage := h.stage hold
      rw [hu] at hstage
      obtain ⟨rfl, -⟩ := hstage.worker_mem (hn.mem htop)
      exact duty_eq_stop.1 hduty
  | dies d' ticket p htop hc heq =>
    rw [heq] at he ⊢
    refine hend ?_
    rcases ended_of_endThread he with he | ⟨-, hp⟩
    · exact hgoes .refl he
    · cases hp

theorem Reachable.retired (h : Reachable m) : Retired m := by
  induction h with
  | new hm =>
    obtain ⟨cs, -, rfl⟩ := new_eq hm
    intro d e k hd _
    rw [Serves, drain, Table.get_empty] at hd
    cases hd
  | begin h s ih =>
    have hall := (begin_externals _ s).preserves
      (P := fun m => Retired m ∧ DrainsAssigned m ∧ ∀ e k, Ledger m e k)
      (fun n n' ho he hp => ⟨he.retired ho hp.2.2 hp.2.1 hp.1, hp.2.1.change (.external he),
        fun e k => he.ledger ⟨ho, hp.2.1⟩ (hp.2.2 e k)⟩)
      h.visited.orderly ⟨ih, h.visited.drainsAssigned, fun e k => (h.ledger e k).1⟩
    exact hall.1
  | step h hb hs ih =>
    rcases step_cases hs with ⟨t, ht, rfl⟩ | ⟨t, rest, hn, hr, rfl⟩
    · exact advance_retired h hb ht ih
    · exact ih.of_drains rfl fun _ => id

theorem Reachable.queue_eq_nil (h : Reachable m) (hd : m.Serves d e k)
    (hr : (m.drain d).tickets.requested = (m.drain d).tickets.completed) : m.queue e k = [] := by
  obtain ⟨hl, -, hc⟩ := h.ledger e k
  obtain ⟨batch, hh⟩ := (h.stage hd).holds
  have hq := congrArg List.length hh.queued
  have hreq := h.rooted.requested d e k hd
  have hcov := hc d hd
  have hfin := (h.stage hd).finished_started.length_le
  simp only [List.length_append] at hq
  exact List.eq_nil_of_length_eq_zero (by omega)

/-- While the thread of a drain task waits for news, there is nothing to do: all requests have been
served, nobody has told it to stop, and the queue is empty. What is in the queue during a pass, has
been asked for after the pass began. And a thread that has ended without a panic has left nothing
behind. -/
theorem no_wakeup_lost (h : Reachable m) (hd : m.Serves d e k) :
    ((m.thread (m.drain d).thread).status = .waiting d →
      (m.drain d).tickets.requested = (m.drain d).tickets.completed ∧
        (m.drain d).tickets.shutdown = false ∧ (m.engine e).queue k = []) ∧
    (∀ ticket, .worker d (some ticket) ∈ (m.thread (m.drain d).thread).stack →
      (m.engine e).queue k ≠ [] → ticket < (m.drain d).tickets.requested) ∧
    ((m.thread (m.drain d).thread).status = .ended none →
      (m.engine e).queue k = [] ∧
        (m.drain d).tickets.requested = (m.drain d).tickets.completed) := by
  refine ⟨fun hs => ?_, fun ticket hw hq => ?_, fun hs => ?_⟩
  · obtain ⟨hshut, heq⟩ := duty_eq_rest.1 (h.attentive.resting _ d hs rfl)
    exact ⟨heq, hshut, h.queue_eq_nil hd heq⟩
  · obtain ⟨-, batch, hh⟩ := (h.stage hd).worker_mem hw
    have hle := hh.ticket ticket rfl
    have hlen := congrArg List.length hh.queued
    have hpos : 0 < (m.queue e k).length := List.length_pos_iff.2 hq
    have hreq := h.rooted.requested d e k hd
    simp only [List.length_append] at hle hlen
    omega
  · obtain ⟨-, heq⟩ := h.retired d e k hd hs
    exact ⟨h.queue_eq_nil hd heq, heq⟩

/-- A callback is enqueued while the pass for an earlier one waits for its grace period. -/
def busySample : Machine := (retireWaiting.perform (.act 1 (.handle 0 (.deferDrop .regular 8 4)))).1

def restingSample : Machine := (busySample.wake 1).settle

def retiredSample : Machine := (restingSample.perform (.act 1 (.dropHandle 0))).1

theorem reachable_busySample : Reachable busySample :=
  reachable_retireWaiting.perform _ (by decide +kernel)

theorem reachable_restingSample : Reachable restingSample :=
  reachable_busySample.resumeOnly (by decide +kernel) (by decide +kernel)

theorem reachable_retiredSample : Reachable retiredSample :=
  reachable_restingSample.perform _ (by decide +kernel)

theorem busy_drain_thread_rests_and_retires :
    (.worker 0 (some 1) ∈ (busySample.thread 1).stack ∧
      (busySample.engine 0).queue .regular = [.destroy 4 (some 8)] ∧
      1 < (busySample.drain 0).tickets.requested) ∧
    ((restingSample.thread 1).status = .waiting 0 ∧
      (restingSample.drain 0).tickets.requested = (restingSample.drain 0).tickets.completed ∧
      (restingSample.drain 0).tickets.shutdown = false ∧
      (restingSample.engine 0).queue .regular = []) ∧
    ((retiredSample.thread 1).status = .ended none ∧
      (retiredSample.engine 0).queue .regular = [] ∧
      (retiredSample.drain 0).tickets.requested = (retiredSample.drain 0).tickets.completed) := by
  have hbusy := no_wakeup_lost reachable_busySample (d := 0) (e := 0) (k := .regular) rfl
  have hresting := no_wakeup_lost reachable_restingSample (d := 0) (e := 0) (k := .regular) rfl
  have hretired := no_wakeup_lost reachable_retiredSample (d := 0) (e := 0) (k := .regular) rfl
  have hs : (busySample.thread 1).stack = [.grace 0 .regular ⟨0, 0, .normal, false⟩ 0,
      .detached 0 .regular [.destroy 4 (some 7)], .worker 0 (some 1)] := rfl
  have hq : (busySample.engine 0).queue .regular = [.destroy 4 (some 8)] := rfl
  have hw : .worker 0 (some 1) ∈ (busySample.thread 1).stack := by
    rw [hs]
    simp
  exact ⟨⟨hw, hq, hbusy.2.1 1 hw (by rw [hq]; exact List.cons_ne_nil _ _)⟩,
    ⟨rfl, hresting.1 rfl⟩, ⟨rfl, hretired.2.2 rfl⟩⟩

end GracePeriod.Machine
