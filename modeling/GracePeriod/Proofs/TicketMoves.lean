import GracePeriod.Proofs.HandleInvariant

namespace GracePeriod

/-- Thread `t` neither waits for news nor for its own end, and it has not ended. -/
def Status.Unblocked (t : Nat) : Status → Prop
  | .waiting _ | .ended _ => False
  | .joining u => u ≠ t
  | _ => True

namespace Machine

variable {t u d e slot : Nat} {m m₀ m' m'' n : Machine} {k : Kind} {f : Frame} {top : Option Frame}

/-- There is somebody who can ask the drain task for a pass. -/
def Wanted (m : Machine) (d : Nat) : Prop := ∀ e k, m.Serves d e k → 0 < (m.engine e).handles

/-- Tickets stay, and at most the thread itself goes on to something else, though not to wait for news
or to end. -/
structure KeepsTickets (t : Nat) (m m' : Machine) : Prop where
  drain : ∀ d, (m'.drain d).thread = (m.drain d).thread ∧
    (m'.drain d).waiters = (m.drain d).waiters ∧ (m'.drain d).tickets = (m.drain d).tickets
  size : m.drains.size ≤ m'.drains.size
  others : ∀ u, u ≠ t → (m'.thread u).status = (m.thread u).status
  own : (m'.thread t).status = (m.thread t).status ∨ (m'.thread t).status.Unblocked t

/-- What happens at once in a turn of thread `t` that begins with machine `m₀`. -/
inductive TicketMove (t : Nat) (m₀ : Machine) : Machine → Machine → Prop
  | keepsTickets {m m' : Machine} (h : KeepsTickets t m m') : TicketMove t m₀ m m'
  | request (m : Machine) (d : Nat) (h : m₀.Wanted d) : TicketMove t m₀ m (m.requestPass d)
  | complete (m : Machine) (d n : Nat) (h : (m.drain d).thread = t) :
      TicketMove t m₀ m ((m.modifyDrain d fun x => { x with tickets := x.tickets.complete n }).notify d)
  | close (m : Machine) (d : Nat) :
      TicketMove t m₀ m ((m.modifyDrain d fun x => { x with tickets := x.tickets.close }).notify d)
  | wait (m : Machine) (d : Nat)
      (h : (m.drain d).thread = t → (m.drain d).tickets.duty = .rest) : TicketMove t m₀ m (m.waitFor t d)
  | hire (m : Machine) (name : ThreadName) (systemName : String) (x : Drain) (h : x.tickets = {}) :
      TicketMove t m₀ m (m.spawnDrain name systemName x).2

abbrev TicketMoves (t : Nat) (m₀ : Machine) : Machine → Machine → Prop :=
  Relation.ReflTransGen (TicketMove t m₀)

/-- A drain thread ends when it has nothing to do and is told to stop, or with the panic of a pass. No
other thread ends in a turn of its own. -/
inductive TurnEnd (top : Option Frame) (t : Nat) (m₀ m' : Machine) : Prop
  | goesOn (h : TicketMoves t m₀ m₀ m')
  | retires (n : Machine) (h : TicketMoves t m₀ m₀ n) (d : Nat) (ticket : Option Nat)
      (ht : top = some (.worker d ticket)) (hd : (n.drain d).tickets.duty = .stop)
      (he : m' = n.endThread t none)
  | dies (d : Nat) (ticket : Option Nat) (p : Payload) (ht : top = some (.worker d ticket))
      (hc : (m₀.thread t).control = .back (.error p)) (he : m' = m₀.endThread t (some p))

namespace KeepsTickets

theorem of_status (hd : m'.drains = m.drains) (hs : ∀ u, (m'.thread u).status = (m.thread u).status) :
    KeepsTickets t m m' := by
  have hdrain (d : Nat) : m'.drain d = m.drain d := congrArg (Table.get · d) hd
  exact ⟨fun d => by rw [hdrain]; exact ⟨rfl, rfl, rfl⟩, by rw [hd], fun u _ => hs u, .inl (hs t)⟩

theorem of_threads (hd : m'.drains = m.drains) (ht : m'.threads = m.threads) : KeepsTickets t m m' :=
  .of_status hd fun u => congrArg (fun ts => (Table.get ts u).status) ht

theorem trans (h : KeepsTickets t m m') (h' : KeepsTickets t m' m'') : KeepsTickets t m m'' := by
  refine ⟨fun d => ?_, h.size.trans h'.size, fun u hu => (h'.others u hu).trans (h.others u hu), ?_⟩
  · obtain ⟨ht, hw, hk⟩ := h.drain d
    obtain ⟨ht', hw', hk'⟩ := h'.drain d
    exact ⟨ht'.trans ht, hw'.trans hw, hk'.trans hk⟩
  · rcases h'.own with hs | hs
    · rw [hs]
      exact h.own
    · exact .inr hs

theorem keepsStacks (h : KeepsStacks t m m') : KeepsTickets t m m' := .of_status h.drains h.status

theorem modifyThread (m : Machine) (t : Nat) {f : Thread → Thread}
    (hf : ∀ x, (f x).status = x.status ∨ (f x).status.Unblocked t) :
      KeepsTickets t m (m.modifyThread t f) := by
  refine ⟨fun _ => ⟨rfl, rfl, rfl⟩, Nat.le_refl _, fun u hu => ?_, ?_⟩
  · rw [thread_modifyThread_ne m f hu]
  · rw [thread_modifyThread_self]
    exact hf _

theorem push (m : Machine) (t : Nat) (f : Frame) : KeepsTickets t m (m.push t f) :=
  modifyThread m t fun _ => .inl rfl

theorem back (m : Machine) (t : Nat) (o : Outcome) : KeepsTickets t m (m.back t o) :=
  modifyThread m t fun _ => .inl rfl

theorem emit (m : Machine) (t u : Nat) (v : Event) : KeepsTickets t m (m.emit u v) := .of_threads rfl rfl

theorem modifyEngine (m : Machine) (t e : Nat) (f : Engine → Engine) :
    KeepsTickets t m (m.modifyEngine e f) :=
  .of_threads rfl rfl

theorem slots (m : Machine) (t : Nat) (slots : Table Slot) : KeepsTickets t m { m with slots } :=
  .of_threads rfl rfl

theorem stop (m : Machine) (t : Nat) {s : Status} (hs : s.Unblocked t) : KeepsTickets t m (m.stop t s) :=
  (modifyThread m t (f := fun x => { x with status := s }) fun _ => .inr hs).trans (.of_threads rfl rfl)

theorem wake (m : Machine) (t : Nat) : KeepsTickets t m (m.wake t) :=
  (modifyThread m t (f := fun x => { x with status := .active }) fun _ => .inr trivial).trans
    (.of_threads rfl rfl)

theorem join (m : Machine) {t u : Nat} (hu : u ≠ t) : KeepsTickets t m (m.join t u) := by
  unfold Machine.join
  dsimp only
  have hs : KeepsTickets t m (m.stop t (.joining u)) := stop m t hu
  split
  · exact hs
  · exact hs.trans (wake _ t)

theorem modifyDrain (m : Machine) (t d : Nat) {f : Drain → Drain}
    (hf : ∀ x, (f x).thread = x.thread ∧ (f x).waiters = x.waiters ∧ (f x).tickets = x.tickets) :
    KeepsTickets t m (m.modifyDrain d f) :=
  ⟨fun d' => ⟨part_modifyDrain Drain.thread m d d' fun x => (hf x).1,
      part_modifyDrain Drain.waiters m d d' fun x => (hf x).2.1,
      part_modifyDrain Drain.tickets m d d' fun x => (hf x).2.2⟩,
    Table.size_le_modify .., fun _ _ => rfl, .inl rfl⟩

theorem batchMoves (h : BatchMoves t m m') : KeepsTickets t m m' := .of_status h.tables.1 h.status

end KeepsTickets

theorem Wanted.back (h : m'.Wanted d) (hk : Kept m m')
    (ha : ∀ e, 0 < (m'.engine e).handles → 0 < (m.engine e).handles) : m.Wanted d :=
  fun e k hs => ha e (h e k (hs.kept hk).1)

theorem FoundsNone.wanted (h : FoundsNone m m') (hw : m'.Wanted d) : m.Wanted d := hw.back h.kept h.alive

namespace TicketMoves

theorem keepsTickets (h : TicketMoves t m₀ m m') (hs : KeepsTickets t m' m'') : TicketMoves t m₀ m m'' :=
  h.tail (.keepsTickets hs)

theorem mono (h : TicketMoves t n m m') (hw : ∀ d, n.Wanted d → m₀.Wanted d) : TicketMoves t m₀ m m' := by
  refine Relation.ReflTransGen.mono (fun a b hs => ?_) _ _ h
  cases hs with
  | keepsTickets h => exact .keepsTickets h
  | request d h => exact .request a d (hw d h)
  | complete d n h => exact .complete a d n h
  | close d => exact .close a d
  | wait d h => exact .wait a d h
  | hire name systemName x h => exact .hire a name systemName x h

theorem shutdown (h : TicketMoves t m₀ n m) (ds : List Nat) (saved : Outcome) :
    TicketMoves t m₀ n (m.shutdown t ds saved) := by
  cases ds with
  | nil => exact h.keepsTickets (.back ..)
  | cons d ds =>
    have hc := h.tail (.close m d)
    unfold Machine.shutdown
    dsimp only
    split
    · exact TicketMoves.keepsTickets hc ((KeepsTickets.push ..).trans (.back ..))
    · rename_i hu
      exact TicketMoves.keepsTickets hc (((KeepsTickets.push ..).trans (.back ..)).trans (.join _ hu))

theorem releaseHandle (h : TicketMoves t m₀ n m) (e : Nat) (o : Outcome) :
    TicketMoves t m₀ n (m.releaseHandle t e o) := by
  have hm := h.keepsTickets (.modifyEngine m t e fun x => { x with handles := (m.engine e).handles - 1 })
  unfold Machine.releaseHandle
  dsimp only
  split
  · exact (hm.keepsTickets (.emit _ t t _)).shutdown _ o
  · exact hm.keepsTickets (.back ..)

theorem startEngine (h : TicketMoves t m₀ n m) (slot : Option Nat) (c : Config) (p : Access) :
    TicketMoves t m₀ n (m.startEngine slot c p).2 := by
  have h1 : TicketMoves t m₀ n (m.startFirst slot c) := h.tail (.hire m _ _ _ rfl)
  have h2 : TicketMoves t m₀ n (m.startSecond slot c) := h1.tail (.hire _ _ _ _ rfl)
  exact h2.keepsTickets (.of_threads rfl rfl)

end TicketMoves

theorem PlainMove.ticketMoves (h : PlainMove t m m') (hp : m.Paired) : TicketMoves t m m m' := by
  have hkeeps {n : Machine} (h : KeepsTickets t m n) : TicketMoves t m m n := .single (.keepsTickets h)
  cases h with
  | keepsNests h => exact hkeeps (.keepsStacks h.toKeepsStacks)
  | push f hf | loop d ticket => exact hkeeps (.push ..)
  | next f op hf hb => exact hkeeps ((KeepsTickets.push m t f).trans (.modifyThread _ t fun _ => .inl rfl))
  | count d f hf => exact hkeeps (.modifyDrain m t d fun x => (hf x).2)
  | request d hd =>
    refine .single (.request m d fun e k hs => ?_)
    rw [show (m.drain d).work = .callbacks e k from hs] at hd
    cases hd
  | complete d n hd => exact .single (.complete m d n hd)
  | enqueue e k c hpos =>
    have hd (n : Machine) (hn : ∀ e, (n.engine e).drains = (m.engine e).drains) :
        ((n.modifyEngine e fun x => x.setQueue k (x.queue k ++ [c])).engine e).drains =
          (m.engine e).drains :=
      (part_modifyEngine Engine.drains n e e (f := fun x => x.setQueue k (x.queue k ++ [c]))
        fun _ => rfl).trans (hn e)
    have hw : m.Wanted ((m.engine e).drains.get k) := by
      intro e' k' hs
      obtain ⟨rfl, rfl⟩ := Work.callbacks.inj ((hp e k hpos).symm.trans hs)
      exact hpos
    have hpass (n : Machine) (h : TicketMoves t m m n)
        (hn : ∀ e, (n.engine e).drains = (m.engine e).drains) : TicketMoves t m m
          (((n.modifyEngine e fun x => x.setQueue k (x.queue k ++ [c])).mark t e k (.queued c)).requestPass
            (((n.modifyEngine e fun x => x.setQueue k (x.queue k ++ [c])).engine e).drains.get k)) := by
      refine ((h.keepsTickets (.modifyEngine n t e _)).keepsTickets (.emit _ t t _)).tail (.request _ _ ?_)
      rw [hd n hn]
      exact hw
    unfold Machine.enqueue
    dsimp only
    split
    · exact hpass (m.retain e) (hkeeps (.modifyEngine m t e _)) fun e' =>
        part_modifyEngine Engine.drains m e e' fun _ => rfl
    · exact hpass m .refl fun _ => rfl
  | visit e hpos => exact hkeeps ((KeepsTickets.modifyEngine m t e _).trans (.push (m.retain e) t _))
  | clone e slot n hpos hs hn => exact hkeeps (.of_threads rfl rfl)
  | detach e k =>
    exact hkeeps ((KeepsTickets.modifyEngine m t e _).trans (.push (m.modifyEngine e _) t _))
  | spawnTask name passes =>
    exact (Relation.ReflTransGen.single (TicketMove.hire m .bare name _ rfl)).tail
      (.keepsTickets (.of_threads rfl rfl))
  | dropTask => exact hkeeps (.of_threads rfl rfl)

theorem PlainMoves.ticketMoves (h : PlainMoves t m m') (hp : m.Paired) : TicketMoves t m m m' := by
  induction h with
  | refl => exact .refl
  | tail hcs hc ih =>
    have ht := PlainMoves.foundsNone hcs
    exact ih.trans ((hc.ticketMoves (hp.foundsNone ht)).mono fun _ => ht.wanted)

theorem StepEffect.turnEnd (h : StepEffect top t m₀ m') (hp : m₀.Paired)
    (hf : ∀ f, top = some f → m₀.Fitting t f) : TurnEnd top t m₀ m' := by
  have hall {n : Machine} (h : PlainMoves t m₀ n) : TicketMoves t m₀ m₀ n := h.ticketMoves hp
  /- The calm part of the turn keeps everything, so chores that follow are chores of the turn. -/
  have hafter {n n' m' : Machine} (h : PlainMoves t m₀ n) (hq : KeepsPlaces n n') (hs : KeepsTickets t n n')
      (h' : PlainMoves t n' m') : TicketMoves t m₀ m₀ m' := by
    have ht := h.foundsNone.keepsPlaces hq
    exact ((hall h).keepsTickets hs).trans ((h'.ticketMoves (hp.foundsNone ht)).mono fun _ => ht.wanted)
  cases h with
  | plainMoves h => exact .goesOn (hall h)
  | idle h hs => exact .goesOn ((hall h).keepsTickets (.stop _ t trivial))
  | park h p => exact .goesOn (((hall h).keepsTickets (.back ..)).keepsTickets (.stop _ t trivial))
  | await d ticket ht =>
    exact .goesOn ((Relation.ReflTransGen.single (.keepsTickets (.push ..))).tail
      (.wait _ d fun hd => absurd hd (hf _ ht)))
  | raw h e k hr hn h' =>
    have hc := KeepsStacks.crossing hn
    exact .goesOn (hafter h (.keepsStacks hc) (.keepsStacks hc) h')
  | refused h e k f hf => exact .goesOn ((hall h).keepsTickets (.keepsStacks (.refused ..)))
  | @guard n _ h e k ho h' =>
    have hc := KeepsStacks.readLock n t e k
    exact .goesOn (hafter h ((KeepsPlaces.keepsStacks hc).trans (.push _ t (.leave e k)))
      ((KeepsTickets.keepsStacks hc).trans (.push _ t (.leave e k))) h')
  | leave e k o ht => exact .goesOn (.single (.keepsTickets (.keepsStacks (.leave ..))))
  | release e o ht => exact .goesOn (TicketMoves.releaseHandle .refl e o)
  | dropHandle h slot e n o hs hn =>
    exact .goesOn (((hall h).keepsTickets (.slots _ t _)).releaseHandle e o)
  | @built n n' h slot c p o hs h' =>
    have hn : KeepsTickets t n' { n' with slots := n'.slots.set slot ⟨n.engines.size, 1⟩ } :=
      .of_threads rfl rfl
    exact .goesOn (((hall h).startEngine (some slot) c p).keepsTickets
      (((KeepsTickets.keepsStacks h'.toKeepsStacks).trans hn).trans (.back ..)))
  | builtDefault h c p o h' =>
    exact .goesOn ((((hall h).startEngine none c p).keepsTickets
      (.keepsStacks h'.toKeepsStacks)).releaseHandle _ o)
  | batch h e k cs ht =>
    exact .goesOn (.single (.keepsTickets
      ((KeepsTickets.keepsStacks h.toKeepsStacks).trans (.batchMoves (.runBatch ..)))))
  | discard e k cs p ht => exact .goesOn (.single (.keepsTickets (.batchMoves (.discardBatch ..))))
  | @rest n h d ticket ht hd =>
    exact .goesOn (((hall h).keepsTickets (.push n t (.worker d none))).tail (.wait _ d fun _ => hd))
  | @retire n h d ticket ht hd hc => exact .retires n (hall h) d ticket ht hd rfl
  | die d ticket p ht hc => exact .dies d ticket p ht hc rfl
  | releaseTask h d o hd => exact .goesOn ((hall h).shutdown _ o)
  | shutdown ds saved ht => exact .goesOn (TicketMoves.shutdown .refl ds saved)
  | joined d ds saved ht =>
    obtain ⟨n, hq, heq⟩ := resumeJoined_eq m₀ t d ds saved
    rw [heq]
    exact .goesOn (.single (.keepsTickets ((KeepsTickets.keepsStacks hq.toKeepsStacks).trans
      ((KeepsTickets.push ..).trans (.back ..)))))

/-- What the thread does that has the turn. -/
theorem Reachable.turnEnd (h : Reachable m) (ht : m.turn = some t) :
    ∃ top n, Starts t m top n ∧ TurnEnd top t n (m.advance t) := by
  obtain ⟨top, n, hn, hc, he⟩ := h.stepEffect ht
  have hl := isLive_of_active (h.visited.orderly.turn t ht).1
  obtain ⟨-, -, -, htop, hp, -⟩ := h.handleInvariant.starts hn hl hc
  exact ⟨top, n, hn, he.turnEnd hp htop⟩

/-- What a turn of thread `t` that begins with `m₀` does to the tickets of a drain task. -/
structure TicketChange (t d : Nat) (m₀ m m' : Machine) : Prop where
  size : m.drains.size ≤ m'.drains.size
  thread : (m'.drain d).thread = (m.drain d).thread
  requested : ¬m₀.Wanted d → (m'.drain d).tickets.requested = (m.drain d).tickets.requested
  completed : (m.drain d).thread ≠ t →
    (m'.drain d).tickets.completed = (m.drain d).tickets.completed
  shut : m.isShut d = true → m'.isShut d = true

theorem TicketChange.trans (h : TicketChange t d m₀ m m') (h' : TicketChange t d m₀ m' m'') :
    TicketChange t d m₀ m m'' where
  size := h.size.trans h'.size
  thread := h'.thread.trans h.thread
  requested hw := (h'.requested hw).trans (h.requested hw)
  completed ht := (h'.completed (by rwa [h.thread])).trans (h.completed ht)
  shut hs := h'.shut (h.shut hs)

theorem TicketChange.news (m : Machine) (d' : Nat) {f : Drain → Drain}
    (hf : ∀ x, (f x).thread = x.thread ∧ (x.tickets.shutdown = true → (f x).tickets.shutdown = true))
    (hr : d = d' → ¬m₀.Wanted d → ∀ x, (f x).tickets.requested = x.tickets.requested)
    (hc : d = d' → (m.drain d).thread ≠ t → ∀ x, (f x).tickets.completed = x.tickets.completed) :
    TicketChange t d m₀ m ((m.modifyDrain d' f).notify d') := by
  have hn {β : Type} (p : Drain → β) (hp : ∀ x l, p { x with waiters := l } = p x) :=
    part_drain_notify p hp (m.modifyDrain d' f) d' d
  have hd := drain_modifyDrain m d' d f
  refine ⟨?_, (hn Drain.thread fun _ _ => rfl).trans ?_, fun hw =>
    (hn (fun x => x.tickets.requested) fun _ _ => rfl).trans ?_, fun ht =>
    (hn (fun x => x.tickets.completed) fun _ _ => rfl).trans ?_, fun hs =>
    (hn (fun x => x.tickets.shutdown) fun _ _ => rfl).trans ?_⟩
  · rw [notify_eq]
    exact (Table.size_le_modify ..).trans (Table.size_le_modify ..)
  all_goals
    rw [hd]
    split
  · exact (hf _).1
  · rfl
  · exact hr ‹_› hw _
  · rfl
  · exact hc ‹_› ht _
  · rfl
  · exact (hf _).2 hs
  · exact hs

theorem TicketMove.ticketChange (h : TicketMove t m₀ m m') (hd : d < m.drains.size) :
    TicketChange t d m₀ m m' := by
  cases h with
  | keepsTickets h =>
    obtain ⟨ht, -, hk⟩ := h.drain d
    exact ⟨h.size, ht, fun _ => by rw [hk], fun _ => by rw [hk], fun hs => by rwa [isShut, hk]⟩
  | request d' h =>
    refine .news m d' (f := fun x => { x with tickets := x.tickets.request }) (fun _ => ⟨rfl, id⟩)
      (fun hdd hw => ?_) fun _ _ _ => rfl
    rw [hdd] at hw
    exact absurd h hw
  | complete d' n h =>
    refine .news m d' (f := fun x => { x with tickets := x.tickets.complete n }) (fun _ => ⟨rfl, id⟩)
      (fun _ _ _ => rfl) fun hdd ht => ?_
    rw [hdd] at ht
    exact absurd h ht
  | close d' =>
    exact .news m d' (f := fun x => { x with tickets := x.tickets.close }) (fun _ => ⟨rfl, fun _ => rfl⟩)
      (fun _ _ _ => rfl) fun _ _ _ => rfl
  | wait d' h =>
    have hd' {β : Type} (p : Drain → β) (hp : ∀ x l, p { x with waiters := l } = p x) :
        p ((m.waitFor t d').drain d) = p (m.drain d) :=
      part_modifyDrain p (m.done t) d' d (f := fun x => { x with waiters := x.waiters ++ [t] })
        fun x => hp x _
    exact ⟨Table.size_le_modify .., hd' Drain.thread fun _ _ => rfl,
      fun _ => hd' (fun x => x.tickets.requested) fun _ _ => rfl,
      fun _ => hd' (fun x => x.tickets.completed) fun _ _ => rfl,
      fun hs => (hd' (fun x => x.tickets.shutdown) fun _ _ => rfl).trans hs⟩
  | hire name systemName x h =>
    have hold := (drain_spawnDrain m name systemName x d).trans (if_neg (Nat.ne_of_lt hd))
    refine ⟨(Nat.le_succ _).trans (Table.size_push ..).ge, by rw [hold], fun _ => by rw [hold],
      fun _ => by rw [hold], fun hs => ?_⟩
    rwa [isShut, hold]

theorem TicketMoves.ticketChange (h : TicketMoves t m₀ m m') (hd : d < m.drains.size) :
    TicketChange t d m₀ m m' := by
  induction h with
  | refl => exact ⟨Nat.le_refl _, rfl, fun _ => rfl, fun _ => rfl, id⟩
  | tail _ hs ih => exact ih.trans (hs.ticketChange (Nat.lt_of_lt_of_le hd ih.size))

theorem TicketMove.ended {q : Option Payload} (h : TicketMove t m₀ m m')
    (hs : (m'.thread u).status = .ended q) :
    (m.thread u).status = .ended q := by
  have hnews (d : Nat) (f : Drain → Drain)
      (hs : (((m.modifyDrain d f).notify d).thread u).status = .ended q) :
      (m.thread u).status = .ended q := by
    rw [thread_notify] at hs
    split at hs
    · cases hs
    · exact hs
  cases h with
  | keepsTickets h =>
    by_cases hu : u = t
    · subst hu
      rcases h.own with ho | ho
      · exact ho.symm.trans hs
      · rw [hs] at ho
        exact ho.elim
    · exact (h.others u hu).symm.trans hs
  | request d h => exact hnews d _ hs
  | complete d n h => exact hnews d _ hs
  | close d => exact hnews d _ hs
  | wait d h =>
    have ht := thread_modifyThread ((m.done t).modifyDrain d fun x => { x with waiters := x.waiters ++ [t] })
      t u fun x => { x with status := .waiting d }
    rw [show (m.waitFor t d).thread u = _ from ht] at hs
    split at hs
    · cases hs
    · exact (status_back m t _ u).symm.trans hs
  | hire name systemName x h =>
    rw [thread_spawnDrain] at hs
    split at hs
    · cases hs
    · exact hs

theorem TicketMoves.ended {q : Option Payload} (h : TicketMoves t m₀ m m')
    (hs : (m'.thread u).status = .ended q) : (m.thread u).status = .ended q := by
  induction h with
  | refl => exact hs
  | tail _ hx ih => exact ih (hx.ended hs)

theorem ended_of_endThread {p q : Option Payload} (hs : ((m.endThread t p).thread u).status = .ended q) :
    (m.thread u).status = .ended q ∨ u = t ∧ q = p := by
  rcases status_endThread_cases m t p u with h | ⟨hu, h⟩ | ⟨-, h⟩
  · exact .inl (h.symm.trans hs)
  · exact .inr ⟨hu, Status.ended.inj (hs.symm.trans h)⟩
  · cases hs.symm.trans h

end Machine

end GracePeriod
