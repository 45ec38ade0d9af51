import GracePeriod.Proofs.TicketMoves

namespace GracePeriod

def Frame.toStop : Frame → Option (List Nat)
  | .shutdown ds _ => some ds
  | .joined d ds _ => some (d :: ds)
  | _ => none

namespace Machine

variable {t u v d e slot : Nat} {m m₀ m' m'' n : Machine} {k : Kind} {f : Frame} {top : Option Frame}

def Free (m : Machine) (t : Nat) : Prop := ∀ f ∈ (m.thread t).stack, f.toStop = none

/-- What is left to stop is the only thing that the thread is about, and it waits for the drain thread
that it has told to stop, unless that has ended. -/
structure Joins (m : Machine) (u : Nat) : Prop where
  alone : ∀ f ∈ (m.thread u).stack.tail, f.toStop = none
  back : ∀ f ∈ (m.thread u).stack, f.toStop ≠ none → ∃ o, (m.thread u).control = .back o
  waits : ∀ d ds saved e k, .joined d ds saved ∈ (m.thread u).stack → m.Serves d e k →
    (m.thread u).status = .joining (m.drain d).thread ∨ m.Ended (m.drain d).thread

theorem Free.joins (h : m.Free t) : m.Joins t where
  alone f hf := h f (List.mem_of_mem_tail hf)
  back f hf hs := absurd (h f hf) hs
  waits d ds saved e k hf _ := by cases h _ hf

theorem Pushes.toStop (h : m.Pushes t f) : f.toStop = none := by
  rcases h with h | ⟨e, rfl⟩ | ⟨d, i, rfl⟩ | ⟨e, k, cs, rfl⟩
  · cases f <;> first | rfl | exact h.elim
  all_goals rfl

namespace Free

theorem same (h : m.Free t) (hs : (m'.thread t).stack = (m.thread t).stack) : m'.Free t := by
  intro f hf
  rw [hs] at hf
  exact h f hf

theorem cons (h : m.Free t) (hf : f.toStop = none)
    (hs : (m'.thread t).stack = f :: (m.thread t).stack) : m'.Free t := by
  intro g hg
  rw [hs, List.mem_cons] at hg
  rcases hg with rfl | hg
  · exact hf
  · exact h g hg

theorem push (h : m.Free t) (hf : f.toStop = none) : (m.push t f).Free t := h.cons hf (stack_push ..)

theorem back (h : m.Free t) (o : Outcome) : (m.back t o).Free t := h.same (stack_back ..)

theorem stop (h : m.Free t) (s : Status) : (m.stop t s).Free t := h.same (stack_stop ..)

theorem emit (h : m.Free t) (v : Event) : (m.emit t v).Free t := h

theorem waitFor (h : m.Free t) (d : Nat) : (m.waitFor t d).Free t :=
  h.same ((stack_stop ..).trans (stack_back ..))

theorem level (h : m.Free t) (hl : Level m m') : m'.Free t := h.same (hl.stack t)

theorem endThread (m : Machine) (t : Nat) (p : Option Payload) : (m.endThread t p).Free t := by
  intro f hf
  rw [stack_endThread] at hf
  cases hf

theorem plainMove (h : m.Free t) (hc : PlainMove t m m') (hl : m.isLive t = true) : m'.Free t := by
  cases hc.own hl with
  | same hs _ => exact h.same hs
  | push f hf hs _ => exact h.cons hf.toStop hs
  | next f op hf _ hs _ =>
    refine h.cons ?_ hs
    cases f <;> first | rfl | cases hf

theorem plainMoves (h : m.Free t) (hc : PlainMoves t m m') (hl : m.isLive t = true) : m'.Free t := by
  induction hc with
  | refl => exact h
  | tail hcs hc ih => exact ih.plainMove hc (PlainMoves.thread hcs hl).1

theorem batchMoves (h : m.Free t) (ht : BatchMoves t m m') : m'.Free t := by
  obtain ⟨fs, hs, hfs⟩ := ht.stack
  intro f hmem
  rw [hs, List.mem_append] at hmem
  rcases hmem with hmem | hmem
  · have hf := hfs f hmem
    cases f <;> first | rfl | cases hf
  · exact h f hmem

theorem startEngine (h : m.Free t) (hl : m.isLive t = true) (slot : Option Nat) (c : Config)
    (p : Access) : (m.startEngine slot c p).2.Free t :=
  h.same (congrArg Thread.stack (thread_startEngine (lt_size_of_isLive hl) slot c p))

end Free

theorem status_join (m : Machine) (hu : u ≠ t) :
    ((m.join t u).thread t).status = .joining u ∨ (m.join t u).Ended u := by
  unfold Machine.join
  dsimp only
  split
  · exact .inl (congrArg Thread.status (thread_modifyThread_self ..))
  · rename_i hl
    obtain ⟨p, hp⟩ := not_isLive hl
    refine .inr ⟨p, ?_⟩
    exact (congrArg Thread.status (thread_modifyThread_ne (m.stop t (.joining u)) _ hu)).trans hp

theorem Free.halts (h : m.Free t) (o : Outcome)
    (hs : (m'.thread t).stack = f :: (m.thread t).stack) (hc : (m'.thread t).control = .back o)
    (hw : ∀ d ds saved, f = .joined d ds saved →
      (m'.thread t).status = .joining (m'.drain d).thread ∨ m'.Ended (m'.drain d).thread) :
    m'.Joins t := by
  refine ⟨fun g hg => ?_, fun g _ _ => ⟨o, hc⟩, fun d ds saved e k hg _ => ?_⟩
  · rw [hs] at hg
    exact h g hg
  · rw [hs, List.mem_cons] at hg
    rcases hg with hg | hg
    · exact hw d ds saved hg.symm
    · cases h _ hg

theorem Free.shutdown (h : m.Free t) (ds : List Nat) (saved : Outcome) :
    (m.shutdown t ds saved).Joins t := by
  cases ds with
  | nil => exact (h.back saved).joins
  | cons d ds =>
    let n := (m.modifyDrain d fun x => { x with tickets := x.tickets.close }).notify d
    have hn : n.Free t := h.level ((Level.modifyDrain ..).trans (.notify ..))
    unfold Machine.shutdown
    dsimp only
    split
    · exact hn.halts (f := .shutdown ds saved) (.ok .unit) ((stack_back ..).trans (stack_push ..))
        (control_back ..) nofun
    · rename_i hu
      refine hn.halts (f := .joined d ds saved) (.ok .unit) ?_ ?_ fun d' ds' saved' heq => ?_
      · exact (part_join Thread.stack (fun _ _ => rfl) _ t _ t).trans
          ((stack_back ..).trans (stack_push ..))
      · exact (part_join Thread.control (fun _ _ => rfl) _ t _ t).trans (control_back ..)
      · obtain ⟨rfl, -, -⟩ := Frame.joined.inj heq
        have hd : ((((n.push t (.joined d ds saved)).done t).join t (n.drain d).thread).drain d) =
            n.drain d := congrArg (Table.get · d) (drains_join ..)
        have hj := status_join ((n.push t (.joined d ds saved)).done t) hu
        rw [hd]
        exact hj

theorem Free.releaseHandle (h : m.Free t) (e : Nat) (o : Outcome) : (m.releaseHandle t e o).Joins t := by
  have hm : (m.modifyEngine e fun x => { x with handles := (m.engine e).handles - 1 }).Free t := h
  unfold Machine.releaseHandle
  dsimp only
  split
  · exact (hm.emit _).shutdown _ o
  · exact (hm.back o).joins

theorem StepEffect.joins (h : StepEffect top t m₀ m') (hl : m₀.isLive t = true) (hf : m₀.Free t) :
    m'.Joins t := by
  have hall {n : Machine} (h : PlainMoves t m₀ n) : n.Free t := hf.plainMoves h hl
  have hafter {n n' m' : Machine} (h : PlainMoves t m₀ n) (hq : KeepsStacks t n n')
      (h' : PlainMoves t n' m') : m'.Free t :=
    ((hall h).level hq.level).plainMoves h' ((isLive_of_status (hq.status t)).trans (h.thread hl).1)
  cases h with
  | plainMoves h => exact (hall h).joins
  | idle h hs => exact ((hall h).stop _).joins
  | park h p => exact (((hall h).back _).stop _).joins
  | await d ticket ht => exact ((hf.push (f := .await d ticket) rfl).waitFor d).joins
  | raw h e k hr hn h' => exact (hafter h (.crossing hn) h').joins
  | refused h e k f hf => exact ((hall h).level (KeepsStacks.refused ..).level).joins
  | @guard n _ h e k ho h' =>
    have hc := KeepsStacks.readLock n t e k
    refine (Free.plainMoves ?_ h' ?_).joins
    · exact ((hall h).level hc.level).push rfl
    · exact (isLive_of_status ((status_push ..).trans (hc.status t))).trans (h.thread hl).1
  | leave e k o ht => exact (hf.level (KeepsStacks.leave ..).level).joins
  | release e o ht => exact hf.releaseHandle e o
  | @dropHandle n h slot e i o hs hi =>
    have hn : n.Free t := hall h
    have hs : Free { n with slots := n.slots.set slot { engine := e, handles := i } } t := hn
    exact hs.releaseHandle e o
  | @built n n' h slot c p o hs h' =>
    have hn : n'.Free t := ((hall h).startEngine (h.thread hl).1 _ c p).level h'.toKeepsStacks.level
    have hs : Free { n' with slots := n'.slots.set slot ⟨n.engines.size, 1⟩ } t := hn
    exact (hs.back o).joins
  | builtDefault h c p o h' =>
    exact (((hall h).startEngine (h.thread hl).1 _ c p).level h'.toKeepsStacks.level).releaseHandle _ o
  | batch h e k cs ht => exact ((hf.level h.toKeepsStacks.level).batchMoves (.runBatch ..)).joins
  | discard e k cs p ht => exact (hf.batchMoves (.discardBatch ..)).joins
  | rest h d ticket ht hd => exact (((hall h).push (f := .worker d none) rfl).waitFor d).joins
  | retire h d ticket ht hd hc => exact (Free.endThread _ t none).joins
  | die d ticket p ht hc => exact (Free.endThread m₀ t _).joins
  | releaseTask h d o hd => exact (hall h).shutdown _ o
  | shutdown ds saved ht => exact hf.shutdown ds saved
  | joined d ds saved ht =>
    obtain ⟨n, hq, heq⟩ := resumeJoined_eq m₀ t d ds saved
    rw [heq]
    exact (hf.level hq.toKeepsStacks.level).halts (f := .shutdown ds saved) (.ok .unit)
      ((stack_back ..).trans (stack_push ..)) (control_back ..) nofun

theorem Starts.free (h : Starts t m top n) (hj : m.Joins t) (hc : StepStart m t top) : n.Free t := by
  cases h with
  | same =>
    intro f hf
    rcases hc.start rfl with ⟨held, op, hctl⟩ | hs
    · by_contra hstop
      obtain ⟨o, ho⟩ := hj.back f hf hstop
      cases hctl.symm.trans ho
    · rw [hs] at hf
      cases hf
  | @pop f rest hs =>
    intro g hg
    rw [stack_pop] at hg
    have halone := hj.alone g
    rw [hs] at halone
    exact halone hg

/-- Who waits for the end of a thread, waits until that has ended. -/
theorem Changes.joining (hc : Changes m m') (ho : Orderly m) (hu : u < m.threads.size)
    (hv : v < m.threads.size) (h : (m.thread u).status = .joining v ∨ m.Ended v) :
    (m'.thread u).status = .joining v ∨ m'.Ended v := by
  have hall := hc.preserves (P := fun m => Orderly m ∧ u < m.threads.size ∧ v < m.threads.size ∧
    ((m.thread u).status = .joining v ∨ m.Ended v)) (fun n n' hp hx => ?_) ⟨ho, hu, hv, h⟩
  · exact hall.2.2.2
  · obtain ⟨ho, hu, hv, h⟩ := hp
    refine ⟨ho.change hx, Nat.lt_of_lt_of_le hu hx.threads_le, Nat.lt_of_lt_of_le hv hx.threads_le, ?_⟩
    rcases h with h | h
    · rcases hx.status ho hu (.inl ⟨v, rfl⟩) h with h | ⟨v', hv', he⟩
      · exact .inl h
      · obtain rfl := Status.joining.inj hv'
        exact .inr he
    · exact .inr (h.change ho hv hx)

theorem Joins.carry (h : m.Joins u) (hm : Changes m m') (ho : Orderly m) (hst : DrainsAssigned m)
    (hf : m.Fit u) (hk : Kept m m') (hs : (m'.thread u).stack = (m.thread u).stack)
    (hc : (∃ f ∈ (m.thread u).stack, f.toStop ≠ none) → (m'.thread u).control = (m.thread u).control ∨
      ∃ o, (m'.thread u).control = .back o) : m'.Joins u := by
  refine ⟨fun f hmem => ?_, fun f hmem hstop => ?_, fun d ds saved e k hmem hd => ?_⟩
  · rw [hs] at hmem
    exact h.alone f hmem
  · rw [hs] at hmem
    obtain ⟨o, ho⟩ := h.back f hmem hstop
    rcases hc ⟨f, hmem, hstop⟩ with hc | hc
    · exact ⟨o, hc.trans ho⟩
    · exact hc
  · rw [hs] at hmem
    have hlt : d < m.drains.size := (hf _ hmem).1.1
    obtain ⟨hw, hth⟩ := hk.same d hlt
    have hd₀ : m.Serves d e k := hw.symm.trans hd
    rw [hth]
    refine hm.joining ho (Nat.lt_of_not_le fun hle => ?_) (hst.thread d e k hd₀)
      (h.waits d ds saved e k hmem hd₀)
    rw [thread_of_size_le hle] at hmem
    cases hmem

theorem Reachable.joins (h : Reachable m) : ∀ u, m.Joins u := by
  induction h with
  | new hm =>
    obtain ⟨cs, -, rfl⟩ := new_eq hm
    refine fun u => Free.joins fun f hf => ?_
    rw [thread, Table.get_empty] at hf
    cases hf
  | begin h s ih =>
    refine fun u => ((begin_externals _ s).preserves
      (P := fun m => m.Joins u ∧ DrainsAssigned m ∧ HandleInvariant m) (fun n n' ho he hp => ?_)
      h.visited.orderly ⟨ih u, h.visited.drainsAssigned, h.handleInvariant⟩).1
    obtain ⟨hj, hst, hpr⟩ := hp
    refine ⟨hj.carry (.single (.external he)) ho hst (hpr.fit u) he.kept (he.stack ho u) fun hex => ?_,
      hst.change (.external he), hpr.external ho hst he⟩
    obtain ⟨f, hf, -⟩ := hex
    rcases (he.posture ho (List.ne_nil_of_mem hf)).2 with hc | ⟨p, hp⟩
    · exact .inl hc
    · exact .inr ⟨_, hp⟩
  | step h hb hs ih =>
    rcases step_cases hs with ⟨t, ht, rfl⟩ | ⟨t, rest, hn, hr, rfl⟩
    · intro u
      by_cases hu : u = t
      · subst hu
        obtain ⟨top, n, hn, hc, he⟩ := h.stepEffect ht
        have hl := isLive_of_active (h.visited.orderly.turn u ht).1
        exact he.joins ((isLive_of_status (hn.status u)).trans hl) (hn.free (ih u) hc)
      · cases advance_unmoved hb ht hu with
        | same hs hc =>
          exact (ih u).carry (advance_changes hb ht) h.visited.orderly h.visited.drainsAssigned
            (h.handleInvariant.fit u) (advance_kept hb ht) hs fun _ => .inl hc
        | started _ d hd hth hs _ =>
          refine Free.joins fun f hf => ?_
          rw [hs, List.mem_singleton] at hf
          rw [hf]
          rfl
    · exact fun u => ⟨(ih u).alone, (ih u).back, (ih u).waits⟩

theorem TicketMove.selfless (h : TicketMove t m₀ m m') (hs : ∀ u, (m.thread u).status ≠ .joining u)
    (u : Nat) :
    (m'.thread u).status ≠ .joining u := by
  have hnews (d : Nat) (f : Drain → Drain) :
      (((m.modifyDrain d f).notify d).thread u).status ≠ .joining u := by
    rw [thread_notify]
    split
    · nofun
    · exact hs u
  cases h with
  | keepsTickets h =>
    by_cases hu : u = t
    · subst hu
      rcases h.own with ho | ho
      · rw [ho]
        exact hs u
      · intro hj
        rw [hj] at ho
        exact ho rfl
    · rw [h.others u hu]
      exact hs u
  | request d h => exact hnews d _
  | complete d n h => exact hnews d _
  | close d => exact hnews d _
  | wait d h =>
    have ht := thread_modifyThread ((m.done t).modifyDrain d fun x =>
      { x with waiters := x.waiters ++ [t] }) t u fun x => { x with status := .waiting d }
    rw [show (m.waitFor t d).thread u = _ from ht]
    split
    · nofun
    · rw [show (((m.done t).modifyDrain d _).thread u).status = _ from status_back m t _ u]
      exact hs u
  | hire name systemName x h =>
    rw [thread_spawnDrain]
    split
    · nofun
    · exact hs u

theorem selfless_endThread (hs : ∀ u, (m.thread u).status ≠ .joining u) (p : Option Payload) (u : Nat) :
    ((m.endThread t p).thread u).status ≠ .joining u := by
  intro hj
  rcases status_endThread_cases m t p u with h | ⟨-, h⟩ | ⟨-, h⟩
  · exact hs u (h.symm.trans hj)
  · cases h.symm.trans hj
  · cases h.symm.trans hj

theorem TicketMoves.selfless (h : TicketMoves t m₀ m m') (hs : ∀ u, (m.thread u).status ≠ .joining u) :
    ∀ u, (m'.thread u).status ≠ .joining u := by
  induction h with
  | refl => exact hs
  | tail _ hx ih => exact hx.selfless ih

theorem External.selfless (h : External m m') (hs : ∀ u, (m.thread u).status ≠ .joining u) (u : Nat) :
    (m'.thread u).status ≠ .joining u := by
  intro hj
  rcases h.status_cases u with h | ⟨-, h⟩ | ⟨-, h⟩ | ⟨-, h⟩
  · exact hs u (h.symm.trans hj)
  all_goals cases h.symm.trans hj

theorem Reachable.selfless (h : Reachable m) : ∀ u, (m.thread u).status ≠ .joining u := by
  induction h with
  | new hm =>
    obtain ⟨cs, -, rfl⟩ := new_eq hm
    intro u hj
    rw [thread, Table.get_empty] at hj
    cases hj
  | begin h s ih =>
    exact (begin_externals _ s).preserves (P := fun m => ∀ u, (m.thread u).status ≠ .joining u)
      (fun _ _ _ he hs => he.selfless hs) h.visited.orderly ih
  | step h hb hs ih =>
    rcases step_cases hs with ⟨t, ht, rfl⟩ | ⟨t, rest, hn, hr, rfl⟩
    · obtain ⟨top, n, hn, hf⟩ := h.turnEnd ht
      have hsn (u : Nat) : (n.thread u).status ≠ .joining u := by
        rw [hn.status]
        exact ih u
      cases hf with
      | goesOn hx => exact hx.selfless hsn
      | retires n' hx d ticket htop hd he =>
        rw [he]
        exact selfless_endThread (hx.selfless hsn) none
      | dies d ticket p htop hc he =>
        rw [he]
        exact selfless_endThread hsn _
    · exact ih

end Machine

end GracePeriod
