import GracePeriod.Proofs.Handles

namespace GracePeriod.Machine

variable {t u d e slot : Nat} {m m₀ m' m'' : Machine} {k : Kind} {f : Frame} {top : Option Frame}

theorem lt_size_of_isLive (h : m.isLive t = true) : t < m.threads.size := by
  refine lt_threads_size fun hs => ?_
  rw [isLive, hs] at h
  cases h

theorem isLive_of_status (hs : (m'.thread u).status = (m.thread u).status) :
    m'.isLive u = m.isLive u := by
  rw [isLive, hs, isLive]

theorem isLive_of_active (hs : (m.thread t).status = .active) : m.isLive t = true := by
  rw [isLive, hs]

/-- Frames that plain moves may push. -/
def Pushes (m : Machine) (t : Nat) (f : Frame) : Prop :=
  m.Allows t f ∨ (∃ e, f = .release e) ∨ (∃ d ticket, f = .worker d ticket) ∨
    ∃ e k cs, f = .detached e k cs

theorem Pushes.held? (h : m.Pushes t f) : f.held? = none := by
  rcases h with h | ⟨e, rfl⟩ | ⟨d, i, rfl⟩ | ⟨e, k, cs, rfl⟩
  · cases f <;> first | rfl | exact h.elim
  all_goals rfl

/-- What a plain move does to the stack of its thread and to what comes next. -/
inductive StackEffect (t : Nat) (m m' : Machine) : Prop
  | same (hs : (m'.thread t).stack = (m.thread t).stack)
      (hc : (m'.thread t).control = (m.thread t).control ∨ ∃ o, (m'.thread t).control = .back o)
  | push (f : Frame) (hf : m.Pushes t f) (hs : (m'.thread t).stack = f :: (m.thread t).stack)
      (hc : (m'.thread t).control = (m.thread t).control)
  | next (f : Frame) (op : Op) (hf : f.isBody = true) (hb : HeldByCallback f.held? (m.thread t).stack)
      (hs : (m'.thread t).stack = f :: (m.thread t).stack)
      (hc : (m'.thread t).control = .eval f.held? op)

theorem control_push (m : Machine) (t : Nat) (f : Frame) :
    ((m.push t f).thread t).control = (m.thread t).control :=
  part_modifyThread Thread.control m t t fun _ => rfl

theorem status_push (m : Machine) (t : Nat) (f : Frame) (u : Nat) :
    ((m.push t f).thread u).status = (m.thread u).status :=
  part_modifyThread Thread.status m t u fun _ => rfl

theorem PlainMove.own (h : PlainMove t m m') (hl : m.isLive t = true) : StackEffect t m m' := by
  have hnotify (n : Machine) (hn : ∀ u, n.thread u = m.thread u) (d : Nat) :
      StackEffect t m (n.notify d) := by
    refine .same ?_ (.inl ?_)
    · rw [part_notify Thread.stack (fun _ _ => rfl), hn]
    · rw [part_notify Thread.control (fun _ _ => rfl), hn]
  have hpush (n : Machine) (hn : n.thread t = m.thread t) {f : Frame} (hf : m.Pushes t f) :
      StackEffect t m (n.push t f) := by
    refine .push f hf ?_ ?_
    · rw [stack_push, hn]
    · rw [control_push, hn]
  cases h with
  | keepsNests h =>
    obtain ⟨l, c, ns, hu, hc⟩ := h.toKeepsStacks.thread t
    refine .same (h.toKeepsStacks.stack t) ?_
    rw [hu]
    rcases hc with hc | ⟨-, hc⟩
    · exact .inl hc
    · exact .inr hc
  | push f hf => exact hpush m rfl (.inl hf)
  | next f op hf hb =>
    exact .next f op hf hb ((Orderly.stack_setControl ..).trans (stack_push ..))
      (congrArg Thread.control (thread_modifyThread_self ..))
  | count d f hf | dropTask => exact .same rfl (.inl rfl)
  | clone e slot n hp hs hn => exact .same rfl (.inl rfl)
  | request d hd | complete d n _ => exact hnotify (m.modifyDrain d _) (fun _ => rfl) d
  | enqueue e k c hp =>
    unfold Machine.enqueue
    exact hnotify _ (fun u => by split <;> rfl) _
  | visit e hp => exact hpush (m.retain e) rfl (.inr (.inl ⟨e, rfl⟩))
  | loop d ticket => exact hpush m rfl (.inr (.inr (.inl ⟨d, ticket, rfl⟩)))
  | detach e k => exact hpush (m.modifyEngine e _) rfl (.inr (.inr (.inr ⟨e, k, _, rfl⟩)))
  | spawnTask name passes =>
    have ht := (thread_spawnDrain m .bare name { work := .scripted passes, holders := 1 } t).trans
      (if_neg (Nat.ne_of_lt (lt_size_of_isLive hl)))
    exact .same (congrArg Thread.stack ht) (.inl (congrArg Thread.control ht))

theorem PlainMove.thread (h : PlainMove t m m') (hu : m.isLive u = true) :
    m'.isLive u = true ∧ (m'.thread u).name = (m.thread u).name := by
  have hnotify (n : Machine) (hn : ∀ u, n.thread u = m.thread u) (d : Nat) :
      (n.notify d).isLive u = true ∧ ((n.notify d).thread u).name = (m.thread u).name := by
    rw [part_notify Thread.name (fun _ _ => rfl), hn]
    refine ⟨?_, rfl⟩
    have ht := thread_notify n d u
    rw [hn] at ht
    split at ht
    · exact isLive_of_active (congrArg Thread.status ht)
    · rw [isLive_of_status (congrArg Thread.status ht)]
      exact hu
  have hthread (n : Machine) (f : Thread → Thread)
      (hf : ∀ x, (f x).status = x.status ∧ (f x).name = x.name) (hn : n.threads = m.threads) :
      (n.modifyThread t f).isLive u = true ∧ ((n.modifyThread t f).thread u).name = (m.thread u).name := by
    have hnu : n.thread u = m.thread u := congrArg (Table.get · u) hn
    refine ⟨(isLive_of_status ?_).trans hu, ?_⟩
    · rw [part_modifyThread Thread.status n t u fun x => (hf x).1, hnu]
    · rw [part_modifyThread Thread.name n t u fun x => (hf x).2, hnu]
  cases h with
  | keepsNests h =>
    exact ⟨(isLive_of_status (h.toKeepsStacks.status u)).trans hu,
      h.toKeepsStacks.part Thread.name (fun _ _ _ _ => rfl) u⟩
  | push f hf | visit e hp | loop d ticket | detach e k =>
    exact hthread _ _ (fun _ => ⟨rfl, rfl⟩) rfl
  | next f op hf hb =>
    obtain ⟨hl, hn⟩ := hthread m (fun x => { x with stack := f :: x.stack }) (fun _ => ⟨rfl, rfl⟩) rfl
    refine ⟨(isLive_of_status ?_).trans hl, Eq.trans ?_ hn⟩
    · exact part_modifyThread Thread.status (m.push t f) t u fun _ => rfl
    · exact part_modifyThread Thread.name (m.push t f) t u fun _ => rfl
  | count d f hf | dropTask => exact ⟨hu, rfl⟩
  | clone e slot n hp hs hn => exact ⟨hu, rfl⟩
  | request d hd | complete d n _ => exact hnotify (m.modifyDrain d _) (fun _ => rfl) d
  | enqueue e k c hp =>
    unfold Machine.enqueue
    exact hnotify _ (fun u => by split <;> rfl) _
  | spawnTask name passes =>
    have ht := (thread_spawnDrain m .bare name { work := .scripted passes, holders := 1 } u).trans
      (if_neg (Nat.ne_of_lt (lt_size_of_isLive hu)))
    exact ⟨(isLive_of_status (congrArg Thread.status ht)).trans hu, congrArg Thread.name ht⟩

theorem PlainMoves.thread (h : PlainMoves t m m') (hu : m.isLive u = true) :
    m'.isLive u = true ∧ (m'.thread u).name = (m.thread u).name := by
  induction h with
  | refl => exact ⟨hu, rfl⟩
  | tail _ hc ih =>
    obtain ⟨hl, hn⟩ := hc.thread ih.1
    exact ⟨hl, hn.trans ih.2⟩

/-- Drain tasks keep their work and their threads, the places of the table keep their engines, and no
engine without a handle gets one. -/
structure KeepsPlaces (m m' : Machine) : Prop where
  work : ∀ d, (m'.drain d).work = (m.drain d).work
  thread : ∀ d, (m'.drain d).thread = (m.drain d).thread
  size : m.drains.size ≤ m'.drains.size
  engines_le : m.engines.size ≤ m'.engines.size
  places : ∀ s, (m'.slots.get s).engine = (m.slots.get s).engine
  slot : ∀ e, (m'.engine e).slot = (m.engine e).slot
  drains : ∀ e, (m'.engine e).drains = (m.engine e).drains
  alive : ∀ e, 0 < (m'.engine e).handles → 0 < (m.engine e).handles

namespace KeepsPlaces

theorem of_eq (hd : m'.drains = m.drains) (hs : m'.slots = m.slots) (he : m'.engines = m.engines) :
    KeepsPlaces m m' := by
  have hdrain (d : Nat) : m'.drain d = m.drain d := congrArg (Table.get · d) hd
  have hengine (e : Nat) : m'.engine e = m.engine e := congrArg (Table.get · e) he
  exact ⟨fun d => by rw [hdrain], fun d => by rw [hdrain], by rw [hd], by rw [he],
    fun s => by rw [hs], fun e => by rw [hengine], fun e => by rw [hengine],
    fun e hp => by rwa [← hengine]⟩

theorem refl (m : Machine) : KeepsPlaces m m := .of_eq rfl rfl rfl

theorem keepsStacks (h : KeepsStacks t m m') : KeepsPlaces m m' := by
  have hdrain (d : Nat) : m'.drain d = m.drain d := congrArg (Table.get · d) h.drains
  exact ⟨fun d => by rw [hdrain], fun d => by rw [hdrain], by rw [h.drains], h.engines_le,
    fun s => by rw [h.slots], h.engine_part Engine.slot fun _ _ => rfl,
    h.engine_part Engine.drains fun _ _ => rfl,
    fun e hp => by rwa [h.engine_part Engine.handles fun _ _ => rfl] at hp⟩

theorem trans (h : KeepsPlaces m m') (h' : KeepsPlaces m' m'') : KeepsPlaces m m'' where
  work d := (h'.work d).trans (h.work d)
  thread d := (h'.thread d).trans (h.thread d)
  size := h.size.trans h'.size
  engines_le := h.engines_le.trans h'.engines_le
  places s := (h'.places s).trans (h.places s)
  slot e := (h'.slot e).trans (h.slot e)
  drains e := (h'.drains e).trans (h.drains e)
  alive e he := h.alive e (h'.alive e he)

theorem modifyDrain (m : Machine) (d : Nat) {f : Drain → Drain}
    (hf : ∀ x, (f x).work = x.work ∧ (f x).thread = x.thread) : KeepsPlaces m (m.modifyDrain d f) where
  work d' := part_modifyDrain Drain.work m d d' fun x => (hf x).1
  thread d' := part_modifyDrain Drain.thread m d d' fun x => (hf x).2
  size := Table.size_le_modify ..
  engines_le := Nat.le_refl _
  places _ := rfl
  slot _ := rfl
  drains _ := rfl
  alive _ := id

theorem news (m : Machine) (d : Nat) {f : Drain → Drain}
    (hf : ∀ x, (f x).work = x.work ∧ (f x).thread = x.thread) :
    KeepsPlaces m ((m.modifyDrain d f).notify d) := by
  refine ((modifyDrain m d hf).trans (modifyDrain _ d (f := fun x => { x with waiters := [] })
    fun _ => ⟨rfl, rfl⟩)).trans ?_
  rw [notify_eq]
  exact .of_eq rfl rfl rfl

theorem modifyThread (m : Machine) (t : Nat) (f : Thread → Thread) : KeepsPlaces m (m.modifyThread t f) :=
  .of_eq rfl rfl rfl

theorem modifyEngine (m : Machine) (e : Nat) {f : Engine → Engine}
    (hf : ∀ x, (f x).slot = x.slot ∧ (f x).drains = x.drains)
    (hh : 0 < (f (m.engine e)).handles → 0 < (m.engine e).handles) :
    KeepsPlaces m (m.modifyEngine e f) where
  work _ := rfl
  thread _ := rfl
  size := Nat.le_refl _
  engines_le := Table.size_le_modify ..
  places _ := rfl
  slot e' := part_modifyEngine Engine.slot m e e' fun x => (hf x).1
  drains e' := part_modifyEngine Engine.drains m e e' fun x => (hf x).2
  alive e' hp := by
    rw [engine_modifyEngine] at hp
    split at hp
    · rename_i he
      rw [he] at hp ⊢
      exact hh hp
    · exact hp

theorem retain (m : Machine) {e : Nat} (h : 0 < (m.engine e).handles) : KeepsPlaces m (m.retain e) :=
  modifyEngine m e (fun _ => ⟨rfl, rfl⟩) fun _ => h

theorem emit (m : Machine) (t : Nat) (v : Event) : KeepsPlaces m (m.emit t v) := .of_eq rfl rfl rfl

theorem enqueue (m : Machine) (t : Nat) {e : Nat} (k : Kind) (c : Callback)
    (h : 0 < (m.engine e).handles) : KeepsPlaces m (m.enqueue t e k c) := by
  have hr : KeepsPlaces m (if c.holdsHandle then m.retain e else m) := by
    split
    · exact .retain m h
    · exact .refl m
  exact ((hr.trans (modifyEngine _ e (f := fun x => x.setQueue k (x.queue k ++ [c]))
    (fun _ => ⟨rfl, rfl⟩) id)).trans (emit _ t (.mark e k (.queued c)))).trans
      (news _ _ fun _ => ⟨rfl, rfl⟩)

theorem setSlot (m : Machine) (hs : (m.slots.get slot).engine = e) (n : Nat) :
    KeepsPlaces m { m with slots := m.slots.set slot { engine := e, handles := n } } where
  work _ := rfl
  thread _ := rfl
  size := Nat.le_refl _
  engines_le := Nat.le_refl _
  places s := by
    rw [Table.get_set]
    split
    · rename_i h
      rw [h, hs]
    · rfl
  slot _ := rfl
  drains _ := rfl
  alive _ := id

end KeepsPlaces

/-- No engine is founded, though there may be a new drain task that serves no domain. -/
structure FoundsNone (m m' : Machine) : Prop where
  kept : Kept m m'
  serves : ∀ d e k, m'.Serves d e k → m.Serves d e k
  aims : ∀ d u, m.isLive u = true → (m.drain d).thread ≠ u → (m'.drain d).thread ≠ u
  engines_le : m.engines.size ≤ m'.engines.size
  places : ∀ s, (m'.slots.get s).engine = (m.slots.get s).engine
  slot : ∀ e, (m'.engine e).slot = (m.engine e).slot
  drains : ∀ e, (m'.engine e).drains = (m.engine e).drains
  alive : ∀ e, 0 < (m'.engine e).handles → 0 < (m.engine e).handles

theorem KeepsPlaces.foundsNone (h : KeepsPlaces m m') : FoundsNone m m' where
  kept := ⟨h.size, fun d _ => ⟨h.work d, h.thread d⟩⟩
  serves d _ _ hd := (h.work d).symm.trans hd
  aims d u _ hd := by rwa [h.thread]
  engines_le := h.engines_le
  places := h.places
  slot := h.slot
  drains := h.drains
  alive := h.alive

namespace FoundsNone

theorem trans (h : FoundsNone m m') (hl : ∀ u, m.isLive u = true → m'.isLive u = true)
    (h' : FoundsNone m' m'') : FoundsNone m m'' where
  kept := h.kept.trans h'.kept
  serves d e k hd := h.serves d e k (h'.serves d e k hd)
  aims d u hu hd := h'.aims d u (hl u hu) (h.aims d u hu hd)
  engines_le := h.engines_le.trans h'.engines_le
  places s := (h'.places s).trans (h.places s)
  slot e := (h'.slot e).trans (h.slot e)
  drains e := (h'.drains e).trans (h.drains e)
  alive e he := h.alive e (h'.alive e he)

theorem keepsPlaces (h : FoundsNone m m') (h' : KeepsPlaces m' m'') : FoundsNone m m'' where
  kept := h.kept.trans h'.foundsNone.kept
  serves d e k hd := h.serves d e k (h'.foundsNone.serves d e k hd)
  aims d u hu hd := by
    rw [h'.thread]
    exact h.aims d u hu hd
  engines_le := h.engines_le.trans h'.engines_le
  places s := (h'.places s).trans (h.places s)
  slot e := (h'.slot e).trans (h.slot e)
  drains e := (h'.drains e).trans (h.drains e)
  alive e he := h.alive e (h'.alive e he)

theorem spawnTask (m : Machine) (name : String) (passes : List String) (b : Option Nat) :
    FoundsNone m { (m.spawnDrain .bare name { work := .scripted passes, holders := 1 }).2 with
      bareTask := b } := by
  have hk := Kept.spawnDrain m .bare name { work := .scripted passes, holders := 1 }
  refine ⟨⟨hk.size, hk.same⟩, fun d e k hd => ?_, fun d u hu hd => ?_, Nat.le_refl _, fun _ => rfl,
    fun _ => rfl, fun _ => rfl, fun _ => id⟩
  · rcases Serves.of_spawnDrain (x := { work := .scripted passes, holders := 1 }) hd with ⟨-, hw⟩ | ⟨-, hd⟩
    · cases hw
    · exact hd
  · show ((m.spawnDrain .bare name { work := .scripted passes, holders := 1 }).2.drain d).thread ≠ u
    rw [drain_spawnDrain]
    split
    · exact Nat.ne_of_gt (lt_size_of_isLive hu)
    · exact hd

end FoundsNone

theorem PlainMove.foundsNone (h : PlainMove t m m') : FoundsNone m m' := by
  cases h with
  | keepsNests h => exact (KeepsPlaces.keepsStacks h.toKeepsStacks).foundsNone
  | push f hf | loop d ticket => exact (KeepsPlaces.modifyThread m t _).foundsNone
  | next f op hf hb => exact ((KeepsPlaces.modifyThread m t _).trans (.modifyThread _ t _)).foundsNone
  | count d f hf => exact (KeepsPlaces.modifyDrain m d fun x => ⟨(hf x).1, (hf x).2.1⟩).foundsNone
  | request d hd =>
    exact (KeepsPlaces.news m d (f := fun x => { x with tickets := x.tickets.request })
      fun _ => ⟨rfl, rfl⟩).foundsNone
  | complete d n _ =>
    exact (KeepsPlaces.news m d (f := fun x => { x with tickets := x.tickets.complete n })
      fun _ => ⟨rfl, rfl⟩).foundsNone
  | enqueue e k c hp => exact (KeepsPlaces.enqueue m t k c hp).foundsNone
  | visit e hp => exact ((KeepsPlaces.retain m hp).trans (.modifyThread _ t _)).foundsNone
  | clone e slot n hp hs hn => exact ((KeepsPlaces.retain m hp).trans (.setSlot (m.retain e) hs n)).foundsNone
  | detach e k =>
    exact ((KeepsPlaces.modifyEngine m e (f := fun x => x.setQueue k []) (fun _ => ⟨rfl, rfl⟩) id).trans
      (.modifyThread _ t _)).foundsNone
  | spawnTask name passes => exact .spawnTask m name passes _
  | dropTask =>
    have hf : KeepsPlaces m { m with bareTask := none } := .of_eq rfl rfl rfl
    exact hf.foundsNone

theorem PlainMoves.foundsNone (h : PlainMoves t m m') : FoundsNone m m' := by
  induction h with
  | refl => exact (KeepsPlaces.refl m).foundsNone
  | tail h hc ih => exact ih.trans (fun _ hu => (PlainMoves.thread h hu).1) hc.foundsNone

theorem StackEffect.allHeldByCallbacks (h : StackEffect t m m') (hb : AllHeldByCallbacks (m.thread t).stack) :
    AllHeldByCallbacks (m'.thread t).stack := by
  cases h with
  | same hs hc => rwa [hs]
  | push f hf hs hc =>
    rw [hs]
    refine ⟨?_, hb⟩
    rw [hf.held?]
    exact heldByCallback_none _
  | next f op hf hn hs hc =>
    rw [hs]
    exact ⟨hn, hb⟩

/-- What the thread does next, it does with a handle that it has. -/
def UsesOwnHandle (m : Machine) (u : Nat) : Prop :=
  AllHeldByCallbacks (m.thread u).stack ∧
    ∀ held op, (m.thread u).control = .eval held op → HeldByCallback held (m.thread u).stack

theorem StackEffect.usesOwnHandle (h : StackEffect t m m') (hu : m.UsesOwnHandle t) : m'.UsesOwnHandle t := by
  refine ⟨h.allHeldByCallbacks hu.1, fun held op hc => ?_⟩
  cases h with
  | same hs hc' =>
    rw [hs]
    rcases hc' with hc' | ⟨o, hc'⟩
    · exact hu.2 held op (hc'.symm.trans hc)
    · cases hc'.symm.trans hc
  | push f hf hs hc' =>
    rw [hs]
    exact (hu.2 held op (hc'.symm.trans hc)).cons f
  | next f op' hf hb hs hc' =>
    obtain ⟨rfl, -⟩ := Control.eval.inj (hc'.symm.trans hc)
    rw [hs]
    exact hb.cons f

theorem PlainMoves.usesOwnHandle (h : PlainMoves t m m') (hl : m.isLive t = true) (hu : m.UsesOwnHandle t) :
    m'.UsesOwnHandle t := by
  induction h with
  | refl => exact hu
  | tail h hc ih => exact (hc.own (PlainMoves.thread h hl).1).usesOwnHandle ih

namespace KeepsPlaces

theorem back (m : Machine) (t : Nat) (o : Outcome) : KeepsPlaces m (m.back t o) := modifyThread ..

theorem stop (m : Machine) (t : Nat) (s : Status) : KeepsPlaces m (m.stop t s) := .of_eq rfl rfl rfl

theorem push (m : Machine) (t : Nat) (f : Frame) : KeepsPlaces m (m.push t f) := modifyThread ..

theorem waitFor (m : Machine) (t d : Nat) : KeepsPlaces m (m.waitFor t d) :=
  ((back m t _).trans (modifyDrain _ d (f := fun x => { x with waiters := x.waiters ++ [t] })
    fun _ => ⟨rfl, rfl⟩)).trans (stop ..)

theorem join (m : Machine) (t u : Nat) : KeepsPlaces m (m.join t u) := by
  unfold Machine.join
  dsimp only
  split <;> exact .of_eq rfl rfl rfl

theorem shutdown (m : Machine) (t : Nat) (ds : List Nat) (saved : Outcome) :
    KeepsPlaces m (m.shutdown t ds saved) := by
  cases ds with
  | nil => exact back ..
  | cons d ds =>
    have hc : KeepsPlaces m ((m.modifyDrain d fun x => { x with tickets := x.tickets.close }).notify d) :=
      news m d fun _ => ⟨rfl, rfl⟩
    unfold Machine.shutdown
    dsimp only
    split
    · exact hc.trans ((push ..).trans (back ..))
    · exact hc.trans ((push ..).trans ((back ..).trans (join ..)))

theorem releaseHandle (m : Machine) (t e : Nat) (o : Outcome) : KeepsPlaces m (m.releaseHandle t e o) := by
  have hh : KeepsPlaces m (m.modifyEngine e fun x => { x with handles := (m.engine e).handles - 1 }) :=
    modifyEngine m e (fun _ => ⟨rfl, rfl⟩) fun hp => Nat.lt_of_lt_of_le hp (Nat.sub_le ..)
  unfold Machine.releaseHandle
  dsimp only
  split
  · exact (hh.trans (emit ..)).trans (shutdown ..)
  · exact hh.trans (back ..)

theorem endThread (m : Machine) (t : Nat) (p : Option Payload) : KeepsPlaces m (m.endThread t p) := by
  rw [endThread_eq, wakeAll_eq, bury_eq]
  exact .of_eq rfl rfl rfl

end KeepsPlaces

theorem BatchMoves.keepsPlaces (h : BatchMoves t m m') : KeepsPlaces m m' := by
  obtain ⟨hd, he, hs⟩ := h.tables
  exact .of_eq hd hs he

theorem handles_pos_of_table (hs : m.handleCount e ≤ (m.engine e).handles)
    (ht : m.tableEngine slot = some e) : 0 < (m.engine e).handles := by
  obtain ⟨hp, rfl⟩ := tableEngine_eq_some.1 ht
  exact hp.trans_le ((handles_le_handleCount m slot).trans hs)

theorem PlainMoves.handles_pos (h : PlainMoves t m m')
    (hs : m.handleCount e + topHandleCount e top ≤ (m.engine e).handles)
    (ht : m'.tableEngine slot = some e) : 0 < (m'.engine e).handles := by
  have hb := h.balanced e
  exact handles_pos_of_table (by omega) ht

/-- A new engine, with its place in the table if it has one. -/
def found (m : Machine) (slot : Option Nat) (c : Config) (p : Access) : Machine :=
  { (m.startEngine slot c p).2 with
    slots := slot.elim m.slots fun s => m.slots.set s { engine := m.engines.size, handles := 1 } }

theorem KeepsPlaces.built {c : Config} {p : Access}
    (h : KeepsStacks t (m.startEngine (some slot) c p).2 m') (o : Outcome) :
    KeepsPlaces (m.found (some slot) c p)
      ({ m' with slots := m'.slots.set slot { engine := m.engines.size, handles := 1 } }.back t o) := by
  have hq := KeepsPlaces.keepsStacks h
  refine KeepsPlaces.trans ?_ (.back ..)
  refine ⟨hq.work, hq.thread, hq.size, hq.engines_le, fun s => ?_, hq.slot, hq.drains, hq.alive⟩
  show ((m'.slots.set slot _).get s).engine = ((m.slots.set slot _).get s).engine
  rw [Table.get_set, Table.get_set]
  split
  · rfl
  · exact hq.places s

/-- A step founds at most one engine. If that has a place in the table, the place was free, and else its
handle is given up at once. -/
theorem StepEffect.foundsNone (h : StepEffect top t m₀ m') :
    FoundsNone m₀ m' ∨ ∃ n slot c p, PlainMoves t m₀ n ∧
    (∀ s, slot = some s → n.slotInUse s = false ∧
      ∀ u, (m'.thread u).name = ((n.found slot c p).thread u).name) ∧
    KeepsPlaces (n.found slot c p) m' ∧
    (0 < (m'.engine n.engines.size).handles ∨ ∃ n' o, KeepsPlaces (n.found slot c p) n' ∧
      0 < (n'.engine n.engines.size).handles ∧ m' = n'.releaseHandle t n.engines.size o) := by
  cases h with
  | plainMoves h => exact .inl h.foundsNone
  | idle h hs => exact .inl (h.foundsNone.keepsPlaces (.stop ..))
  | park h p => exact .inl (h.foundsNone.keepsPlaces ((KeepsPlaces.back ..).trans (.stop ..)))
  | await d ticket ht => exact .inl ((KeepsPlaces.push ..).trans (.waitFor ..)).foundsNone
  | raw h e k hr hn h' =>
    have hc := KeepsStacks.crossing hn
    refine .inl ((h.foundsNone.keepsPlaces (.keepsStacks hc)).trans (fun u hu => ?_) h'.foundsNone)
    exact (isLive_of_status (hc.status u)).trans (h.thread hu).1
  | refused h e k f hf => exact .inl (h.foundsNone.keepsPlaces (.keepsStacks (.refused ..)))
  | @guard n _ h e k ho h' =>
    have hc := KeepsStacks.readLock n t e k
    refine .inl ((h.foundsNone.keepsPlaces
      ((KeepsPlaces.keepsStacks hc).trans (.push _ t (.leave e k)))).trans
      (fun u hu => ?_) h'.foundsNone)
    refine (isLive_of_status ?_).trans (h.thread hu).1
    exact (status_push ..).trans (hc.status u)
  | leave e k o ht => exact .inl (KeepsPlaces.keepsStacks (.leave ..)).foundsNone
  | release e o ht => exact .inl (KeepsPlaces.releaseHandle ..).foundsNone
  | dropHandle h slot e n o hs hn =>
    have he := (tableEngine_eq_some.1 hs).2
    exact .inl (h.foundsNone.keepsPlaces ((KeepsPlaces.setSlot _ he n).trans (.releaseHandle ..)))
  | @built n n' h slot c p o hs h' =>
    have hnew : 0 < (n'.engine n.engines.size).handles := handles_newborn h'.toKeepsStacks
    refine .inr ⟨n, some slot, c, p, h, fun s he => ⟨Option.some.inj he ▸ hs, fun u => ?_⟩,
      .built h'.toKeepsStacks o, .inl hnew⟩
    exact (part_modifyThread Thread.name _ t u
      (f := fun x => { x with control := .back o }) fun _ => rfl).trans
        (h'.toKeepsStacks.part Thread.name (fun _ _ _ _ => rfl) u)
  | @builtDefault n n' h c p o h' =>
    have hf : KeepsPlaces (n.found none c p) n' := .keepsStacks h'.toKeepsStacks
    exact .inr ⟨n, none, c, p, h, nofun, hf.trans (.releaseHandle ..),
      .inr ⟨n', o, hf, handles_newborn h'.toKeepsStacks, rfl⟩⟩
  | batch h e k cs ht =>
    exact .inl ((KeepsPlaces.keepsStacks h.toKeepsStacks).trans
      (BatchMoves.runBatch ..).keepsPlaces).foundsNone
  | discard e k cs p ht => exact .inl (BatchMoves.discardBatch ..).keepsPlaces.foundsNone
  | rest h d ticket ht hd => exact .inl (h.foundsNone.keepsPlaces ((KeepsPlaces.push ..).trans (.waitFor ..)))
  | retire h d ticket ht hd hc => exact .inl (h.foundsNone.keepsPlaces (.endThread ..))
  | die d ticket p ht hc => exact .inl (KeepsPlaces.endThread ..).foundsNone
  | releaseTask h d o hd => exact .inl (h.foundsNone.keepsPlaces (.shutdown ..))
  | shutdown ds saved ht => exact .inl (KeepsPlaces.shutdown ..).foundsNone
  | joined d ds saved ht =>
    obtain ⟨n, hq, heq⟩ := resumeJoined_eq m₀ t d ds saved
    rw [heq]
    exact .inl ((KeepsPlaces.keepsStacks hq.toKeepsStacks).trans
      ((KeepsPlaces.push ..).trans (.back ..))).foundsNone

theorem thread_startEngine (h : u < m.threads.size) (slot : Option Nat) (c : Config) (p : Access) :
    (m.startEngine slot c p).2.thread u = m.thread u := by
  have h1 : (m.startFirst slot c).thread u = m.thread u :=
    (thread_spawnDrain ..).trans (if_neg (Nat.ne_of_lt h))
  have hlt : u < (m.startFirst slot c).threads.size := by
    simp only [startFirst, spawnDrain, spawn, Table.size_push]
    omega
  have h2 : (m.startSecond slot c).thread u = (m.startFirst slot c).thread u :=
    (thread_spawnDrain ..).trans (if_neg (Nat.ne_of_lt hlt))
  exact h2.trans h1

namespace UsesOwnHandle

theorem same (hu : m.UsesOwnHandle t) (hs : (m'.thread t).stack = (m.thread t).stack)
    (hc : (m'.thread t).control = (m.thread t).control ∨ ∃ o, (m'.thread t).control = .back o) :
    m'.UsesOwnHandle t := (StackEffect.same hs hc).usesOwnHandle hu

theorem back (hu : m.UsesOwnHandle t) (o : Outcome) : (m.back t o).UsesOwnHandle t :=
  hu.same (stack_back ..) (.inr ⟨o, control_back ..⟩)

theorem stop (hu : m.UsesOwnHandle t) (s : Status) : (m.stop t s).UsesOwnHandle t :=
  hu.same (stack_stop ..) (.inl (control_stop ..))

theorem emit (hu : m.UsesOwnHandle t) (v : Event) : (m.emit t v).UsesOwnHandle t := hu

theorem push (hu : m.UsesOwnHandle t) {f : Frame} (hf : f.held? = none) : (m.push t f).UsesOwnHandle t := by
  refine ⟨?_, fun held op hc => ?_⟩
  · rw [stack_push]
    refine ⟨?_, hu.1⟩
    rw [hf]
    exact heldByCallback_none _
  · rw [stack_push]
    exact (hu.2 held op ((control_push ..).symm.trans hc)).cons f

theorem keepsStacks (hu : m.UsesOwnHandle t) (h : KeepsStacks t m m') : m'.UsesOwnHandle t := by
  obtain ⟨l, c, ns, ht, hc⟩ := h.thread t
  refine hu.same (h.stack t) ?_
  rw [ht]
  rcases hc with hc | ⟨-, hc⟩
  · exact .inl hc
  · exact .inr hc

theorem modifyDrain (hu : m.UsesOwnHandle t) (d : Nat) (f : Drain → Drain) :
    (m.modifyDrain d f).UsesOwnHandle t := hu

theorem notify (hu : m.UsesOwnHandle t) (d : Nat) : (m.notify d).UsesOwnHandle t :=
  hu.same (part_notify Thread.stack (fun _ _ => rfl) m d t)
    (.inl (part_notify Thread.control (fun _ _ => rfl) m d t))

theorem waitFor (hu : m.UsesOwnHandle t) (d : Nat) : (m.waitFor t d).UsesOwnHandle t :=
  ((hu.back _).modifyDrain d _).stop _

theorem join (hu : m.UsesOwnHandle t) (u : Nat) : (m.join t u).UsesOwnHandle t :=
  hu.same (part_join Thread.stack (fun _ _ => rfl) m t u t)
    (.inl (part_join Thread.control (fun _ _ => rfl) m t u t))

theorem shutdown (hu : m.UsesOwnHandle t) (ds : List Nat) (saved : Outcome) :
    (m.shutdown t ds saved).UsesOwnHandle t := by
  cases ds with
  | nil => exact hu.back saved
  | cons d ds =>
    have hn := (hu.modifyDrain d fun x => { x with tickets := x.tickets.close }).notify d
    unfold Machine.shutdown
    dsimp only
    split
    · exact (hn.push rfl).back _
    · exact ((hn.push rfl).back _).join _

theorem releaseHandle (hu : m.UsesOwnHandle t) (e : Nat) (o : Outcome) :
    (m.releaseHandle t e o).UsesOwnHandle t := by
  have hm : (m.modifyEngine e fun x => { x with handles := (m.engine e).handles - 1 }).UsesOwnHandle t := hu
  unfold Machine.releaseHandle
  dsimp only
  split
  · exact (hm.emit _).shutdown _ o
  · exact hm.back o

theorem endThread (hc : ∃ o, (m.thread t).control = .back o) (p : Option Payload) :
    (m.endThread t p).UsesOwnHandle t := by
  obtain ⟨o, ho⟩ := hc
  refine ⟨?_, fun held op hc => ?_⟩
  · rw [stack_endThread]
    trivial
  · cases ((part_endThread Thread.control (fun _ _ => rfl) (fun _ _ => rfl) m t p t).trans ho).symm.trans hc

theorem runCallbackBody (hu : m.UsesOwnHandle t) {held : Option Nat}
    (hh : HeldByCallback held (m.thread t).stack)
    (ops : List Op) (hl : m.isLive t = true) : (m.runCallbackBody t held ops).UsesOwnHandle t :=
  PlainMoves.usesOwnHandle (PlainMoves.runCallbackBody .refl hh ops) hl hu

theorem runBatch (hu : m.UsesOwnHandle t) (hl : m.isLive t = true) (e : Nat) (k : Kind)
    (cs : List Callback) : (m.runBatch t e k cs).UsesOwnHandle t := by
  cases cs with
  | nil => exact hu.back _
  | cons c cs =>
    have hn := (hu.emit (.mark e k (.callbackStarted c))).push (f := .batch e k cs) rfl
    have hlive (f : Frame) {n : Machine} (h : n.isLive t = true) : (n.push t f).isLive t = true :=
      (isLive_of_status (status_push ..)).trans h
    cases c with
    | destroy size id =>
      unfold Machine.runBatch Machine.runCallback
      dsimp only
      split <;> exact (hn.emit _).back _
    | call id hold body =>
      unfold Machine.runBatch Machine.runCallback
      dsimp only
      split
      · refine ((hn.emit _).push rfl).runCallbackBody ?_ body (hlive _ (hlive _ hl))
        rw [stack_push]
        intro e' he
        obtain rfl := Option.some.inj he
        refine ⟨List.mem_cons_self, k, cs, List.mem_cons_of_mem _ ?_⟩
        show _ ∈ (((m.mark t e k _).push t (.batch e k cs)).thread t).stack
        rw [stack_push]
        exact List.mem_cons_self
      · exact (hn.emit _).runCallbackBody (heldByCallback_none _) body (hlive _ hl)

theorem discardBatch (hu : m.UsesOwnHandle t) (e : Nat) (cs : List Callback) (o : Outcome) :
    (m.discardBatch t e cs o).UsesOwnHandle t := by
  have hfold (l : List Callback) (n : Machine) (hn : n.UsesOwnHandle t) :
      (l.foldl (fun m _ => m.push t (.release e)) n).UsesOwnHandle t := by
    induction l generalizing n with
    | nil => exact hn
    | cons c l ih => exact ih _ (hn.push rfl)
  exact (hfold _ m hu).back o

theorem startEngine (hu : m.UsesOwnHandle t) (hl : m.isLive t = true) (slot : Option Nat) (c : Config)
    (p : Access) : (m.startEngine slot c p).2.UsesOwnHandle t := by
  have ht := thread_startEngine (lt_size_of_isLive hl) slot c p
  exact hu.same (congrArg Thread.stack ht) (.inl (congrArg Thread.control ht))

end UsesOwnHandle

theorem StepEffect.usesOwnHandle (h : StepEffect top t m₀ m') (hl : m₀.isLive t = true)
    (hu : m₀.UsesOwnHandle t)
    (hc : top ≠ none → ∃ o, (m₀.thread t).control = .back o) : m'.UsesOwnHandle t := by
  cases h with
  | plainMoves h => exact h.usesOwnHandle hl hu
  | idle h hs => exact (h.usesOwnHandle hl hu).stop _
  | park h p => exact ((h.usesOwnHandle hl hu).back _).stop _
  | await d ticket ht => exact (hu.push rfl).waitFor d
  | raw h e k hr hn h' =>
    have hq := KeepsStacks.crossing hn
    exact h'.usesOwnHandle ((isLive_of_status (hq.status t)).trans (h.thread hl).1)
      ((h.usesOwnHandle hl hu).keepsStacks hq)
  | refused h e k f hf => exact (h.usesOwnHandle hl hu).keepsStacks (.refused ..)
  | @guard n _ h e k ho h' =>
    have hq := KeepsStacks.readLock n t e k
    refine h'.usesOwnHandle ?_ (((h.usesOwnHandle hl hu).keepsStacks hq).push rfl)
    exact (isLive_of_status ((status_push ..).trans (hq.status t))).trans (h.thread hl).1
  | leave e k o ht => exact hu.keepsStacks (.leave ..)
  | release e o ht => exact hu.releaseHandle e o
  | @dropHandle n h slot e i o hs hi =>
    have hn : UsesOwnHandle { n with slots := n.slots.set slot { engine := e, handles := i } } t :=
      h.usesOwnHandle hl hu
    exact hn.releaseHandle e o
  | @built n n' h slot c p o hs h' =>
    have hn : n'.UsesOwnHandle t := ((h.usesOwnHandle hl hu).startEngine (h.thread hl).1 _ c p).keepsStacks
      h'.toKeepsStacks
    have hs : UsesOwnHandle { n' with slots := n'.slots.set slot ⟨n.engines.size, 1⟩ } t := hn
    exact hs.back o
  | builtDefault h c p o h' =>
    exact (((h.usesOwnHandle hl hu).startEngine (h.thread hl).1 _ c p).keepsStacks
      h'.toKeepsStacks).releaseHandle _ o
  | @batch n h e k cs ht =>
    exact (hu.keepsStacks h.toKeepsStacks).runBatch ((isLive_of_status (h.toKeepsStacks.status t)).trans hl)
      e k cs
  | discard e k cs p ht => exact hu.discardBatch e cs _
  | rest h d ticket ht hd => exact ((h.usesOwnHandle hl hu).push rfl).waitFor d
  | retire h d ticket ht hd hctl =>
    rw [← hctl] at hc
    exact .endThread (hc (by rw [ht]; exact Option.some_ne_none _)) none
  | die d ticket p ht hctl => exact .endThread ⟨_, hctl⟩ _
  | releaseTask h d o hd => exact (h.usesOwnHandle hl hu).shutdown _ o
  | shutdown ds saved ht => exact hu.shutdown ds saved
  | joined d ds saved ht =>
    obtain ⟨n, hq, heq⟩ := resumeJoined_eq m₀ t d ds saved
    rw [heq]
    exact ((hu.keepsStacks hq.toKeepsStacks).push rfl).back _

end GracePeriod.Machine
