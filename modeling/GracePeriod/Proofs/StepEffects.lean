import GracePeriod.Proofs.Act

namespace GracePeriod

/-- The engine whose handle the operations of the frame may use. -/
def Frame.held? : Frame → Option Nat
  | .guardBody held _ _ _ | .callbackBody held _ _ => held
  | _ => none

def Frame.isBody : Frame → Bool
  | .guardBody .. | .callbackBody .. => true
  | _ => false

/-- Calls that open or close a section and leave it so. -/
def HandleCall.isSection : HandleCall → Bool
  | .readLock _ | .readUnlock _ | .srcuLock _ | .srcuUnlock _ => true
  | _ => false

/-- A handle that is used belongs to a callback that is running. -/
def HeldByCallback (held : Option Nat) (fs : List Frame) : Prop :=
  ∀ e, held = some e → Frame.release e ∈ fs ∧ ∃ k cs, Frame.batch e k cs ∈ fs

def AllHeldByCallbacks : List Frame → Prop
  | [] => True
  | f :: fs => HeldByCallback f.held? fs ∧ AllHeldByCallbacks fs

theorem heldByCallback_none (fs : List Frame) : HeldByCallback none fs := nofun

theorem HeldByCallback.append {held : Option Nat} {fs : List Frame} (h : HeldByCallback held fs)
    (gs : List Frame) :
    HeldByCallback held (gs ++ fs) := by
  intro e he
  obtain ⟨hr, k, cs, hb⟩ := h e he
  exact ⟨List.mem_append_right gs hr, k, cs, List.mem_append_right gs hb⟩

theorem HeldByCallback.cons {held : Option Nat} {fs : List Frame} (h : HeldByCallback held fs) (f : Frame) :
    HeldByCallback held (f :: fs) := h.append [f]

namespace Machine

variable {t : Nat} {m m' m'' : Machine}

/-- At most schedulers, domains, nests, keys and the trace have changed, and the thread may have got an
answer. -/
structure KeepsStacks (t : Nat) (m m' : Machine) : Prop where
  thread : ∀ u, ∃ l c ns, m'.thread u = { m.thread u with tasks := l, control := c, nests := ns } ∧
    (c = (m.thread u).control ∨ u = t ∧ ∃ o, c = .back o)
  engine : ∀ e, ∃ ds, m'.engine e = { m.engine e with domains := ds }
  slots : ∀ s, m'.slots.get s = m.slots.get s
  drains : m'.drains = m.drains
  bareTask : m'.bareTask = m.bareTask
  engines_le : m.engines.size ≤ m'.engines.size

namespace KeepsStacks

theorem of_threads (ht : ∀ u, ∃ l c ns, m'.thread u =
      { m.thread u with tasks := l, control := c, nests := ns } ∧
      (c = (m.thread u).control ∨ u = t ∧ ∃ o, c = .back o))
    (he : m'.engines = m.engines) (hs : m'.slots = m.slots) (hd : m'.drains = m.drains)
    (hb : m'.bareTask = m.bareTask) : KeepsStacks t m m' := by
  refine ⟨ht, fun e => ⟨(m.engine e).domains, ?_⟩, fun s => by rw [hs], hd, hb, by rw [he]⟩
  rw [Machine.engine, he, Machine.engine]

theorem refl (t : Nat) (m : Machine) : KeepsStacks t m m :=
  .of_threads (fun _ => ⟨_, _, _, rfl, .inl rfl⟩) rfl rfl rfl rfl

theorem trans (h : KeepsStacks t m m') (h' : KeepsStacks t m' m'') : KeepsStacks t m m'' := by
  refine ⟨fun u => ?_, fun e => ?_, fun s => (h'.slots s).trans (h.slots s),
    h'.drains.trans h.drains, h'.bareTask.trans h.bareTask, h.engines_le.trans h'.engines_le⟩
  · obtain ⟨l, c, ns, hu, hc⟩ := h.thread u
    obtain ⟨l', c', ns', hu', hc'⟩ := h'.thread u
    refine ⟨l', c', ns', by rw [hu', hu], ?_⟩
    rcases hc' with hc' | hc'
    · rw [hc', hu]
      exact hc
    · exact .inr hc'
  · obtain ⟨ds, hd⟩ := h.engine e
    obtain ⟨ds', hd'⟩ := h'.engine e
    exact ⟨ds', by rw [hd', hd]⟩

theorem of_inside (h : Inside t m m') : KeepsStacks t m m' := by
  obtain ⟨ns, hn⟩ := h.thread
  have hm := h.eq
  refine ⟨fun u => ?_, h.engine, fun s => by rw [hm], by rw [hm], by rw [hm], h.engines_le⟩
  rw [hn]
  split
  · exact ⟨_, _, _, rfl, .inl rfl⟩
  · exact ⟨_, _, _, rfl, .inl rfl⟩

theorem part {β : Type} (h : KeepsStacks t m m') (p : Thread → β)
    (hp : ∀ x l c ns, p { x with tasks := l, control := c, nests := ns } = p x) (u : Nat) :
    p (m'.thread u) = p (m.thread u) := by
  obtain ⟨l, c, ns, hu, -⟩ := h.thread u
  rw [hu]
  exact hp ..

theorem stack (h : KeepsStacks t m m') (u : Nat) : (m'.thread u).stack = (m.thread u).stack :=
  h.part Thread.stack (fun _ _ _ _ => rfl) u

theorem status (h : KeepsStacks t m m') (u : Nat) : (m'.thread u).status = (m.thread u).status :=
  h.part Thread.status (fun _ _ _ _ => rfl) u

theorem engine_part {β : Type} (h : KeepsStacks t m m') (p : Engine → β)
    (hp : ∀ x ds, p { x with domains := ds } = p x) (e : Nat) :
    p (m'.engine e) = p (m.engine e) := by
  obtain ⟨ds, hd⟩ := h.engine e
  rw [hd]
  exact hp ..

end KeepsStacks

/-- Nor have the nests changed. -/
structure KeepsNests (t : Nat) (m m' : Machine) : Prop extends KeepsStacks t m m' where
  nests : ∀ u, m'.nests u = m.nests u

namespace KeepsNests

theorem of_eq (ht : m'.threads = m.threads) (he : m'.engines = m.engines)
    (hs : m'.slots = m.slots) (hd : m'.drains = m.drains) (hb : m'.bareTask = m.bareTask) :
    KeepsNests t m m' := by
  have hu (u : Nat) : m'.thread u = m.thread u := congrArg (Table.get · u) ht
  exact ⟨.of_threads (fun u => ⟨_, _, _, hu u, .inl rfl⟩) he hs hd hb,
    fun u => congrArg Thread.nests (hu u)⟩

theorem back (m : Machine) (t : Nat) (o : Outcome) : KeepsNests t m (m.back t o) := by
  refine ⟨.of_threads (fun u => ?_) rfl rfl rfl rfl,
    fun u => part_modifyThread Thread.nests m t u fun _ => rfl⟩
  rw [Machine.back, thread_modifyThread]
  split
  · exact ⟨_, _, _, rfl, .inr ⟨‹_›, o, rfl⟩⟩
  · exact ⟨_, _, _, rfl, .inl rfl⟩

theorem served (h : Served m m') : KeepsNests t m m' := by
  have hm := h.eq
  refine ⟨.of_threads (fun u => ?_) (by rw [hm]) (by rw [hm]) (by rw [hm]) (by rw [hm]), h.nests⟩
  obtain ⟨l, hl⟩ := h.thread u
  exact ⟨l, _, _, hl, .inl rfl⟩

theorem emit (m : Machine) (t u : Nat) (v : Event) : KeepsNests t m (m.emit u v) :=
  .of_eq rfl rfl rfl rfl rfl

theorem setDomain (m : Machine) (t e : Nat) (k : Kind) (d : Domain) :
    KeepsNests t m (m.setDomain e k d) := by
  refine ⟨⟨fun u => ⟨_, _, _, rfl, .inl rfl⟩, fun e' => ?_, fun _ => rfl, rfl, rfl,
    Table.size_le_modify ..⟩, fun _ => rfl⟩
  rw [Machine.setDomain, engine_modifyEngine]
  split
  · exact ⟨_, rfl⟩
  · exact ⟨_, rfl⟩

end KeepsNests

namespace KeepsStacks

theorem readLock (m : Machine) (t e : Nat) (k : Kind) : KeepsStacks t m (m.readLock t e k).1 := by
  unfold Machine.readLock
  split
  · exact (KeepsNests.emit ..).toKeepsStacks
  · exact (KeepsNests.served (Served.pin ..)).toKeepsStacks.trans (of_inside (Inside.openSection ..))

theorem readUnlock (m : Machine) (t e : Nat) (k : Kind) : KeepsStacks t m (m.readUnlock t e k).1 := by
  unfold Machine.readUnlock
  split
  · exact (KeepsNests.emit ..).toKeepsStacks
  · have hc : KeepsStacks t m (m.closeSection t e k).1 := of_inside (Inside.closeSection ..)
    dsimp only
    split
    · exact hc
    · exact hc.trans (KeepsNests.served (Served.unpin ..)).toKeepsStacks

theorem crossing {e : Nat} {k : Kind} (h : m' = (m.readLock t e k).1 ∨ m' = (m.readUnlock t e k).1) :
    KeepsStacks t m m' := by
  rcases h with rfl | rfl
  · exact readLock ..
  · exact readUnlock ..

theorem refused (m : Machine) (t e : Nat) (k : Kind) (f : Fault) :
    KeepsStacks t m ((m.readLock t e k).1.fail t f) := (readLock ..).trans (KeepsNests.back ..).toKeepsStacks

theorem leave (m : Machine) (t e : Nat) (k : Kind) (o : Outcome) :
    KeepsStacks t m (m.resume t o (.leave e k)) := by
  have hu := readUnlock m t e k
  unfold Machine.resume
  dsimp only
  split <;> exact hu.trans (KeepsNests.back ..).toKeepsStacks

end KeepsStacks

theorem resumeJoined_eq (m : Machine) (t d : Nat) (ds : List Nat) (saved : Outcome) : ∃ n,
    KeepsNests t m n ∧ m.resumeJoined t d ds saved = (n.push t (.shutdown ds saved)).done t := by
  unfold resumeJoined
  dsimp only
  split
  · exact ⟨_, .emit .., rfl⟩
  · exact ⟨m, .of_eq rfl rfl rfl rfl rfl, rfl⟩

/-- The drain task serves no domain. -/
def Bare (m : Machine) (d : Nat) : Prop := d < m.drains.size ∧ (m.drain d).work.domain? = none

theorem Bare.modifyDrain {d : Nat} (h : m.Bare d) {f : Drain → Drain} (hf : ∀ x, (f x).work = x.work) :
    (m.modifyDrain d f).Bare d :=
  ⟨Nat.lt_of_lt_of_le h.1 (Table.size_le_modify ..),
    (congrArg Work.domain? (part_modifyDrain Drain.work m d d hf)).trans h.2⟩

/-- Frames that own no handle, end no drain task and guard no section. -/
def Allows (m : Machine) (t : Nat) : Frame → Prop
  | .attempt | .grace .. | .barrier .. | .barrierEnd .. | .wake .. => True
  | .await d _ => (m.drain d).thread ≠ t
  | .releaseTask d => m.Bare d
  | _ => False

/-- What thread `t` does without taking a handle from anybody, opening or closing a section or ending
a drain task. -/
inductive PlainMove (t : Nat) : Machine → Machine → Prop
  | keepsNests {m m' : Machine} (h : KeepsNests t m m') : PlainMove t m m'
  | push (m : Machine) (f : Frame) (h : m.Allows t f) : PlainMove t m (m.push t f)
  | next (m : Machine) (f : Frame) (op : Op) (hf : f.isBody = true)
      (h : HeldByCallback f.held? (m.thread t).stack) : PlainMove t m ((m.push t f).eval t f.held? op)
  | count (m : Machine) (d : Nat) (f : Drain → Drain)
      (h : ∀ x, (f x).work = x.work ∧ (f x).thread = x.thread ∧ (f x).waiters = x.waiters ∧
        (f x).tickets = x.tickets) : PlainMove t m (m.modifyDrain d f)
  | request (m : Machine) (d : Nat) (h : (m.drain d).work.domain? = none) :
      PlainMove t m (m.requestPass d)
  | complete (m : Machine) (d n : Nat) (h : (m.drain d).thread = t) :
      PlainMove t m
        ((m.modifyDrain d fun x => { x with tickets := x.tickets.complete n }).notify d)
  | enqueue (m : Machine) (e : Nat) (k : Kind) (c : Callback) (h : 0 < (m.engine e).handles) :
      PlainMove t m (m.enqueue t e k c)
  | visit (m : Machine) (e : Nat) (h : 0 < (m.engine e).handles) :
      PlainMove t m ((m.retain e).push t (.release e))
  | clone (m : Machine) (e slot n : Nat) (h : 0 < (m.engine e).handles)
      (hs : (m.slots.get slot).engine = e) (hn : n = (m.slots.get slot).handles + 1) :
      PlainMove t m { m.retain e with slots := m.slots.set slot { engine := e, handles := n } }
  | loop (m : Machine) (d : Nat) (ticket : Option Nat) : PlainMove t m (m.push t (.worker d ticket))
  | detach (m : Machine) (e : Nat) (k : Kind) :
      PlainMove t m ((m.modifyEngine e fun x => x.setQueue k []).push t
        (.detached e k ((m.engine e).queue k)))
  | spawnTask (m : Machine) (name : String) (passes : List String) :
      PlainMove t m
        { (m.spawnDrain .bare name { work := .scripted passes, holders := 1 }).2 with
          bareTask := some m.drains.size }
  | dropTask (m : Machine) : PlainMove t m { m with bareTask := none }

abbrev PlainMoves (t : Nat) : Machine → Machine → Prop := Relation.ReflTransGen (PlainMove t)

/-- Thread `t` is about to call the engine for an operation that opens or closes a section and leaves
it so. -/
def Raw (m : Machine) (t e : Nat) : Prop :=
  ∃ held slot c, (m.thread t).control = .eval held (.handle slot c) ∧ c.isSection = true ∧
    m.resolve held slot = some e

/-- What thread `t` does in a step, once frame `top` is off its stack, if any. -/
inductive StepEffect (top : Option Frame) (t : Nat) (m₀ : Machine) : Machine → Prop
  | plainMoves {m : Machine} (h : PlainMoves t m₀ m) : StepEffect top t m₀ m
  | idle {m : Machine} (h : PlainMoves t m₀ m) (hs : (m.thread t).stack = []) :
      StepEffect top t m₀ (m.stop t .idle)
  | park {m : Machine} (h : PlainMoves t m₀ m) (p : Park) : StepEffect top t m₀ (m.park t p)
  | await (d ticket : Nat) (ht : top = some (.await d ticket)) :
      StepEffect top t m₀ ((m₀.push t (.await d ticket)).waitFor t d)
  | raw {m n m' : Machine} (h : PlainMoves t m₀ m) (e : Nat) (k : Kind) (hr : m₀.Raw t e)
      (hn : n = (m.readLock t e k).1 ∨ n = (m.readUnlock t e k).1) (h' : PlainMoves t n m') :
      StepEffect top t m₀ m'
  | refused {m : Machine} (h : PlainMoves t m₀ m) (e : Nat) (k : Kind) (f : Fault)
      (hf : (m.readLock t e k).2 = .error f) : StepEffect top t m₀ ((m.readLock t e k).1.fail t f)
  | guard {m m' : Machine} (h : PlainMoves t m₀ m) (e : Nat) (k : Kind)
      (ho : (m.readLock t e k).2 = .ok ())
      (h' : PlainMoves t ((m.readLock t e k).1.push t (.leave e k)) m')
      (hs : m.skips e = m₀.skips e) : StepEffect top t m₀ m'
  | leave (e : Nat) (k : Kind) (o : Outcome) (ht : top = some (.leave e k)) :
      StepEffect top t m₀ (m₀.resume t o (.leave e k))
  | release (e : Nat) (o : Outcome) (ht : top = some (.release e)) :
      StepEffect top t m₀ (m₀.releaseHandle t e o)
  | dropHandle {m : Machine} (h : PlainMoves t m₀ m) (slot e n : Nat) (o : Outcome)
      (hs : m.tableEngine slot = some e) (hn : n = (m.slots.get slot).handles - 1) :
      StepEffect top t m₀ (releaseHandle
        { m with slots := m.slots.set slot { engine := e, handles := n } } t e o)
  | built {m m' : Machine} (h : PlainMoves t m₀ m) (slot : Nat) (c : Config) (p : Access) (o : Outcome)
      (hs : m.slotInUse slot = false) (h' : KeepsNests t (m.startEngine (some slot) c p).2 m') :
      StepEffect top t m₀
        ({ m' with slots := m'.slots.set slot { engine := m.engines.size, handles := 1 } }.back t o)
  | builtDefault {m m' : Machine} (h : PlainMoves t m₀ m) (c : Config) (p : Access) (o : Outcome)
      (h' : KeepsNests t (m.startEngine none c p).2 m') :
      StepEffect top t m₀ (m'.releaseHandle t m.engines.size o)
  | batch {m : Machine} (h : KeepsNests t m₀ m) (e : Nat) (k : Kind) (cs : List Callback)
      (ht : top = some (.batch e k cs) ∨ top = some (.detached e k cs)) :
      StepEffect top t m₀ (m.runBatch t e k cs)
  | discard (e : Nat) (k : Kind) (cs : List Callback) (p : Payload)
      (ht : top = some (.detached e k cs)) : StepEffect top t m₀ (m₀.discardBatch t e cs (.error p))
  | rest {m : Machine} (h : PlainMoves t m₀ m) (d : Nat) (ticket : Option Nat)
      (ht : top = some (.worker d ticket)) (hd : (m.drain d).tickets.duty = .rest) :
      StepEffect top t m₀ ((m.push t (.worker d none)).waitFor t d)
  | retire {m : Machine} (h : PlainMoves t m₀ m) (d : Nat) (ticket : Option Nat)
      (ht : top = some (.worker d ticket)) (hd : (m.drain d).tickets.duty = .stop)
      (hc : (m.thread t).control = (m₀.thread t).control) :
      StepEffect top t m₀ (m.endThread t none)
  | die (d : Nat) (ticket : Option Nat) (p : Payload) (ht : top = some (.worker d ticket))
      (hc : (m₀.thread t).control = .back (.error p)) : StepEffect top t m₀ (m₀.endThread t (some p))
  | releaseTask {m : Machine} (h : PlainMoves t m₀ m) (d : Nat) (o : Outcome)
      (hd : m.Bare d) : StepEffect top t m₀ (m.shutdown t [d] o)
  | shutdown (ds : List Nat) (saved : Outcome) (ht : top = some (.shutdown ds saved)) :
      StepEffect top t m₀ (m₀.shutdown t ds saved)
  | joined (d : Nat) (ds : List Nat) (saved : Outcome) (ht : top = some (.joined d ds saved)) :
      StepEffect top t m₀ (m₀.resumeJoined t d ds saved)

namespace PlainMoves

variable {m₀ : Machine} {e : Nat} {k : Kind}

theorem keepsNests (h : PlainMoves t m₀ m) (hq : KeepsNests t m m') : PlainMoves t m₀ m' :=
  h.tail (.keepsNests hq)

theorem served (h : PlainMoves t m₀ m) (hs : Served m m') : PlainMoves t m₀ m' := h.keepsNests (.served hs)

theorem emit (h : PlainMoves t m₀ m) (u : Nat) (v : Event) : PlainMoves t m₀ (m.emit u v) :=
  h.keepsNests (.emit ..)

theorem back (h : PlainMoves t m₀ m) (o : Outcome) : PlainMoves t m₀ (m.back t o) := h.keepsNests (.back ..)

theorem done (h : PlainMoves t m₀ m) : PlainMoves t m₀ (m.done t) := h.back _

theorem answer {α : Type} (h : PlainMoves t m₀ m) (f : α → Result) (r : Except Fault α) :
    PlainMoves t m₀ (m.answer t f r) := by
  cases r <;> exact h.back _

theorem push (h : PlainMoves t m₀ m) {f : Frame} (hf : m.Allows t f) : PlainMoves t m₀ (m.push t f) :=
  h.tail (.push m f hf)

theorem setDomain (h : PlainMoves t m₀ m) (e : Nat) (k : Kind) (d : Domain) :
    PlainMoves t m₀ (m.setDomain e k d) := h.keepsNests (.setDomain ..)

theorem startDrain (h : PlainMoves t m₀ m) (d : Nat) : PlainMoves t m₀ (m.startDrain t d) := by
  unfold Machine.startDrain
  split
  · exact h.back _
  · rename_i hw
    refine (h.push (f := .await d _) ?_).done
    simpa [Allows, isWorkerThread] using hw

theorem startSynchronize (h : PlainMoves t m₀ m) (e : Nat) (k : Kind) :
    PlainMoves t m₀ (m.startSynchronize t e k) := by
  unfold Machine.startSynchronize
  split
  · exact (h.emit ..).done
  · split
    · exact h.back _
    · have hm : PlainMoves t m₀ (m.mark t e k .synchronizeCalled) := h.emit ..
      have hs := hm.served (.enroll _ t (m.engine e).access.scheduler)
      have hu := hs.served (((Served.unbind _ t (m.engine e).access).trans
        (.setPinDepth _ t (m.engine e).access 0)).trans (.bind _ t (m.engine e).access
          (((m.mark t e k .synchronizeCalled).enroll t (m.engine e).access.scheduler).snapshot t
            (m.engine e).access.scheduler).worker))
      exact ((((hu.setDomain e k _).emit ..).emit ..).push (f := .grace e k _ _) trivial).done

theorem startBarrier (h : PlainMoves t m₀ m) (e : Nat) (k : Kind) :
    PlainMoves t m₀ (m.startBarrier t e k) := by
  unfold Machine.startBarrier
  split
  · exact h.back _
  · exact ((h.emit ..).push (f := .barrier e k) trivial).startSynchronize e k

theorem endSynchronize (h : PlainMoves t m₀ m) (e : Nat) (k : Kind) (c : Snapshot) :
    PlainMoves t m₀ (m.endSynchronize t e k c) :=
  (((h.emit ..).served (.restore _ t (m.engine e).access c)).emit ..).done

theorem abortSynchronize (h : PlainMoves t m₀ m) (e : Nat) (k : Kind) (c : Snapshot) (p : Payload) :
    PlainMoves t m₀ (m.abortSynchronize t e k c p) :=
  ((h.served (.restore _ t (m.engine e).access c)).emit ..).back _

theorem requestPass (h : PlainMoves t m₀ m) {d : Nat} (hd : (m.drain d).work.domain? = none) :
    PlainMoves t m₀ (m.requestPass d) := h.tail (.request m d hd)

theorem runGuardBody (h : PlainMoves t m₀ m) {held : Option Nat} (hh : HeldByCallback held (m.thread t).stack)
    (k : Kind) (done : List Result) (ops : List Op) :
    PlainMoves t m₀ (m.runGuardBody t held k done ops) := by
  cases ops with
  | nil => exact h.back _
  | cons op rest => exact h.tail (.next m (.guardBody held k done rest) op rfl hh)

theorem runCallbackBody (h : PlainMoves t m₀ m) {held : Option Nat}
    (hh : HeldByCallback held (m.thread t).stack) (ops : List Op) :
    PlainMoves t m₀ (m.runCallbackBody t held ops) := by
  cases ops with
  | nil => exact h.done
  | cons op rest => exact h.tail (.next m (.callbackBody held op.name rest) op rfl hh)

end PlainMoves

namespace StepEffect

variable {top : Option Frame} {m₀ : Machine} {e : Nat} {k : Kind}

theorem yield (h : PlainMoves t m₀ m) (p : Access) : StepEffect top t m₀ (m.yield t p) := by
  unfold Machine.yield
  split
  · exact .park (h.emit ..) _
  · exact .plainMoves h.done

theorem pause (h : PlainMoves t m₀ m) (p : Access) (micros : Nat) :
    StepEffect top t m₀ (m.pause t p micros) := by
  unfold Machine.pause
  split
  · exact .park (((h.emit ..).served (.changeTask ..)).push (f := .wake _ _) trivial) _
  · exact .plainMoves (h.served (.sleep ..)).done

theorem served_orSelf (m : Machine) (t s : Nat) (id : Option Nat) :
    Served m (m.orSelf t s id).1 := by
  cases id with
  | none => exact .enroll ..
  | some id => exact .refl m

theorem callScheduler (h : PlainMoves t m₀ m) (p : Access) (c : SchedulerCall) :
    StepEffect top t m₀ (m.callScheduler t p c) := by
  have he := h.served (.enroll m t p.scheduler)
  cases c with
  | yield => exact yield h p
  | pause micros => exact pause h p micros
  | pin => exact .plainMoves (h.served (.pin m t p)).done
  | unpin => exact .plainMoves ((h.served (.unpin m t p)).answer _ _)
  | setPinDepth n => exact .plainMoves (h.served (.setPinDepth m t p n)).done
  | bind w => exact .plainMoves ((h.served (.bind m t p w)).answer _ _)
  | unbind => exact .plainMoves (h.served (.unbind m t p)).done
  | setPriority q => exact .plainMoves (h.served (.setPriority m t p q)).done
  | taskPriority id | taskIsInhibited id =>
    exact .plainMoves ((h.served (served_orSelf m t p.scheduler id)).answer _ _)
  | numWorkers | isHalted => exact .plainMoves (h.back _)
  | _ => exact .plainMoves (he.back _)

theorem callLogical (h : PlainMoves t m₀ m) (s : Nat) (c : LogicalCall) :
    StepEffect top t m₀ (m.callLogical t s c) := by
  cases c with
  | setHalted b => exact .plainMoves (h.served (.modifyScheduler ..)).done
  | migrate w =>
    refine .plainMoves (PlainMoves.answer (h.served ?_) _ _)
    unfold Machine.migrate
    split
    · exact .refl m
    · dsimp only
      split
      · exact (Served.enroll ..).trans (.modifyScheduler ..)
      · exact .enroll ..
  | sleep => exact .plainMoves (h.served (.sleep ..)).done
  | workerOf id => exact .plainMoves ((h.served (served_orSelf m t s id)).answer _ _)
  | setInhibited id b =>
    exact .plainMoves (h.served ((served_orSelf m t s id).trans (.modifyScheduler ..))).done

theorem locateBlocker (h : PlainMoves t m₀ m) (e : Nat) (k : Kind) (c : Snapshot) (target : UInt32) :
    StepEffect top t m₀ (m.locateBlocker t e k c target) := by
  unfold Machine.locateBlocker
  dsimp only
  split
  · exact .plainMoves (h.endSynchronize e k c)
  · split
    · have hp := h.push (f := .grace e k c target) trivial
      split
      · exact .plainMoves (h.abortSynchronize e k c _)
      · split
        · exact pause (hp.emit ..) _ _
        · exact yield (hp.served (.setPriority ..)) _
    · rename_i w _ _
      have hb := h.served (((Served.log m t (.graceMoving k w)).trans
        (.setPriority _ t (m.engine e).access .highest)).trans (.bind _ t (m.engine e).access w))
      split
      · exact .plainMoves (hb.abortSynchronize e k c _)
      · exact .plainMoves (hb.push (f := .grace e k c target) trivial).done

end StepEffect

/-- Whom a name stands for has a handle, and the table has no other engine in that place. -/
def Finds (m : Machine) (held : Option Nat) : Prop :=
  ∀ slot e, m.resolve held slot = some e →
    0 < (m.engine e).handles ∧ (m.slots.get slot).engine = e

theorem handles_retain (m : Machine) (e e' : Nat) : ((m.retain e).engine e').handles =
    (m.engine e').handles + if e' = e then 1 else 0 := by
  rw [retain, engine_modifyEngine]
  split <;> rfl

namespace StepEffect

variable {top : Option Frame} {m₀ : Machine} {e : Nat} {k : Kind} {held : Option Nat}

theorem endTask (h : PlainMoves t m₀ m) {d : Nat} (hd : m.Bare d) (o : Outcome) :
    StepEffect top t m₀ (m.releaseTask t d o) := by
  have hc : PlainMoves t m₀ (m.modifyDrain d fun x => { x with holders := (m.drain d).holders - 1 }) :=
    h.tail (.count m d _ fun _ => ⟨rfl, rfl, rfl, rfl⟩)
  unfold Machine.releaseTask
  dsimp only
  split
  · exact .releaseTask hc d o (hd.modifyDrain fun _ => rfl)
  · exact .plainMoves (hc.back o)

theorem srcuLock (h : PlainMoves t m₀ m) (hr : m₀.Raw t e) (key : String) :
    StepEffect top t m₀ (m.srcuLock t e key) := by
  refine .raw h e .sleepable hr (.inl rfl) ?_
  unfold Machine.srcuLock
  generalize m.readLock t e .sleepable = q
  dsimp only
  split
  · exact PlainMoves.back .refl _
  · have hk : KeepsNests t q.1 { q.1 with keys := (key, q.1.readDepth t e .sleepable) :: q.1.keys } :=
      .of_eq rfl rfl rfl rfl rfl
    exact PlainMoves.back (PlainMoves.keepsNests .refl hk) _

theorem srcuUnlock (h : PlainMoves t m₀ m) (hr : m₀.Raw t e) (key : String) :
    StepEffect top t m₀ (m.srcuUnlock t e key) := by
  unfold Machine.srcuUnlock
  split
  · exact .plainMoves (h.back _)
  · split
    · exact .raw h e .sleepable hr (.inr rfl) (PlainMoves.answer .refl _ _)
    · exact .plainMoves (h.back _)

theorem callHandle (h : PlainMoves t m₀ m) (hp : 0 < (m.engine e).handles) {c : HandleCall}
    (hr : c.isSection = true → m₀.Raw t e) : StepEffect top t m₀ (m.callHandle t e c) := by
  have henqueue (k : Kind) (x : Callback) : PlainMoves t m₀ (m.enqueue t e k x) :=
    h.tail (.enqueue m e k x hp)
  cases c with
  | register k w =>
    unfold Machine.callHandle Machine.register
    dsimp only
    split
    · exact .plainMoves (h.back _)
    · split
      · exact .plainMoves (((h.setDomain e k _).emit ..).back _)
      · exact .plainMoves ((h.setDomain e k _).back _)
  | isRegistered k w | activeReaders k w => exact .plainMoves (h.answer _ _)
  | readLock k => exact .raw h e k (hr rfl) (.inl rfl) (PlainMoves.answer .refl _ _)
  | readUnlock k => exact .raw h e k (hr rfl) (.inr rfl) (PlainMoves.answer .refl _ _)
  | readDepth k | currentEpoch k | pending k | numWorkers | srcuDepth => exact .plainMoves (h.back _)
  | synchronize k => exact .plainMoves (h.startSynchronize e k)
  | barrier k => exact .plainMoves (h.startBarrier e k)
  | deferDrop k id size => exact .plainMoves (henqueue ..).done
  | deferContainer k id size offset =>
    unfold Machine.callHandle
    dsimp only
    split
    · exact .plainMoves (h.back _)
    · exact .plainMoves (henqueue ..).done
  | srcuLock key => exact srcuLock h (hr rfl) key
  | srcuUnlock key => exact srcuUnlock h (hr rfl) key
  | srcuSynchronize => exact .plainMoves (h.startSynchronize e .sleepable)
  | srcuBarrier => exact .plainMoves (h.startBarrier e .sleepable)

theorem startGuard (h : PlainMoves t m₀ m) (hh : HeldByCallback held (m.thread t).stack) {e : Nat}
    (hs : m.skips e = m₀.skips e) (k : Kind) (body : List Op) :
    StepEffect top t m₀ (m.startGuard t e held k body) := by
  unfold Machine.startGuard
  dsimp only
  split
  · rename_i f hf
    exact .refused h e k f hf
  · rename_i ho
    refine .guard h e k ho (PlainMoves.runGuardBody .refl ?_ k [] body) hs
    rw [stack_push, (KeepsStacks.readLock m t e k).stack]
    exact hh.cons _

theorem callTask (h : PlainMoves t m₀ m)
    (hb : ∀ d, m.bareTask = some d → m.Bare d) (c : TaskCall) :
    StepEffect top t m₀ (m.callTask t c) := by
  unfold Machine.callTask
  cases c with
  | spawn name passes =>
    dsimp only
    split
    · exact .plainMoves (h.back _)
    · exact .plainMoves (PlainMoves.done (h.tail (.spawnTask m name passes)))
  | enqueue =>
    cases hd : m.bareTask with
    | none => exact .plainMoves (h.back _)
    | some d => exact .plainMoves (h.requestPass (hb d hd).2).done
  | drain =>
    cases hd : m.bareTask with
    | none => exact .plainMoves (h.back _)
    | some d =>
      have hc : PlainMoves t m₀ (m.modifyDrain d fun x => { x with holders := x.holders + 1 }) :=
        h.tail (.count m d _ fun _ => ⟨rfl, rfl, rfl, rfl⟩)
      exact .plainMoves ((hc.push (f := .releaseTask d) ((hb d hd).modifyDrain fun _ => rfl)).startDrain d)
  | isWorker =>
    cases m.bareTask with
    | none => exact .plainMoves (h.back _)
    | some d => exact .plainMoves (h.back _)
  | drop =>
    cases hd : m.bareTask with
    | none => exact .plainMoves (h.back _)
    | some d => exact endTask (h.tail (.dropTask m)) (hb d hd) _

theorem buildEngine (h : PlainMoves t m₀ m) {slot : Option Nat} {c : Config} {e n : Nat}
    (hb : m.buildEngine t slot c = .ok (e, n, m')) : ∃ n' p, PlainMoves t m₀ n' ∧ e = n'.engines.size ∧
      KeepsNests t (n'.startEngine slot c p).2 m' ∧ ∀ s, n'.slotInUse s = m.slotInUse s := by
  unfold Machine.buildEngine at hb
  cases hn : c.workerCount (m.offered c) m.hostWorkers with
  | error f => rw [hn] at hb; cases hb
  | ok n' =>
    rw [hn] at hb
    simp only [Except.map, Except.ok.injEq, Prod.mk.injEq] at hb
    obtain ⟨rfl, -, rfl⟩ := hb
    refine ⟨(m.accessFor c n').1, (m.accessFor c n').2, ?_, rfl, .emit .., ?_⟩
    · unfold accessFor
      split
      · exact h
      · exact h.keepsNests (.of_eq rfl rfl rfl rfl rfl)
    · unfold accessFor
      split <;> exact fun _ => rfl

theorem build (h : PlainMoves t m₀ m) (slot : Nat) (c : Config) :
    StepEffect top t m₀ (m.build t slot c) := by
  have hs : PlainMoves t m₀ { m with slots := m.slots.modify slot id } := by
    refine h.keepsNests ⟨⟨(KeepsStacks.refl t m).thread, (KeepsStacks.refl t m).engine, fun s => ?_, rfl, rfl,
      Nat.le_refl _⟩, fun _ => rfl⟩
    rw [Table.get_modify]
    split
    · rename_i hs
      rw [hs]
      rfl
    · rfl
  unfold Machine.build
  dsimp only
  split
  · exact .plainMoves (hs.back _)
  · rename_i hu
    split
    · exact .plainMoves (hs.back _)
    · split
      · exact .plainMoves (hs.back _)
      · rename_i e n m' hb
        obtain ⟨n', p, hn, rfl, hq, hsu⟩ := buildEngine hs hb
        exact .built hn slot c p _ ((hsu slot).trans (Bool.eq_false_iff.2 hu)) hq

theorem buildDefault (h : PlainMoves t m₀ m) (k : Kind) : StepEffect top t m₀ (m.buildDefault t k) := by
  unfold Machine.buildDefault
  split
  · exact .plainMoves (h.back _)
  · rename_i hb
    obtain ⟨n', p, hn, rfl, hq, -⟩ := buildEngine h hb
    exact .builtDefault hn {} p _ hq

theorem clone (h : PlainMoves t m₀ m) (hf : m.Finds held) (slot : Nat) :
    StepEffect top t m₀ (m.clone t held slot) := by
  unfold Machine.clone
  split
  · exact .plainMoves (h.back _)
  · rename_i e he
    obtain ⟨hp, hs⟩ := hf slot e he
    exact .plainMoves (PlainMoves.back (h.tail (.clone m e slot _ hp hs rfl)) _)

theorem drop (h : PlainMoves t m₀ m) (slot : Nat) : StepEffect top t m₀ (m.dropHandle t slot) := by
  unfold Machine.dropHandle
  split
  · exact .plainMoves (h.back _)
  · rename_i e he
    exact .dropHandle h slot e _ _ he rfl

theorem withEngine (h : PlainMoves t m₀ m) (hf : m.Finds held) (slot : Nat)
    (f : Machine → Nat → Machine)
    (hn : ∀ e, m.resolve held slot = some e → 0 < (m.engine e).handles →
      PlainMoves t m₀ ((m.retain e).push t (.release e)) →
      StepEffect top t m₀ (f ((m.retain e).push t (.release e)) e)) :
    StepEffect top t m₀ (m.withEngine t held slot f) := by
  unfold Machine.withEngine
  split
  · exact .plainMoves (h.back _)
  · rename_i e he
    have hp := (hf slot e he).1
    exact hn e he hp (h.tail (.visit m e hp))

theorem handles_visit (m : Machine) (t e : Nat) :
    0 < (((m.retain e).push t (.release e)).engine e).handles :=
  Nat.lt_of_lt_of_eq (Nat.succ_pos _)
    ((handles_retain m e e).trans (congrArg (_ + ·) (if_pos rfl))).symm

theorem startOp (h : PlainMoves t m₀ m) {op : Op} (hc : (m₀.thread t).control = .eval held op)
    (hh : HeldByCallback held (m.thread t).stack) (hf : m.Finds held)
    (hr : ∀ slot, m.resolve held slot = m₀.resolve held slot)
    (hs : ∀ e, m.skips e = m₀.skips e) (hb : ∀ d, m.bareTask = some d → m.Bare d) :
    StepEffect top t m₀ (m.startOp t held op) := by
  cases op with
  | build slot c => exact build h slot c
  | buildDefault k => exact buildDefault h k
  | clone slot => exact clone h hf slot
  | dropHandle slot => exact drop h slot
  | handle slot c =>
    refine withEngine h hf slot (·.callHandle t · c) fun e he _ hv =>
      callHandle hv (handles_visit ..) fun hs => ?_
    exact ⟨held, slot, c, hc, hs, (hr slot).symm.trans he⟩
  | call slot srcu k id hold body =>
    exact withEngine h hf slot (fun m e => (m.enqueue t e k (.call id hold body)).done t)
      fun e _ _ hv => .plainMoves (PlainMoves.done (hv.tail (.enqueue _ e k _ (handles_visit ..))))
  | guard slot srcu k caught body =>
    refine withEngine h hf slot (·.startGuard t · held k body) fun e _ _ hv =>
      startGuard hv ?_ ((skips_modifyEngine m e e (f := fun x => { x with handles := x.handles + 1 })
        fun _ => ⟨rfl, rfl⟩).trans (hs e)) k body
    rw [stack_push]
    exact hh.cons _
  | engineScheduler slot c =>
    exact withEngine h hf slot (fun m e => m.callScheduler t (m.engine e).access c) fun e _ _ hv =>
      callScheduler hv _ c
  | scheduler s c =>
    unfold Machine.startOp Machine.withScheduler
    dsimp only
    split
    · exact callScheduler h _ c
    · exact .plainMoves (h.back _)
  | logical s c =>
    unfold Machine.startOp Machine.withScheduler
    dsimp only
    split
    · exact callLogical h s c
    · exact .plainMoves (h.back _)
  | task c => exact callTask h hb c
  | gate => exact .park h _
  | panic p | note text | threadName | unknown name => exact .plainMoves (h.back _)

variable {d : Nat} {ticket : Option Nat}

theorem runScripted (h : PlainMoves t m₀ m) (hd : (m.drain d).work.domain? = none) (i : Nat)
    (word : String) : StepEffect top t m₀ (m.runScripted t d i word) := by
  have he : PlainMoves t m₀ (m.emit t (.pass i)) := h.emit ..
  unfold Machine.runScripted
  dsimp only
  split
  · exact .park he _
  · exact .plainMoves (he.back _)
  · exact .plainMoves (he.startDrain d)
  · exact .plainMoves (he.requestPass hd).done
  · exact .plainMoves (he.emit ..).done
  · exact .plainMoves he.done

theorem startPass (h : PlainMoves t m₀ m) (d : Nat) : StepEffect top t m₀ (m.startPass t d) := by
  have hc : PlainMoves t m₀ (m.modifyDrain d fun x => { x with passes := (m.drain d).passes + 1 }) :=
    h.tail (.count m d _ fun _ => ⟨rfl, rfl, rfl, rfl⟩)
  unfold Machine.startPass
  dsimp only
  split
  · rename_i e k hw
    unfold Machine.runCallbacks
    split
    · exact .plainMoves hc.done
    · exact .plainMoves (PlainMoves.startSynchronize (hc.tail (.detach _ e k)) e k)
  · rename_i words hw
    exact runScripted hc (congrArg Work.domain? hw) _ _

theorem workerLoop (h : PlainMoves t m₀ m) (ht : top = some (.worker d ticket))
    (hc : (m.thread t).control = (m₀.thread t).control) :
    StepEffect top t m₀ (m.workerLoop t d) := by
  unfold Machine.workerLoop
  split
  · exact .retire h d ticket ht ‹_› hc
  · exact .rest h d ticket ht ‹_›
  · exact startPass (h.tail (.loop m d _)) d

theorem resumeWorker (ht : top = some (.worker d ticket)) (hd : (m₀.drain d).thread = t)
    {o : Outcome} (hc : (m₀.thread t).control = .back o) : StepEffect top t m₀
      (m₀.resumeWorker t d ticket o) := by
  cases o with
  | error p => exact .die d ticket p ht hc
  | ok r =>
    cases ticket with
    | none => exact workerLoop .refl ht rfl
    | some n =>
      exact workerLoop (.single (.complete m₀ d n hd)) ht
        (part_notify Thread.control (fun _ _ => rfl) (m₀.modifyDrain d _) d t)

/-- What follows the end of a frame. -/
theorem resume {f : Frame} {o : Outcome} (hc : (m.thread t).control = .back o)
    (hh : HeldByCallback f.held? (m.thread t).stack) (hd : ∀ d, f = .releaseTask d → m.Bare d)
    (hw : ∀ d ticket, f = .worker d ticket → (m.drain d).thread = t) :
    StepEffect (some f) t m (m.resume t o f) := by
  have h : PlainMoves t m m := .refl
  cases f with
  | attempt => cases o <;> exact .plainMoves (h.back _)
  | release e => exact .release e o rfl
  | releaseTask d => exact endTask h (hd d rfl) o
  | leave e k => exact .leave e k o rfl
  | guardBody held k done rest =>
    cases o with
    | error p => exact .plainMoves (h.back _)
    | ok r => exact .plainMoves (h.runGuardBody hh k _ rest)
  | callbackBody held name rest =>
    cases o with
    | error p => exact .plainMoves (h.back _)
    | ok r => exact .plainMoves (PlainMoves.runCallbackBody (h.emit ..) hh rest)
  | batch e k rest =>
    unfold Machine.resume Machine.endCallback
    dsimp only
    split
    · exact .batch (.emit ..) e k rest (.inl rfl)
    · exact .batch ⟨(KeepsNests.emit ..).toKeepsStacks.trans (KeepsNests.emit ..).toKeepsStacks, fun _ =>
        rfl⟩ e k rest (.inl rfl)
  | detached e k batch =>
    cases o with
    | error p => exact .discard e k batch p rfl
    | ok r => exact .batch (.emit ..) e k batch (.inr rfl)
  | grace e k c target =>
    cases o with
    | error p => exact .plainMoves (h.abortSynchronize e k c p)
    | ok r => exact locateBlocker h e k c target
  | barrier e k =>
    cases o with
    | error p => exact .plainMoves (h.back _)
    | ok r => exact .plainMoves ((h.push (f := .barrierEnd e k) trivial).startDrain _)
  | barrierEnd e k =>
    cases o with
    | error p => exact .plainMoves (h.back _)
    | ok r => exact .plainMoves ((h.emit ..).back _)
  | await d ticket =>
    cases o with
    | error p => exact .plainMoves (h.back _)
    | ok r =>
      unfold Machine.resume Machine.resumeAwait
      dsimp only
      split
      · exact .plainMoves h.done
      · exact .await d ticket rfl
  | wake s id => exact .plainMoves ((h.served (.modifyScheduler ..)).back o)
  | worker d ticket => exact resumeWorker rfl (hw d ticket rfl) hc
  | shutdown ds saved => exact .shutdown ds saved rfl
  | joined d ds saved => exact .joined d ds saved rfl

end StepEffect

/-- What a thread needs to go on: it uses handles that it has, names stand for engines that have handles,
bare tasks serve no domain, and the passes that it makes are its own. -/
structure Prepared (m : Machine) (t : Nat) : Prop where
  stack : AllHeldByCallbacks (m.thread t).stack
  control : ∀ held op, (m.thread t).control = .eval held op → HeldByCallback held (m.thread t).stack
  finds : ∀ held op, (m.thread t).control = .eval held op → m.Finds held
  bare : ∀ d, m.bareTask = some d → m.Bare d
  tasks : ∀ d, .releaseTask d ∈ (m.thread t).stack → m.Bare d
  workers : ∀ d ticket, .worker d ticket ∈ (m.thread t).stack → (m.drain d).thread = t

/-- The thread starts an operation or has nothing to do, or else the frame on top of its stack gets an
outcome. -/
structure StepStart (m : Machine) (t : Nat) (top : Option Frame) : Prop where
  start : top = none →
    (∃ held op, (m.thread t).control = .eval held op) ∨ (m.thread t).stack = []
  back : top ≠ none → ∃ o, (m.thread t).control = .back o

theorem Prepared.advance (h : m.Prepared t) :
    ∃ top n, Starts t m top n ∧ StepStart m t top ∧ StepEffect top t n (m.advance t) := by
  unfold Machine.advance
  dsimp only
  split
  · rename_i held op hc
    refine ⟨none, m, .same, ⟨fun _ => .inl ⟨held, op, hc⟩, nofun⟩, ?_⟩
    unfold Machine.start
    split
    · have hp : PlainMoves t m (m.push t .attempt) := .single (.push m .attempt trivial)
      refine StepEffect.startOp hp hc ?_ (h.finds held op hc) (fun _ => rfl) (fun _ => rfl) h.bare
      rw [stack_push]
      exact (h.control held op hc).cons _
    · exact StepEffect.startOp .refl hc (h.control held op hc) (h.finds held op hc) (fun _ => rfl)
        (fun _ => rfl) h.bare
  · rename_i o hc hs
    exact ⟨none, m, .same, ⟨fun _ => .inr hs, nofun⟩, .idle (PlainMoves.emit .refl ..) hs⟩
  · rename_i o f rest hc hs
    have hb := h.stack
    rw [hs] at hb
    refine ⟨some f, _, .pop hs, ⟨nofun, fun _ => ⟨o, hc⟩⟩,
      StepEffect.resume ((control_pop ..).trans hc) ?_ (fun d hd => h.tasks d ?_) fun d ticket hd =>
        h.workers d ticket ?_⟩
    · rw [stack_pop]
      exact hb.1
    all_goals
      rw [hs, hd]
      exact List.mem_cons_self

end Machine

end GracePeriod
