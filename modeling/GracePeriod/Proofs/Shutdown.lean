import GracePeriod.Proofs.CallbackOrder
import GracePeriod.Proofs.Joining
import GracePeriod.Proofs.Wakeup

namespace GracePeriod.Machine

open History

variable {t u d e : Nat} {m m₀ m₁ m₂ m' m'' n : Machine} {k : Kind} {f : Frame} {top : Option Frame}
  {below : List Frame} {ds : List Nat} {saved : Outcome}

/-- What can come of a machine, at any point of a run. -/
inductive Later (m : Machine) : Machine → Prop
  | refl : Later m m
  | begin {m' : Machine} (h : Later m m') (s : Script.Step) : Later m (m'.begin s).1
  | step {m' m'' : Machine} (h : Later m m') (hb : m'.BuildsIdle) (hs : m'.step = some m'') :
      Later m m''

theorem Later.reachable (h : Later m m') (hr : Reachable m) : Reachable m' := by
  induction h with
  | refl => exact hr
  | begin _ s ih => exact ih.begin s
  | step _ hb hs ih => exact ih.step hb hs

/-- The thread of the drain task has ended, unless it is thread `t`, which cannot wait for itself. -/
def Gone (m : Machine) (t d : Nat) : Prop := (m.drain d).thread = t ∨ m.Ended (m.drain d).thread

/-- Of the drain tasks `ds`, one is next to be stopped by thread `t`, and those before it are gone. -/
def Stopping (m : Machine) (t : Nat) (below : List Frame) (ds : List Nat) : Prop :=
  ∃ f done d rest, (m.thread t).stack = f :: below ∧ f.toStop = some (d :: rest) ∧
    ds = done ++ d :: rest ∧ ∀ d' ∈ done, m.Gone t d'

theorem Stopping.length (h : m.Stopping t below ds) : below.length + 1 = (m.thread t).stack.length := by
  obtain ⟨f, done, d, rest, hs, -⟩ := h
  rw [hs, List.length_cons]

/-- Thread `t` has stopped the drain tasks or is about it. -/
def Stops (m : Machine) (t : Nat) (below : List Frame) (ds : List Nat) : Prop :=
  m.Stopping t below ds ∨ ∀ d ∈ ds, m.Gone t d

theorem Gone.changes (h : m.Gone t d) (hd : m.Serves d e k) (hc : Changes m m') (hk : Kept m m')
    (ho : Orderly m) (hst : DrainsAssigned m) : m'.Gone t d := by
  rw [Gone, (hd.kept hk).2]
  refine h.imp_right fun ⟨p, hp⟩ => ⟨p, hc.ended ho (hst.thread d e k hd) hp⟩

theorem shutdown_stops {done rest : List Nat} (hs : (n.thread t).stack = below)
    (hg : ∀ d ∈ done, (n.shutdown t rest saved).Gone t d) :
    (n.shutdown t rest saved).Stopping t below (done ++ rest) ∨
      rest.length ≤ 1 ∧ ∀ d ∈ done ++ rest, (n.shutdown t rest saved).Gone t d := by
  cases rest with
  | nil =>
    rw [List.append_nil]
    exact .inr ⟨Nat.zero_le _, hg⟩
  | cons d rest =>
    let n' := (n.modifyDrain d fun x => { x with tickets := x.tickets.close }).notify d
    have hs' : (n'.thread t).stack = below := (part_notify Thread.stack (fun _ _ => rfl) _ d t).trans hs
    have hdrain : (n.shutdown t (d :: rest) saved).drain d = n'.drain d :=
      congrArg (Table.get · d) (drains_shutdown ..)
    by_cases hu : (n'.drain d).thread = t
    · have hd : (n.shutdown t (d :: rest) saved).Gone t d := .inl (by rw [hdrain]; exact hu)
      have hstack : ((n.shutdown t (d :: rest) saved).thread t).stack = .shutdown rest saved :: below := by
        unfold Machine.shutdown
        dsimp only
        rw [if_pos hu]
        exact (stack_back ..).trans ((stack_push ..).trans (congrArg _ hs'))
      have hall : ∀ d' ∈ done ++ [d], (n.shutdown t (d :: rest) saved).Gone t d' := fun d' hd' => by
        rcases List.mem_append.1 hd' with hd' | hd'
        · exact hg d' hd'
        · rwa [List.mem_singleton.1 hd']
      cases rest with
      | nil => exact .inr ⟨Nat.le_refl _, hall⟩
      | cons d' rest => exact .inl ⟨_, done ++ [d], d', rest, hstack, rfl, List.append_cons .., hall⟩
    · refine .inl ⟨.joined d rest saved, done, d, rest, ?_, rfl, rfl, hg⟩
      unfold Machine.shutdown
      dsimp only
      rw [if_neg hu]
      exact (part_join Thread.stack (fun _ _ => rfl) _ t _ t).trans
        ((stack_back ..).trans ((stack_push ..).trans (congrArg _ hs')))

theorem resumeJoined_stops {done rest : List Nat} (hs : (n.thread t).stack = below)
    (hg : ∀ d' ∈ done ++ [d], (n.resumeJoined t d rest saved).Gone t d') :
    (n.resumeJoined t d rest saved).Stops t below (done ++ d :: rest) := by
  have hstack : ((n.resumeJoined t d rest saved).thread t).stack = .shutdown rest saved :: below := by
    obtain ⟨n', hq, heq⟩ := resumeJoined_eq n t d rest saved
    rw [heq]
    exact (stack_back ..).trans ((stack_push ..).trans (congrArg _ ((hq.toKeepsStacks.stack t).trans hs)))
  cases rest with
  | nil => exact .inr hg
  | cons d' rest => exact .inl ⟨_, done ++ [d], d', rest, hstack, rfl, List.append_cons .., hg⟩

theorem Stops.advance (h : m.Stops t below ds) (hr : Reachable m) (hb : m.BuildsIdle)
    (hu : m.turn = some u) (hd : ∀ d ∈ ds, ∃ e k, m.Serves d e k) :
    (m.advance u).Stops t below ds := by
  have ho := hr.visited.orderly
  have hgone {d : Nat} (hmem : d ∈ ds) (hg : m.Gone t d) : (m.advance u).Gone t d := by
    obtain ⟨e, k, hs⟩ := hd d hmem
    exact hg.changes hs (advance_changes hb hu) (advance_kept hb hu) ho hr.visited.drainsAssigned
  rcases h with ⟨f, done, d, rest, hs, hf, rfl, hg⟩ | hall
  swap
  · exact .inr fun d hmem => hgone hmem (hall d hmem)
  have hdone : ∀ d' ∈ done, (m.advance u).Gone t d' := fun d' hmem =>
    hgone (List.mem_append_left _ hmem) (hg d' hmem)
  by_cases hut : t = u
  · subst hut
    have hmem : f ∈ (m.thread t).stack := by
      rw [hs]
      exact List.mem_cons_self
    obtain ⟨o, hc⟩ := (hr.joins t).back f hmem (by rw [hf]; nofun)
    rw [advance_back hc hs] at hdone hgone ⊢
    cases f with
    | shutdown ds' saved =>
      obtain rfl := Option.some.inj hf
      exact (shutdown_stops (stack_pop ..) hdone).imp_right And.right
    | joined d' ds' saved =>
      obtain ⟨rfl, rfl⟩ := List.cons.inj (Option.some.inj hf)
      refine resumeJoined_stops (stack_pop ..) fun d'' hd'' => ?_
      rcases List.mem_append.1 hd'' with hd'' | hd''
      · exact hdone d'' hd''
      · -- the thread runs again, so what it waited for has happened
        rw [List.mem_singleton.1 hd'']
        have hin : d' ∈ done ++ d' :: ds' := List.mem_append_right _ List.mem_cons_self
        obtain ⟨e, k, hserves⟩ := hd d' hin
        refine hgone hin (.inr ?_)
        rcases (hr.joins t).waits d' ds' saved e k hmem hserves with hj | he
        · cases hj.symm.trans (ho.turn t hu).1
        · exact he
    | _ => cases hf
  · refine .inl ⟨f, done, d, rest, ?_, hf, rfl, hdone⟩
    cases advance_unmoved hb hu hut with
    | same hs' hc => exact hs'.trans hs
    | started hle =>
      rw [thread_of_size_le hle] at hs
      cases hs

theorem Stops.external (h : m.Stops t below ds) (he : External m m') (ho : Orderly m)
    (hst : DrainsAssigned m) (hd : ∀ d ∈ ds, ∃ e k, m.Serves d e k) : m'.Stops t below ds := by
  have hgone {d : Nat} (hmem : d ∈ ds) (hg : m.Gone t d) : m'.Gone t d := by
    obtain ⟨e, k, hs⟩ := hd d hmem
    exact hg.changes hs (.single (.external he)) he.kept ho hst
  rcases h with ⟨f, done, d, rest, hs, hf, rfl, hg⟩ | hall
  · exact .inl ⟨f, done, d, rest, (he.stack ho t).trans hs, hf, rfl, fun d' hmem =>
      hgone (List.mem_append_left _ hmem) (hg d' hmem)⟩
  · exact .inr fun d hmem => hgone hmem (hall d hmem)

theorem Later.changes (h : Later m m') : Changes m m' := by
  induction h with
  | refl => exact .refl
  | begin _ s ih => exact ih.trans (begin_changes _ s)
  | step _ hb hs ih => exact ih.trans (step_changes hb hs)

theorem Changes.kept (h : Changes m m') : Kept m m' := by
  induction h with
  | refl => exact .refl m
  | tail _ hc ih => exact ih.trans hc.kept

theorem Later.kept (h : Later m m') : Kept m m' := h.changes.kept

/-- Once a thread stops drain tasks, it goes on only when they are gone. -/
theorem Stops.later (h : m.Stops t below ds) (hl : Later m m') (hr : Reachable m)
    (hd : ∀ d ∈ ds, ∃ e k, m.Serves d e k) : m'.Stops t below ds := by
  have hserves {m' : Machine} (hk : Kept m m') : ∀ d ∈ ds, ∃ e k, m'.Serves d e k := fun d hmem => by
    obtain ⟨e, k, hs⟩ := hd d hmem
    exact ⟨e, k, (hs.kept hk).1⟩
  induction hl with
  | refl => exact h
  | begin hl s ih =>
    have hall := (begin_externals _ s).preserves
      (P := fun n => n.Stops t below ds ∧ DrainsAssigned n ∧ ∀ d ∈ ds, ∃ e k, n.Serves d e k)
      (fun n n' ho he hp => ⟨hp.1.external he ho hp.2.1 hp.2.2, hp.2.1.change (.external he),
        fun d hmem => by
          obtain ⟨e, k, hs⟩ := hp.2.2 d hmem
          exact ⟨e, k, (hs.kept he.kept).1⟩⟩)
      (hl.reachable hr).visited.orderly
      ⟨ih, (hl.reachable hr).visited.drainsAssigned, hserves hl.kept⟩
    exact hall.1
  | step hl hb hs ih =>
    rcases step_cases hs with ⟨u, hu, rfl⟩ | ⟨u, rest, hn, hr', rfl⟩
    · exact ih.advance (hl.reachable hr) hb hu (hserves hl.kept)
    · exact ih

/-- The engine has been founded, and it has no handle any more. -/
def Spent (m : Machine) (e : Nat) : Prop := (m.engine e).handles = 0 ∧ ∃ d k, m.Serves d e k

def Releases (t e : Nat) (m' : Machine) : Prop :=
  ∃ (n : Machine) (o : Outcome), n.Paired ∧ 0 < (n.engine e).handles ∧ m' = n.releaseHandle t e o

theorem PlainMove.handles_le (h : PlainMove t m m') (e : Nat) :
    (m.engine e).handles ≤ (m'.engine e).handles := by
  have hretain (e' : Nat) : (m.engine e).handles ≤ ((m.retain e').engine e).handles :=
    (Nat.le_add_right ..).trans_eq (handles_retain m e' e).symm
  cases h with
  | keepsNests h => exact (h.toKeepsStacks.level.handles e).ge
  | push | next | count | loop | spawnTask | dropTask => exact Nat.le_refl _
  | request d hd => exact ((requestPass_level ..).handles e).ge
  | complete d n hd => exact (((Level.modifyDrain ..).trans (.notify ..)).handles e).ge
  | enqueue e' k c hp =>
    let n := if c.holdsHandle then m.retain e' else m
    have hl : Level (n.modifyEngine e' fun x => x.setQueue k (x.queue k ++ [c])) (m.enqueue t e' k c) :=
      (Level.emit ..).trans (requestPass_level ..)
    rw [hl.handles, handles_setQueue n, handles_retain_if]
    exact Nat.le_add_right ..
  | visit e' hp => exact hretain e'
  | clone e' slot n hp hs hn => exact hretain e'
  | detach e' k => exact (handles_setQueue m e e' k fun _ => []).ge

theorem PlainMoves.handles_le (h : PlainMoves t m m') (e : Nat) :
    (m.engine e).handles ≤ (m'.engine e).handles := by
  induction h with
  | refl => exact Nat.le_refl _
  | tail _ hc ih => exact ih.trans (hc.handles_le e)

theorem handles_shutdown (m : Machine) (t : Nat) (ds : List Nat) (saved : Outcome) (e : Nat) :
    ((m.shutdown t ds saved).engine e).handles = (m.engine e).handles := by
  cases ds with
  | nil => rfl
  | cons d ds =>
    have hn := ((Level.modifyDrain m d fun x => { x with tickets := x.tickets.close }).trans
      (.notify _ d)).handles e
    unfold Machine.shutdown
    dsimp only
    split
    · exact hn
    · exact ((Level.join ..).handles e).trans hn

theorem handles_releaseHandle (m : Machine) (t e : Nat) (o : Outcome) {e' : Nat} (he : e' ≠ e) :
    ((m.releaseHandle t e o).engine e').handles = (m.engine e').handles := by
  have hn : ((m.modifyEngine e fun x => { x with handles := (m.engine e).handles - 1 }).engine e').handles =
      (m.engine e').handles :=
    congrArg Engine.handles ((engine_modifyEngine ..).trans (if_neg he))
  unfold Machine.releaseHandle
  dsimp only
  split
  · exact (handles_shutdown ..).trans hn
  · exact hn

theorem StepEffect.handles_le (h : StepEffect top t m₀ m') (hp : m₀.Paired)
    (hs : ∀ e, m₀.handleCount e + topHandleCount e top ≤ (m₀.engine e).handles) (e : Nat) :
    (m₀.engine e).handles ≤ (m'.engine e).handles ∨ Releases t e m' := by
  have hlevel {n : Machine} (h : PlainMoves t m₀ n) (hl : Level n m') :
      (m₀.engine e).handles ≤ (m'.engine e).handles := (h.handles_le e).trans (hl.handles e).ge
  cases h with
  | plainMoves h => exact .inl (h.handles_le e)
  | idle h hs => exact .inl (hlevel h (.stop ..))
  | park h p => exact .inl (hlevel h ((Level.back ..).trans (.stop ..)))
  | await d ticket ht => exact .inl ((Level.waitFor (m₀.push t (.await d ticket)) t d).handles e).ge
  | raw h e' k hr hn h' =>
    exact .inl (((h.handles_le e).trans ((KeepsStacks.crossing hn).level.handles e).ge).trans
      (h'.handles_le e))
  | refused h e' k f hf => exact .inl (hlevel h (KeepsStacks.refused ..).level)
  | @guard n _ h e' k ho h' =>
    exact .inl (((h.handles_le e).trans ((KeepsStacks.readLock n t e' k).level.handles e).ge).trans
      (h'.handles_le e))
  | leave e' k o ht => exact .inl (hlevel .refl (KeepsStacks.leave ..).level)
  | release e' o ht =>
    by_cases he : e = e'
    · subst he
      exact .inr ⟨m₀, o, hp, handles_pos_of_release (hs e) ht, rfl⟩
    · exact .inl (handles_releaseHandle m₀ t e' o he).ge
  | @dropHandle n h slot e' i o hslot hi =>
    by_cases he : e = e'
    · subst he
      have hset := KeepsPlaces.setSlot n (tableEngine_eq_some.1 hslot).2 i
      exact .inr ⟨_, o, (hp.foundsNone h.foundsNone).foundsNone hset.foundsNone, h.handles_pos (hs e) hslot,
        rfl⟩
    · have hr := handles_releaseHandle { n with slots := n.slots.set slot ⟨e', i⟩ } t e' o he
      exact .inl ((h.handles_le e).trans hr.ge)
  | @built n n' h slot c p o hslot h' =>
    refine .inl ((h.handles_le e).trans ?_)
    show _ ≤ (n'.engine e).handles
    rw [h'.toKeepsStacks.level.handles, handles_startEngine]
    split
    · rename_i hnew
      rw [hnew, handles_unborn]
      exact Nat.zero_le _
    · exact Nat.le_refl _
  | @builtDefault n n' h c p o h' =>
    by_cases he : e = n.engines.size
    · subst he
      have hq : KeepsPlaces (n.found none c p) n' := .keepsStacks h'.toKeepsStacks
      exact .inr ⟨n', o, (paired_found (hp.foundsNone h.foundsNone) none c p).foundsNone hq.foundsNone,
        handles_newborn h'.toKeepsStacks, rfl⟩
    · rw [handles_releaseHandle _ t _ o he, h'.toKeepsStacks.level.handles, handles_startEngine, if_neg he]
      exact .inl (h.handles_le e)
  | @batch n h e' k cs ht =>
    exact .inl ((h.toKeepsStacks.level.handles e).ge.trans ((BatchMoves.runBatch ..).handles e).ge)
  | discard e' k cs p ht => exact .inl ((BatchMoves.discardBatch ..).handles e).ge
  | @rest n h d ticket ht hd =>
    exact .inl ((h.handles_le e).trans ((Level.waitFor (n.push t (.worker d none)) t d).handles e).ge)
  | @retire n h d ticket ht hd hc =>
    have hl : Leave t n (n.endThread t none) := .endThread n none
    exact .inl ((h.handles_le e).trans_eq
      (congrArg (fun es => (Table.get es e).handles) hl.keepsEngines.engines.symm))
  | die d ticket p ht hc =>
    have hl : Leave t m₀ (m₀.endThread t (some p)) := .endThread m₀ _
    exact .inl (congrArg (fun es => (Table.get es e).handles) hl.keepsEngines.engines.symm).le
  | releaseTask h d o hd => exact .inl ((h.handles_le e).trans (handles_shutdown ..).ge)
  | shutdown ds saved ht => exact .inl (handles_shutdown ..).ge
  | joined d ds saved ht =>
    obtain ⟨n, hq, heq⟩ := resumeJoined_eq m₀ t d ds saved
    rw [heq]
    exact .inl (hq.toKeepsStacks.level.handles e).ge

theorem StepEffect.releases (h : StepEffect top t m₀ m') (hp : m₀.Paired)
    (hs : ∀ e, m₀.handleCount e + topHandleCount e top ≤ (m₀.engine e).handles) (he : m'.Spent e) :
    m₀.Spent e ∨ Releases t e m' := by
  obtain ⟨hz, d, k, hd⟩ := he
  refine (h.handles_le hp hs e).elim (fun hle => ?_) .inr
  have hz₀ : (m₀.engine e).handles = 0 := by omega
  rcases h.foundsNone with ht | ⟨n, slot, c, p, hn, -, hq, hnew⟩
  · exact .inl ⟨hz₀, d, k, ht.serves d e k hd⟩
  · rcases serves_found.1 (hq.foundsNone.serves d e k hd) with hd | ⟨rfl, rfl⟩
    · exact .inl ⟨hz₀, d, k, hn.foundsNone.serves d e k hd⟩
    · rcases hnew with hpos | ⟨n', o, hf, hpos, rfl⟩
      · omega
      · exact .inr ⟨n', o, (paired_found (hp.foundsNone hn.foundsNone) slot c p).foundsNone hf.foundsNone,
          hpos, rfl⟩

theorem releaseHandle_last {o : Outcome} (hz : ((n.releaseHandle t e o).engine e).handles = 0) :
    ∃ n' : Machine, (n'.thread t).stack = (n.thread t).stack ∧
      n.releaseHandle t e o = n'.shutdown t (n.engine e).drains.toList o := by
  let n' := n.modifyEngine e fun x => { x with handles := (n.engine e).handles - 1 }
  have hdrains : (n'.engine e).drains = (n.engine e).drains :=
    part_modifyEngine Engine.drains n e e fun _ => rfl
  have hhandles : (n'.engine e).handles = (n.engine e).handles - 1 :=
    congrArg Engine.handles ((engine_modifyEngine ..).trans (if_pos rfl))
  unfold Machine.releaseHandle at hz ⊢
  dsimp only at hz ⊢
  by_cases hlast : (n.engine e).handles - 1 = 0
  · rw [if_pos hlast]
    refine ⟨n'.log t (.engineStopping (n'.engine e).pending), rfl, ?_⟩
    rw [← hdrains]
  · rw [if_neg hlast] at hz
    exact absurd (hhandles.symm.trans hz) hlast

/-- Who gives up the last handle stops both drain tasks of the engine. -/
theorem Releases.stopping (h : Releases t e m') (hz : (m'.engine e).handles = 0) :
    ∃ below, m'.Stopping t below (m'.engine e).drains.toList ∧
      ∀ k, m'.Serves ((m'.engine e).drains.get k) e k := by
  obtain ⟨n, o, hp, hpos, rfl⟩ := h
  have hf : KeepsPlaces n (n.releaseHandle t e o) := .releaseHandle ..
  rw [hf.drains]
  refine ⟨(n.thread t).stack, ?_, fun k => (hf.work _).trans (hp e k hpos)⟩
  obtain ⟨n', hs, heq⟩ := releaseHandle_last hz
  rw [heq]
  have hall : (n'.shutdown t (n.engine e).drains.toList o).Stopping t (n.thread t).stack
      ([] ++ (n.engine e).drains.toList) ∨ (n.engine e).drains.toList.length ≤ 1 ∧ _ :=
    shutdown_stops hs nofun
  exact hall.resolve_right fun hshort => absurd hshort.1 (by simp [PerKind.toList])

/-- A drain thread that has ended without a panic has run all callbacks. -/
theorem Reachable.finished_eq_queued (h : Reachable m) (hd : m.Serves d e k)
    (he : (m.thread (m.drain d).thread).status = .ended none) :
    finished (m.history e k) = queued (m.history e k) := by
  have hs := h.visited.orderly.resting _ (.inr ⟨_, he⟩)
  have hq := h.queue_eq_nil hd (h.retired d e k hd he).2
  cases h.stage hd with
  | gone lost p _ hp hh hf hl =>
    obtain rfl := Status.ended.inj (hp.symm.trans he)
    rw [hh.queued, hl rfl, hq, hf, List.append_nil, List.append_nil]
  | rest _ _ hs' | landed _ _ _ hs' => exact absurd (hs.symm.trans hs') nofun
  | waiting _ _ _ _ _ _ _ hs' | running _ _ _ hs' => exact absurd (hs.symm.trans hs') (by simp)
  | beingStopped _ _ hu =>
    obtain ⟨fs, o, hs', -⟩ := hu
    exact absurd (hs.symm.trans hs') (by simp)

/-- The drain thread has ended, and all callbacks of the domain have run. -/
def Drained (m : Machine) (e : Nat) (k : Kind) : Prop :=
  (m.thread (m.drainThread e k)).status = .ended none ∧
    finished (m.history e k) = queued (m.history e k)

/-- Thread `t` gives up the last handle on an engine, and neither drain thread dies from a panic. From
then on `t` is about to stop the drain tasks, with what it did before `below` that. When it goes on with
`below`, all callbacks have run and the drain threads have ended, except those of `t` itself, which does
not wait for itself. And whenever a drain thread has ended, all its callbacks have run. -/
theorem shutdown_drains (h : Reachable m) (hb : m.BuildsIdle) (ht : m.turn = some t)
    (hbefore : ¬m.Spent e) (hafter : (m.advance t).Spent e) :
    ∃ below, (m.advance t).Stopping t below ((m.advance t).engine e).drains.toList ∧
      ∀ m', Later (m.advance t) m' →
        (∀ k p, (m'.thread (m'.drainThread e k)).status ≠ .ended (some p)) →
        m'.drainThread e .regular ≠ m'.drainThread e .sleepable ∧
        (m'.thread t).status ≠ .joining t ∧
        (¬m'.Stopping t below ((m'.engine e).drains.toList) →
          ∀ k, m'.drainThread e k ≠ t → m'.Drained e k) ∧
        ∀ k, (m'.thread (m'.drainThread e k)).status = .ended none → m'.Drained e k := by
  obtain ⟨top, n, hn, hc, he⟩ := h.stepEffect ht
  obtain ⟨-, -, -, -, hpn, hsn⟩ :=
    h.handleInvariant.starts hn (isLive_of_active (h.visited.orderly.turn t ht).1) hc
  have hspent : ¬n.Spent e := by
    rintro ⟨hz, d, k, hd⟩
    refine hbefore ⟨?_, d, k, hn.keepsPlaces.foundsNone.serves d e k hd⟩
    rw [← hz, engine, ← hn.engines, engine]
  have hr := (he.releases hpn hsn hafter).resolve_left hspent
  have h₁ : Reachable (m.advance t) := h.step hb (step_of_turn ht)
  obtain ⟨below, hstop, hserves⟩ := hr.stopping hafter.1
  refine ⟨below, hstop, fun m' hl hp => ?_⟩
  have h' := hl.reachable h₁
  have hst := h'.visited.drainsAssigned
  have hserves' (k : Kind) : m'.Serves ((m'.engine e).drains.get k) e k := by
    have hd := ((hserves k).kept hl.kept).1
    rwa [hst.named _ e k hd]
  have hdrains : (m'.engine e).drains.toList = ((m.advance t).engine e).drains.toList := by
    have hk (k : Kind) : (m'.engine e).drains.get k = ((m.advance t).engine e).drains.get k :=
      hst.named _ e k ((hserves k).kept hl.kept).1
    rw [PerKind.toList_eq_map, PerKind.toList_eq_map]
    exact List.map_congr_left fun k _ => hk k
  have hdrained (k : Kind) (he : (m'.thread (m'.drainThread e k)).status = .ended none) :
      m'.Drained e k := ⟨he, h'.finished_eq_queued (hserves' k) he⟩
  refine ⟨fun heq => ?_, h'.selfless t, fun hreturned k hk => hdrained k ?_, hdrained⟩
  · have hsame := hst.apart _ _ e e _ _ (hserves' .regular) (hserves' .sleepable) heq
    have hwork := (hserves' .regular).symm.trans ((congrArg (fun d => (m'.drain d).work) hsame).trans
      (hserves' .sleepable))
    cases (Work.callbacks.inj hwork).2
  · have hall := Stops.later (.inl hstop) hl h₁ fun d hd => by
      obtain ⟨k, -, rfl⟩ := List.mem_map.1 (PerKind.toList_eq_map _ ▸ hd)
      exact ⟨e, k, hserves k⟩
    rw [← hdrains] at hall
    have hmem : (m'.engine e).drains.get k ∈ (m'.engine e).drains.toList := by
      rw [PerKind.toList_eq_map]
      exact List.mem_map_of_mem (Kind.mem_all k)
    rcases (hall.resolve_left hreturned) _ hmem with hself | ⟨p, hp'⟩
    · exact absurd hself hk
    · cases p with
      | none => exact hp'
      | some p => exact absurd hp' (hp k p)

theorem Later.run (m : Machine) (fuel : Nat) (hr : runsPlain fuel m = true) :
    Later m (m.run fuel) := run_induction (fun _ _ h hb hs => h.step hb hs) hr .refl

/-- A callback stands at a gate and holds a handle, another one is queued behind it. One is enqueued
for the sleepable domain, then the handle in the table goes, and then the gate opens. Here the handle of
the callback, which is the last one, is about to go. -/
def lastInCallback : Machine :=
  let m := (sample.perform (.act 0 (.call 0 false .regular 1 true [.gate]))).1
  let m := (m.perform (.act 0 (.call 0 false .regular 2 false []))).1
  let m := (m.begin (.act 0 (.handle 0 (.deferDrop .sleepable 7 4)))).1
  let m := (m.begin (.act 1 (.dropHandle 0))).1
  (m.wake 1).run 12

theorem reachable_lastInCallback : Reachable lastInCallback := by
  have h := reachable_sample.perform (.act 0 (.call 0 false .regular 1 true [.gate])) (by decide +kernel)
  have h := h.perform (.act 0 (.call 0 false .regular 2 false [])) (by decide +kernel)
  have h := h.begin (.act 0 (.handle 0 (.deferDrop .sleepable 7 4)))
  have h := h.begin (.act 1 (.dropHandle 0))
  exact (h.wakeOnly (t := 1) (by decide +kernel)).run (by decide +kernel)

/-- Callbacks are queued in both domains when an actor gives up the last handle. -/
def lastOnActor : Machine :=
  let m := (sample.begin (.act 0 (.call 0 false .regular 1 false []))).1
  let m := (m.begin (.act 1 (.handle 0 (.deferDrop .sleepable 7 4)))).1
  let m := (m.begin (.act 2 (.dropHandle 0))).1
  m.run 11

theorem reachable_lastOnActor : Reachable lastOnActor :=
  (((reachable_sample.begin _).begin _).begin _).run (by decide +kernel)

/-- The callback on the drain thread comes back from its last handle when the other domain is done, and
what is queued behind it still runs. The actor comes back when both are done. -/
theorem last_handle_in_callback_and_on_actor :
    ((lastInCallback.advance 1).Spent 0 ∧
      ((lastInCallback.advance 1).run 10).drainThread 0 .regular = 1 ∧
      ((lastInCallback.advance 1).run 10).Drained 0 .sleepable ∧
      ((lastInCallback.advance 1).run 16).Drained 0 .regular) ∧
    ((lastOnActor.advance 4).Spent 0 ∧
      ∀ k, ((lastOnActor.advance 4).run 20).Drained 0 k) := by
  have hcallback : (lastInCallback.advance 1).Spent 0 := ⟨rfl, 0, .regular, rfl⟩
  have hactor : (lastOnActor.advance 4).Spent 0 := ⟨rfl, 0, .regular, rfl⟩
  obtain ⟨below, hstop, hall⟩ := shutdown_drains reachable_lastInCallback
    (buildsIdle_of_buildsPlain (by decide +kernel)) (t := 1) rfl (fun h => by cases h.1) hcallback
  obtain ⟨below', hstop', hall'⟩ := shutdown_drains reachable_lastOnActor
    (buildsIdle_of_buildsPlain (by decide +kernel)) (t := 4) rfl (fun h => by cases h.1) hactor
  refine ⟨⟨hcallback, rfl, ?_, ?_⟩, hactor, fun k => ?_⟩
  · have hlater := Later.run (lastInCallback.advance 1) 10 (by decide +kernel)
    have hwell : ∀ k p, (((lastInCallback.advance 1).run 10).thread
        (((lastInCallback.advance 1).run 10).drainThread 0 k)).status ≠ .ended (some p) := by
      rintro (_ | _) p hp
      · cases (show Status.active = .ended (some p) from hp)
      · cases (show Status.ended none = .ended (some p) from hp)
    have hbefore : ((lastInCallback.advance 1).thread 1).stack.length = 3 := rfl
    have hnow : (((lastInCallback.advance 1).run 10).thread 1).stack.length = 2 := rfl
    refine (hall _ hlater hwell).2.2.1 (fun hs => ?_) .sleepable (by decide +kernel)
    exact absurd (hbefore.symm.trans (hstop.length.symm.trans (hs.length.trans hnow))) (by decide)
  · have hlater := Later.run (lastInCallback.advance 1) 16 (by decide +kernel)
    have hwell : ∀ k p, (((lastInCallback.advance 1).run 16).thread
        (((lastInCallback.advance 1).run 16).drainThread 0 k)).status ≠ .ended (some p) := by
      rintro (_ | _) p hp <;> cases (show Status.ended none = .ended (some p) from hp)
    exact (hall _ hlater hwell).2.2.2 .regular rfl
  · have hlater := Later.run (lastOnActor.advance 4) 20 (by decide +kernel)
    have hwell : ∀ k p, (((lastOnActor.advance 4).run 20).thread
        (((lastOnActor.advance 4).run 20).drainThread 0 k)).status ≠ .ended (some p) := by
      rintro (_ | _) p hp <;> cases (show Status.ended none = .ended (some p) from hp)
    have hbefore : ((lastOnActor.advance 4).thread 4).stack.length = 2 := rfl
    have hnow : (((lastOnActor.advance 4).run 20).thread 4).stack.length = 1 := rfl
    refine (hall' _ hlater hwell).2.2.1 (fun hs => ?_) k (by cases k <;> decide +kernel)
    exact absurd (hbefore.symm.trans (hstop'.length.symm.trans (hs.length.trans hnow))) (by decide)

end GracePeriod.Machine
