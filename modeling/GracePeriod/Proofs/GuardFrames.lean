import GracePeriod.Proofs.Depth
import GracePeriod.Proofs.HandleInvariant

namespace GracePeriod

def Frame.isGuard : Frame → Bool
  | .leave .. => true
  | _ => false

/-- The kind of the guard on engine `e` that the frame drops. -/
def Frame.guardOn (e : Nat) : Frame → Option Kind
  | .leave e' k => if e' = e then some k else none
  | _ => none

/-- The guards on engine `e` that the frames drop, innermost first. -/
def guardsOn (e : Nat) (fs : List Frame) : List Kind := fs.filterMap (Frame.guardOn e)

theorem guardsOn_append (e : Nat) (fs gs : List Frame) :
    guardsOn e (fs ++ gs) = guardsOn e fs ++ guardsOn e gs := List.filterMap_append

theorem guardsOn_leave (e : Nat) (k : Kind) (fs : List Frame) :
    guardsOn e (.leave e k :: fs) = k :: guardsOn e fs :=
  List.filterMap_cons_some (if_pos rfl)

theorem guardsOn_leave_ne {e e' : Nat} (h : e' ≠ e) (k : Kind) (fs : List Frame) :
    guardsOn e (.leave e' k :: fs) = guardsOn e fs := List.filterMap_cons_none (if_neg h)

theorem guardsOn_cons {e : Nat} {f : Frame} (hf : f.guardOn e = none) (fs : List Frame) :
    guardsOn e (f :: fs) = guardsOn e fs := List.filterMap_cons_none hf

theorem guardOn_of_not_isGuard {f : Frame} (hf : f.isGuard = false) (e : Nat) : f.guardOn e = none := by
  cases f <;> first | rfl | cases hf

theorem guardOn_eq_some {e : Nat} {k : Kind} {f : Frame} : f.guardOn e = some k ↔ f = .leave e k := by
  cases f with
  | leave e' k' => simp [Frame.guardOn]
  | _ => simp [Frame.guardOn]

theorem guardsOn_eq_nil {fs : List Frame} (hf : ∀ f ∈ fs, f.isGuard = false) (e : Nat) :
    guardsOn e fs = [] :=
  List.filterMap_eq_nil_iff.2 fun f hmem => guardOn_of_not_isGuard (hf f hmem) e

namespace Machine

variable {t u d e : Nat} {m m₀ m' m'' n : Machine} {k : Kind} {f : Frame} {o : Outcome} {top : Option Frame}

/-- Thread `t` has at most put frames onto its stack, and none that drops a guard; and no depth has
changed. -/
structure OnlyPushes (t : Nat) (m m' : Machine) : Prop where
  stack : ∃ fs, (m'.thread t).stack = fs ++ (m.thread t).stack ∧ ∀ f ∈ fs, f.isGuard = false
  nests : ∀ u, m'.nests u = m.nests u

namespace OnlyPushes

theorem same (hs : (m'.thread t).stack = (m.thread t).stack) (hn : ∀ u, m'.nests u = m.nests u) :
    OnlyPushes t m m' := ⟨⟨[], hs, nofun⟩, hn⟩

theorem refl (t : Nat) (m : Machine) : OnlyPushes t m m := .same rfl fun _ => rfl

theorem trans (h : OnlyPushes t m m') (h' : OnlyPushes t m' m'') : OnlyPushes t m m'' := by
  obtain ⟨fs, hs, hf⟩ := h.stack
  obtain ⟨fs', hs', hf'⟩ := h'.stack
  refine ⟨⟨fs' ++ fs, by rw [hs', hs, List.append_assoc], fun f hmem => ?_⟩,
    fun u => (h'.nests u).trans (h.nests u)⟩
  rcases List.mem_append.1 hmem with hmem | hmem
  · exact hf' f hmem
  · exact hf f hmem

theorem cons (hf : f.isGuard = false) (hs : (m'.thread t).stack = f :: (m.thread t).stack)
    (hn : ∀ u, m'.nests u = m.nests u) : OnlyPushes t m m' :=
  ⟨⟨[f], hs, fun _ hg => List.mem_singleton.1 hg ▸ hf⟩, hn⟩

theorem push (m : Machine) (t : Nat) (hf : f.isGuard = false) : OnlyPushes t m (m.push t f) :=
  .cons hf (stack_push ..) fun u => part_modifyThread Thread.nests m t u fun _ => rfl

theorem back (m : Machine) (t : Nat) (o : Outcome) : OnlyPushes t m (m.back t o) :=
  .same (stack_back ..) fun u => part_modifyThread Thread.nests m t u fun _ => rfl

theorem eval (m : Machine) (t : Nat) (held : Option Nat) (op : Op) : OnlyPushes t m (m.eval t held op) :=
  .same (Orderly.stack_setControl ..) fun u => part_modifyThread Thread.nests m t u fun _ => rfl

theorem stop (m : Machine) (t : Nat) (s : Status) : OnlyPushes t m (m.stop t s) :=
  .same (stack_stop ..) fun u => part_modifyThread Thread.nests m t u fun _ => rfl

theorem emit (m : Machine) (t : Nat) (v : Event) : OnlyPushes t m (m.emit t v) := .same rfl fun _ => rfl

theorem waitFor (m : Machine) (t d : Nat) : OnlyPushes t m (m.waitFor t d) :=
  .same ((stack_stop ..).trans (stack_back ..)) (KeepsEngines.waitFor m t d).nests

theorem park (m : Machine) (t : Nat) (p : Park) : OnlyPushes t m (m.park t p) :=
  (back m t (.ok .unit)).trans (stop (m.done t) t (.parked p))

theorem slots (m : Machine) (t : Nat) (l : Table Slot) : OnlyPushes t m { m with slots := l } :=
  .same rfl fun _ => rfl

theorem join (m : Machine) (t u : Nat) : OnlyPushes t m (m.join t u) :=
  .same (part_join Thread.stack (fun _ _ => rfl) m t u t) (part_join Thread.nests (fun _ _ => rfl) m t u)

theorem news (m : Machine) (t d : Nat) (f : Drain → Drain) :
    OnlyPushes t m ((m.modifyDrain d f).notify d) :=
  .same (part_notify Thread.stack (fun _ _ => rfl) _ d t) (part_notify Thread.nests (fun _ _ => rfl) _ d)

theorem plainMove (h : PlainMove t m m') (hl : m.isLive t = true) : OnlyPushes t m m' := by
  have hnests : ∀ u, m'.nests u = m.nests u := by
    have hpush (n : Machine) (f : Frame) (hn : n.threads = m.threads) (u : Nat) :
        (n.push t f).nests u = m.nests u :=
      (part_modifyThread Thread.nests n t u (f := fun x => { x with stack := f :: x.stack })
        fun _ => rfl).trans (congrArg (fun ts : Table Thread => (ts.get u).nests) hn)
    cases h with
    | keepsNests h => exact h.nests
    | push f hf => exact hpush m f rfl
    | next f op hf hb =>
      exact ((push (f := f) m t (by cases f <;> first | rfl | cases hf)).trans (eval ..)).nests
    | count | clone | dropTask => exact fun _ => rfl
    | request d hd | complete d n hd => exact (news m t d _).nests
    | enqueue e k c hp =>
      let n := if c.holdsHandle then m.retain e else m
      have hn (u : Nat) : n.nests u = m.nests u := by
        simp only [n]
        split <;> rfl
      exact fun u => ((news ((n.modifyEngine e fun x => x.setQueue k (x.queue k ++ [c])).mark t e k
        (.queued c)) t _ _).nests u).trans (hn u)
    | visit e hp => exact hpush (m.retain e) _ rfl
    | loop d ticket => exact hpush m _ rfl
    | detach e k => exact hpush (m.modifyEngine e fun x => x.setQueue k []) _ rfl
    | spawnTask name passes =>
      exact part_spawnDrain Thread.nests m .bare name { work := .scripted passes, holders := 1 } rfl
  cases h.own hl with
  | same hs _ => exact .same hs hnests
  | push f hf hs _ =>
    refine .cons ?_ hs hnests
    rcases hf with hf | ⟨e, rfl⟩ | ⟨d, i, rfl⟩ | ⟨e, k, cs, rfl⟩
    · cases f <;> first | rfl | exact hf.elim
    all_goals rfl
  | next f op hf _ hs _ =>
    refine .cons ?_ hs hnests
    cases f <;> first | rfl | cases hf

theorem plainMoves (h : PlainMoves t m m') (hl : m.isLive t = true) : OnlyPushes t m m' := by
  induction h with
  | refl => exact .refl t m
  | tail hcs hc ih => exact ih.trans (.plainMove hc (PlainMoves.thread hcs hl).1)

theorem shutdown (m : Machine) (t : Nat) (ds : List Nat) (saved : Outcome) :
    OnlyPushes t m (m.shutdown t ds saved) := by
  cases ds with
  | nil => exact .back ..
  | cons d ds =>
    have hc := news m t d fun x => { x with tickets := x.tickets.close }
    unfold Machine.shutdown
    dsimp only
    split
    · exact hc.trans ((push _ t (f := .shutdown ds saved) rfl).trans (.back ..))
    · exact hc.trans ((push _ t (f := .joined d ds saved) rfl).trans ((back ..).trans (.join ..)))

theorem keepsNests (h : KeepsNests t m m') : OnlyPushes t m m' := .same (h.toKeepsStacks.stack t) h.nests

theorem resumeJoined (m : Machine) (t d : Nat) (ds : List Nat) (saved : Outcome) :
    OnlyPushes t m (m.resumeJoined t d ds saved) := by
  obtain ⟨n, hq, heq⟩ := resumeJoined_eq m t d ds saved
  rw [heq]
  exact (keepsNests hq).trans ((push _ t (f := .shutdown ds saved) rfl).trans (.back ..))

theorem releaseHandle (m : Machine) (t e : Nat) (o : Outcome) : OnlyPushes t m (m.releaseHandle t e o) := by
  have hn : OnlyPushes t m (m.modifyEngine e fun x => { x with handles := (m.engine e).handles - 1 }) :=
    .same rfl fun _ => rfl
  unfold Machine.releaseHandle
  dsimp only
  split
  · exact hn.trans ((emit ..).trans (.shutdown ..))
  · exact hn.trans (.back ..)

theorem batchMoves (h : BatchMoves t m m') : OnlyPushes t m m' := by
  obtain ⟨fs, hs, hfs⟩ := h.stack
  refine ⟨⟨fs, hs, fun f hmem => ?_⟩, h.nests⟩
  have hf := hfs f hmem
  cases f <;> first | rfl | cases hf

theorem startEngine (m : Machine) (hl : m.isLive t = true) (slot : Option Nat) (c : Config)
    (p : Access) : OnlyPushes t m (m.startEngine slot c p).2 :=
  .same (congrArg Thread.stack (thread_startEngine (lt_size_of_isLive hl) slot c p))
    (part_startEngine Thread.nests (fun _ _ _ => rfl) m slot c p)

end OnlyPushes

/-- What thread `t` does to its guards on engine `e` in a step that drops none. -/
inductive GuardEffect (t e : Nat) (m m' : Machine) : Prop
  | same (hd : ∀ u k, m'.readDepth u e k = m.readDepth u e k)
      (hs : m'.isLive t = true → guardsOn e (m'.thread t).stack = guardsOn e (m.thread t).stack)
  | created (k : Kind) (hl : m'.isLive t = true) (hd : Elsewhere t e k m m')
      (hs : guardsOn e (m'.thread t).stack = k :: guardsOn e (m.thread t).stack)
      (hk : if m.skips e then m'.readDepth t e k = m.readDepth t e k
        else m.readDepth t e k ≠ 0xFFFFFFFF ∧ m'.readDepth t e k = m.readDepth t e k + 1)
  | panicked (k : Kind) (hp : (t, .lockPanicked) ∈ m'.history e k)

theorem OnlyPushes.guardsOn (h : OnlyPushes t m m') (e : Nat) :
    guardsOn e (m'.thread t).stack = guardsOn e (m.thread t).stack := by
  obtain ⟨fs, hs, hf⟩ := h.stack
  rw [hs, guardsOn_append, guardsOn_eq_nil hf, List.nil_append]

theorem OnlyPushes.readDepth (h : OnlyPushes t m m') (u e : Nat) (k : Kind) :
    m'.readDepth u e k = m.readDepth u e k := congrArg (Nests.depth · e k) (h.nests u)

theorem OnlyPushes.nestsUnique (h : OnlyPushes t m m') (hn : m.NestsUnique) : m'.NestsUnique := by
  intro u
  rw [h.nests]
  exact hn u

theorem OnlyPushes.guardEffect (h : OnlyPushes t m m') : GuardEffect t e m m' :=
  .same (fun u k => h.readDepth u e k) fun _ => h.guardsOn e

theorem lockPanicked_of_error {f : Fault} (hf : (m.readLock t e k).2 = .error f) :
    (t, .lockPanicked) ∈ (m.readLock t e k).1.history e k := by
  cases hs : m.skips e with
  | true =>
    rw [readLock_skips hs] at hf
    cases hf
  | false =>
    rw [readLock_eq hs] at hf ⊢
    unfold openSection at hf ⊢
    dsimp only at hf ⊢
    split at hf
    · exact history_mark_self ▸ List.mem_cons_self
    · rename_i hq
      rw [hq] at hf
      cases hf

theorem stack_readLock (m : Machine) (t e : Nat) (k : Kind) (u : Nat) :
    ((m.readLock t e k).1.thread u).stack = (m.thread u).stack := (KeepsStacks.readLock m t e k).stack u

theorem stack_readUnlock (m : Machine) (t e : Nat) (k : Kind) (u : Nat) :
    ((m.readUnlock t e k).1.thread u).stack = (m.thread u).stack := (KeepsStacks.readUnlock m t e k).stack u

theorem isLive_readLock (hl : m.isLive t = true) (e : Nat) (k : Kind) :
    (m.readLock t e k).1.isLive t = true :=
  (isLive_of_status ((KeepsStacks.readLock m t e k).status t)).trans hl

theorem isLive_readUnlock (hl : m.isLive t = true) (e : Nat) (k : Kind) :
    (m.readUnlock t e k).1.isLive t = true :=
  (isLive_of_status ((KeepsStacks.readUnlock m t e k).status t)).trans hl

theorem GuardEffect.endThread (h : OnlyPushes t m m') (p : Option Payload) :
    GuardEffect t e m (m'.endThread t p) := by
  refine .same (fun u k => ?_) fun hl => ?_
  · exact (congrArg (Nests.depth · e k) ((KeepsEngines.endThread m' t p).nests u)).trans (h.readDepth u e k)
  · rw [isLive, status_endThread_self] at hl
    cases hl

theorem Elsewhere.resume_leave (hn : m.NestsUnique) (o : Outcome) :
    Elsewhere t e k m (m.resume t o (.leave e k)) := by
  have hu : Elsewhere t e k m (m.readUnlock t e k).1 := .readUnlock hn
  unfold Machine.resume
  dsimp only
  split <;> exact hu.trans (.of_nests fun u => part_modifyThread Thread.nests _ t u fun _ => rfl)

theorem stack_resume_leave (m : Machine) (t e : Nat) (k : Kind) (o : Outcome) :
    ((m.resume t o (.leave e k)).thread t).stack = (m.thread t).stack := (KeepsStacks.leave ..).stack t

theorem GuardEffect.of_elsewhere {e' : Nat} (hne : e' ≠ e) (hd : Elsewhere t e' k m m')
    (hs : guardsOn e (m'.thread t).stack = guardsOn e (m.thread t).stack) : GuardEffect t e m m' :=
  .same (fun u k' => hd u e k' fun h => hne h.2.1.symm) fun _ => hs

theorem GuardEffect.guard {e' : Nat} (h : PlainMoves t m n) (hl : m.isLive t = true) (hn : m.NestsUnique)
    (ho : (n.readLock t e' k).2 = .ok ())
    (h' : PlainMoves t ((n.readLock t e' k).1.push t (.leave e' k)) m')
    (hs : n.skips e' = m.skips e') : GuardEffect t e m m' := by
  have h₁ := OnlyPushes.plainMoves h hl
  have hn₁ := h₁.nestsUnique hn
  have hlp : ((n.readLock t e' k).1.push t (.leave e' k)).isLive t = true :=
    (isLive_of_status (status_push ..)).trans (isLive_readLock (PlainMoves.thread h hl).1 e' k)
  have h₂ := OnlyPushes.plainMoves h' hlp
  have hnests (u : Nat) : m'.nests u = (n.readLock t e' k).1.nests u :=
    (h₂.nests u).trans (part_modifyThread Thread.nests _ t u fun _ => rfl)
  have hd : Elsewhere t e' k m m' := (Elsewhere.of_nests h₁.nests).trans
    ((Elsewhere.readLock hn₁).trans (.of_nests hnests))
  have hstack : GracePeriod.guardsOn e (m'.thread t).stack =
      GracePeriod.guardsOn e (.leave e' k :: (n.thread t).stack) := by
    rw [h₂.guardsOn, stack_push, stack_readLock]
  by_cases hne : e' = e
  · subst hne
    refine .created k (PlainMoves.thread h' hlp).1 hd ?_ ?_
    · rw [hstack, guardsOn_leave, h₁.guardsOn]
    · have hdepth : m'.readDepth t e' k = (n.readLock t e' k).1.readDepth t e' k :=
        congrArg (Nests.depth · e' k) (hnests t)
      rw [hdepth, ← hs, ← h₁.readDepth]
      split
      · rename_i hskip
        rw [readLock_skips hskip]
        rfl
      · rename_i hskip
        exact readDepth_readLock hn₁ (Bool.eq_false_iff.2 hskip) ho
  · refine .of_elsewhere hne hd ?_
    rw [hstack, guardsOn_leave_ne hne, h₁.guardsOn]

theorem StepEffect.guardEffect (h : StepEffect top t m m') (htop : ∀ k, top ≠ some (.leave e k))
    (hn : m.NestsUnique) (hl : m.isLive t = true) (hr : ¬m.Raw t e) : GuardEffect t e m m' := by
  cases h with
  | plainMoves h => exact (OnlyPushes.plainMoves h hl).guardEffect
  | idle h hs => exact ((OnlyPushes.plainMoves h hl).trans (.stop ..)).guardEffect
  | park h p => exact ((OnlyPushes.plainMoves h hl).trans (.park ..)).guardEffect
  | await d ticket ht =>
    exact ((OnlyPushes.push m t (f := .await d ticket) rfl).trans (.waitFor ..)).guardEffect
  | @raw n₁ n₂ n' h e' k hr' hq h' =>
    have hne : e' ≠ e := by
      rintro rfl
      exact hr hr'
    have h₁ := OnlyPushes.plainMoves h hl
    have hn₁ := h₁.nestsUnique hn
    have hl₁ := (PlainMoves.thread h hl).1
    rcases hq with rfl | rfl
    · have h₂ := OnlyPushes.plainMoves h' (isLive_readLock hl₁ e' k)
      refine .of_elsewhere hne ((Elsewhere.of_nests h₁.nests).trans
        ((Elsewhere.readLock hn₁).trans (.of_nests h₂.nests))) ?_
      rw [h₂.guardsOn, stack_readLock, h₁.guardsOn]
    · have h₂ := OnlyPushes.plainMoves h' (isLive_readUnlock hl₁ e' k)
      refine .of_elsewhere hne ((Elsewhere.of_nests h₁.nests).trans
        ((Elsewhere.readUnlock hn₁).trans (.of_nests h₂.nests))) ?_
      rw [h₂.guardsOn, stack_readUnlock, h₁.guardsOn]
  | @refused n₁ h e' k f hf =>
    by_cases hne : e' = e
    · subst hne
      exact .panicked k (lockPanicked_of_error hf)
    · have h₁ := OnlyPushes.plainMoves h hl
      have h₂ : OnlyPushes t (n₁.readLock t e' k).1 ((n₁.readLock t e' k).1.fail t f) := .back ..
      refine .of_elsewhere hne ((Elsewhere.of_nests h₁.nests).trans
        ((Elsewhere.readLock (h₁.nestsUnique hn)).trans (.of_nests h₂.nests))) ?_
      rw [h₂.guardsOn, stack_readLock, h₁.guardsOn]
  | guard h e' k ho h' hs => exact .guard h hl hn ho h' hs
  | leave e' k o ht =>
    have hne : e' ≠ e := by
      rintro rfl
      exact htop k ht
    exact .of_elsewhere hne (.resume_leave hn o) (congrArg (GracePeriod.guardsOn e) (stack_resume_leave ..))
  | release e' o ht => exact (OnlyPushes.releaseHandle ..).guardEffect
  | dropHandle h slot e' n o hs hn' =>
    exact ((OnlyPushes.plainMoves h hl).trans
      ((OnlyPushes.slots _ t _).trans (.releaseHandle ..))).guardEffect
  | built h slot c p o hs h' =>
    have h₁ := (OnlyPushes.plainMoves h hl).trans (.startEngine _ (PlainMoves.thread h hl).1 (some slot) c p)
    exact ((h₁.trans (.keepsNests h')).trans ((OnlyPushes.slots _ t _).trans (.back ..))).guardEffect
  | builtDefault h c p o h' =>
    have h₁ := (OnlyPushes.plainMoves h hl).trans (.startEngine _ (PlainMoves.thread h hl).1 none c p)
    exact ((h₁.trans (.keepsNests h')).trans (.releaseHandle ..)).guardEffect
  | batch h e' k cs ht => exact ((OnlyPushes.keepsNests h).trans (.batchMoves (.runBatch ..))).guardEffect
  | discard e' k cs p ht => exact (OnlyPushes.batchMoves (.discardBatch ..)).guardEffect
  | rest h d ticket ht hd =>
    exact (((OnlyPushes.plainMoves h hl).trans (.push _ t (f := .worker d none) rfl)).trans
      (.waitFor ..)).guardEffect
  | retire h d ticket ht hd hc => exact .endThread (.plainMoves h hl) none
  | die d ticket p ht hc => exact .endThread (.refl t m) (some p)
  | releaseTask h d o hd => exact ((OnlyPushes.plainMoves h hl).trans (.shutdown ..)).guardEffect
  | shutdown ds saved ht => exact (OnlyPushes.shutdown ..).guardEffect
  | joined d ds saved ht => exact (OnlyPushes.resumeJoined ..).guardEffect

/-- Thread `t` is about to drop a guard of `k` on engine `e`, and to hand `o` on. -/
def Drops (m : Machine) (t e : Nat) (k : Kind) (o : Outcome) : Prop :=
  m.turn = some t ∧ (m.thread t).control = .back o ∧
    ∃ rest, (m.thread t).stack = .leave e k :: rest

theorem Starts.nests (h : Starts t m top n) (u : Nat) : n.nests u = m.nests u := by
  cases h with
  | same => rfl
  | pop hs => exact part_modifyThread Thread.nests m t u fun _ => rfl

theorem Starts.guardsOn (h : Starts t m top n) (htop : ∀ k, top ≠ some (.leave e k)) :
    guardsOn e (n.thread t).stack = guardsOn e (m.thread t).stack := by
  cases h with
  | same => rfl
  | @pop f rest hs =>
    have hf : f.guardOn e = none := by
      cases hf : f.guardOn e with
      | none => rfl
      | some k => exact absurd (congrArg some (guardOn_eq_some.1 hf)) (htop k)
    rw [stack_pop, hs, guardsOn_cons hf]

theorem Starts.skips (h : Starts t m top n) : n.skips e = m.skips e := by
  cases h <;> rfl

theorem Starts.not_raw (h : Starts t m top n) (hc : StepStart m t top) (hr : ¬m.Raw t e) : ¬n.Raw t e := by
  cases h with
  | same => exact hr
  | pop hs =>
    rintro ⟨held, slot, c, hev, -⟩
    obtain ⟨o, hback⟩ := hc.back nofun
    rw [thread_modifyThread_self, hback] at hev
    cases hev

theorem Starts.readDepth (h : Starts t m top n) (u e : Nat) (k : Kind) :
    n.readDepth u e k = m.readDepth u e k := congrArg (Nests.depth · e k) (h.nests u)

theorem Reachable.guardEffect (h : Reachable m) (ht : m.turn = some t) (hr : ¬m.Raw t e)
    (hdrop : ∀ k o, ¬m.Drops t e k o) : GuardEffect t e m (m.advance t) := by
  obtain ⟨top, n, hn, hc, he⟩ := h.stepEffect ht
  have hl := isLive_of_active (h.visited.orderly.turn t ht).1
  have htop (k : Kind) : top ≠ some (.leave e k) := by
    rintro rfl
    obtain ⟨o, hback⟩ := hc.back nofun
    cases hn with
    | pop hs => exact hdrop k o ⟨ht, hback, _, hs⟩
  have hdepth (u : Nat) (k : Kind) : n.readDepth u e k = m.readDepth u e k :=
    congrArg (Nests.depth · e k) (hn.nests u)
  have hunique : n.NestsUnique := fun u => hn.nests u ▸ h.visited.nestsUnique u
  have hlive : n.isLive t = true := (isLive_of_status (hn.status t)).trans hl
  have hstack := hn.guardsOn htop
  cases he.guardEffect htop hunique hlive (hn.not_raw hc hr) with
  | same hd hs => exact .same (fun u k => (hd u k).trans (hdepth u k)) fun hl => (hs hl).trans hstack
  | created k hl hd hs hk =>
    refine .created k hl ((Elsewhere.of_nests hn.nests).trans hd) (hs.trans (congrArg _ hstack)) ?_
    rwa [hn.skips, hdepth] at hk
  | panicked k hp => exact .panicked k hp

theorem resume_leave_ok (h : (m.readUnlock t e k).2 = .ok ()) (o : Outcome) :
    m.resume t o (.leave e k) = (m.readUnlock t e k).1.back t o := by
  unfold Machine.resume
  dsimp only
  rw [h]

theorem resume_leave_error {f : Fault} (h : (m.readUnlock t e k).2 = .error f) (o : Outcome) :
    m.resume t o (.leave e k) = (m.readUnlock t e k).1.fail t f := by
  unfold Machine.resume
  dsimp only
  rw [h]

theorem readDepth_resume_leave (m : Machine) (t e : Nat) (k : Kind) (o : Outcome) (u : Nat) (k' : Kind) :
    (m.resume t o (.leave e k)).readDepth u e k' = (m.readUnlock t e k).1.readDepth u e k' := by
  unfold Machine.resume
  dsimp only
  split <;> exact congrArg (Nests.depth · e k') (part_modifyThread Thread.nests _ t u fun _ => rfl)

theorem isLive_resume_leave (hl : m.isLive t = true) (e : Nat) (k : Kind) (o : Outcome) :
    (m.resume t o (.leave e k)).isLive t = true := by
  have hu := isLive_readUnlock hl e k
  unfold Machine.resume
  dsimp only
  split <;> exact (isLive_of_status (status_back ..)).trans hu

namespace Drops

theorem starts (h : m.Drops t e k o) :
    ∃ n, Starts t m (some (.leave e k)) n ∧ m.advance t = n.resume t o (.leave e k) := by
  obtain ⟨-, hc, rest, hs⟩ := h
  refine ⟨_, .pop hs, ?_⟩
  rw [Machine.advance, hc, hs]

theorem skipped (h : m.Drops t e k o) (hs : m.skips e = true) :
    (∀ u k', (m.advance t).readDepth u e k' = m.readDepth u e k') ∧
      ((m.advance t).thread t).control = .back o := by
  obtain ⟨n, hn, ha⟩ := h.starts
  have hu : n.readUnlock t e k = (n.mark t e k .skipped, .ok ()) :=
    readUnlock_skips (hn.skips.trans hs)
  refine ⟨fun u k' => ?_, ?_⟩
  · rw [ha, readDepth_resume_leave, hu]
    exact hn.readDepth u e k'
  · rw [ha, resume_leave_ok (congrArg Prod.snd hu)]
    exact control_back ..

theorem outside (h : m.Drops t e k o) (hr : Reachable m) (hs : m.skips e = false)
    (hd : m.readDepth t e k = 0) :
    (∀ u k', (m.advance t).readDepth u e k' = m.readDepth u e k') ∧
      ((m.advance t).thread t).control = .back (.error (.fault (.unlockOutside k))) := by
  obtain ⟨n, hn, ha⟩ := h.starts
  have hu : n.readUnlock t e k = (n, .error (.unlockOutside k)) :=
    readUnlock_outside (hn.skips.trans hs) ((hn.readDepth t e k).trans hd)
      (hn.visited h.1 hr.visited).2.nestsUnique
  refine ⟨fun u k' => ?_, ?_⟩
  · rw [ha, readDepth_resume_leave, hu]
    exact hn.readDepth u e k'
  · rw [ha, resume_leave_error (congrArg Prod.snd hu)]
    exact control_back ..

theorem inside (h : m.Drops t e k o) (hr : Reachable m) (hp : (m.history e k).NoneStranded)
    (hs : m.skips e = false) (hd : m.readDepth t e k ≠ 0) :
    Elsewhere t e k m (m.advance t) ∧ (m.advance t).readDepth t e k = m.readDepth t e k - 1 := by
  obtain ⟨n, hn, ha⟩ := h.starts
  have hv := (hn.visited h.1 hr.visited).2
  have hh : n.history e k = m.history e k := by
    cases hn with
    | pop _ => rfl
  have hacc := hv.accounts (hh ▸ hp)
  have hdn : n.readDepth t e k ≠ 0 := by
    rw [hn.readDepth]
    exact hd
  refine ⟨?_, ?_⟩
  · rw [ha]
    exact (Elsewhere.of_nests hn.nests).trans (.resume_leave hv.nestsUnique o)
  · rw [ha, readDepth_resume_leave, (readUnlock_effect hv.nestsUnique hacc (hn.skips.trans hs)).1 hdn,
      hn.readDepth]

end Drops

end Machine

end GracePeriod
