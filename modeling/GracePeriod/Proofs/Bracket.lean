import GracePeriod.Proofs.Misuse

namespace GracePeriod

def SchedulerCall.parks : SchedulerCall → Bool
  | yield | pause _ => true
  | _ => false

def HandleCall.looks : HandleCall → Bool
  | isRegistered .. | activeReaders .. | readDepth _ | currentEpoch _ | pending _ | numWorkers | srcuDepth =>
    true
  | _ => false

mutual

/-- A tree of guards, with parks, panics and looks in their bodies. -/
def Op.bracketed : Op → Bool
  | .guard _ _ _ _ body => Op.allBracketed body
  | .engineScheduler _ c | .scheduler _ c => c.parks
  | .handle _ c => c.looks
  | .panic _ | .gate => true
  | _ => false

def Op.allBracketed : List Op → Bool
  | [] => true
  | op :: rest => op.bracketed && Op.allBracketed rest

end

namespace Frame

/-- The frame belongs to such a tree, or to the end of an engine whose last handle is given up in it. -/
def bracketed : Frame → Bool
  | .attempt | .release _ | .leave .. | .wake .. | .shutdown .. | .joined .. => true
  | .guardBody _ _ _ rest => Op.allBracketed rest
  | _ => false

def guard? : Frame → Option (Nat × Kind)
  | .leave e k => some (e, k)
  | _ => none

end Frame

/-- The guards that the frames drop, innermost first. -/
def openGuards (fs : List Frame) : List (Nat × Kind) := fs.filterMap Frame.guard?

theorem openGuards_append (fs gs : List Frame) : openGuards (fs ++ gs) = openGuards fs ++ openGuards gs :=
  List.filterMap_append

namespace Machine

variable {m m₀ m' n : Machine} {t u e s : Nat} {k : Kind} {o : Outcome} {f : Frame}
  {base fs gs : List Frame} {x : Task} {held : Option Nat} {op : Op} {ls : List (Machine × Machine)}

/-- Thread `t` has the frames `fs` of a tree of guards above `base`. -/
structure AtGuards (t : Nat) (fs base : List Frame) (m : Machine) : Prop where
  stack : (m.thread t).stack = fs ++ base
  frames : ∀ f ∈ fs, f.bracketed = true
  control : (∃ o, (m.thread t).control = .back o) ∨
    fs ≠ [] ∧ ∃ held op, (m.thread t).control = .eval held op ∧ op.bracketed = true

namespace AtGuards

theorem append (h : AtGuards t gs (fs ++ base) m) (hf : ∀ f ∈ fs, f.bracketed = true) :
    AtGuards t (gs ++ fs) base m where
  stack := h.stack.trans (List.append_assoc ..).symm
  frames f hmem := (List.mem_append.1 hmem).elim (h.frames f) (hf f)
  control := h.control.imp_right fun ⟨hne, hc⟩ => ⟨List.append_ne_nil_of_left_ne_nil hne fs, hc⟩

theorem push (h : AtGuards t gs (f :: base) m) (hf : f.bracketed = true) : AtGuards t (gs ++ [f]) base m :=
  append (show AtGuards t gs ([f] ++ base) m from h) fun _ hmem => List.mem_singleton.1 hmem ▸ hf

theorem back (hs : (n.thread t).stack = base) (o : Outcome) : AtGuards t [] base (n.back t o) where
  stack := (stack_back ..).trans hs
  frames := nofun
  control := .inl ⟨o, control_back ..⟩

theorem ne_nil (h : AtGuards t fs base m) (ha : above t base m = true) : fs ≠ [] := by
  rintro rfl
  simp [above, h.stack] at ha

theorem of_parts (h : AtGuards t fs base n)
    (hp : ∀ (β : Type) (p : Thread → β), (∀ x s, p { x with status := s } = p x) →
      p (m.thread t) = p (n.thread t)) : AtGuards t fs base m where
  stack := (hp _ Thread.stack fun _ _ => rfl).trans h.stack
  frames := h.frames
  control := by
    rw [hp _ Thread.control fun _ _ => rfl]
    exact h.control

end AtGuards

/-- Thread `t` has kept its pins, and has come to have no further guards above `base`. -/
def NoNewGuards (t : Nat) (m₀ : Machine) (base : List Frame) (m : Machine) : Prop :=
  (∀ s, KeepsPins true t s m₀ m) ∧ ∃ fs, openGuards fs = [] ∧ AtGuards t fs base m

namespace NoNewGuards

theorem back (hd : ∀ s, KeepsPins true t s m₀ n) (hs : (n.thread t).stack = base) (o : Outcome) :
    NoNewGuards t m₀ base (n.back t o) := ⟨fun s => (hd s).back o, [], rfl, .back hs o⟩

theorem answer {α : Type} (hd : ∀ s, KeepsPins true t s m₀ n) (hs : (n.thread t).stack = base)
    (g : α → Result) (r : Except Fault α) : NoNewGuards t m₀ base (n.answer t g r) := by
  cases r <;> exact back hd hs _

theorem push (h : NoNewGuards t m₀ (f :: base) m) (hf : f.bracketed = true) (hg : f.guard? = none) :
    NoNewGuards t m₀ base m := by
  obtain ⟨hd, fs, hfs, hp⟩ := h
  refine ⟨hd, fs ++ [f], ?_, hp.push hf⟩
  rw [openGuards_append, hfs]
  exact List.filterMap_cons_none hg

theorem stop (h : NoNewGuards t m₀ base m) (q : Status) : NoNewGuards t m₀ base (m.stop t q) := by
  obtain ⟨hd, fs, hfs, hp⟩ := h
  exact ⟨fun s => (hd s).still (.stop ..), fs, hfs,
    hp.of_parts fun _ p hs => part_modifyThread p m t t fun x => hs x q⟩

theorem join (h : NoNewGuards t m₀ base m) (u : Nat) : NoNewGuards t m₀ base (m.join t u) := by
  obtain ⟨hd, fs, hfs, hp⟩ := h
  exact ⟨fun s => (hd s).still (.join ..), fs, hfs, hp.of_parts fun _ p hs => part_join p hs m t u t⟩

theorem park (hd : ∀ s, KeepsPins true t s m₀ n) (hs : (n.thread t).stack = base) (p : Park) :
    NoNewGuards t m₀ base (n.park t p) := (back hd hs (.ok .unit)).stop (.parked p)

theorem callScheduler (hd : ∀ s, KeepsPins true t s m₀ n) (hs : (n.thread t).stack = base) (p : Access)
    {c : SchedulerCall} (hc : c.parks = true) : NoNewGuards t m₀ base (n.callScheduler t p c) := by
  cases c with
  | yield =>
    show NoNewGuards t m₀ base (n.yield t p)
    unfold Machine.yield
    split
    · exact park (fun s => (hd s).emit _) hs _
    · exact back hd hs _
  | pause micros =>
    show NoNewGuards t m₀ base (n.pause t p micros)
    unfold Machine.pause
    split
    · let q := (n.emit t (.pause micros)).changeTask t p.scheduler fun x => { x with paused := true }
      have hq (s : Nat) : KeepsPins true t s m₀ q :=
        ((hd s).emit _).tail (.change _ _ _ (fun _ => rfl) fun _ _ => ⟨rfl, fun _ _ => rfl⟩)
      have hstack : (q.thread t).stack = base := ((Served.changeTask ..).stack t).trans hs
      refine push (f := .wake p.scheduler (q.taskId t p.scheduler))
        (park (fun s => (hq s).push rfl) ?_ _) rfl rfl
      rw [stack_push, hstack]
    · exact back (fun s => (hd s).sleep _) (((Served.sleep ..).stack t).trans hs) _
  | _ => cases hc

theorem shutdown (hd : ∀ s, KeepsPins true t s m₀ n) (hs : (n.thread t).stack = base) (ds : List Nat)
    (saved : Outcome) : NoNewGuards t m₀ base (n.shutdown t ds saved) := by
  cases ds with
  | nil => exact back hd hs saved
  | cons d ds =>
    let q := (n.modifyDrain d fun x => { x with tickets := x.tickets.close }).notify d
    have hq (s : Nat) : KeepsPins true t s m₀ q := ((hd s).modifyDrain d _).notify d
    have hstack : (q.thread t).stack = base :=
      (part_notify Thread.stack (fun _ _ => rfl) _ d t).trans hs
    have hpush (f : Frame) (hf : f.isGrace = false) (hb : f.bracketed = true) :
        NoNewGuards t m₀ (f :: base) ((q.push t f).done t) :=
      back (fun s => (hq s).push hf) (by rw [stack_push, hstack]) _
    unfold Machine.shutdown
    dsimp only
    split
    · exact (hpush (.shutdown ds saved) rfl rfl).push rfl rfl
    · exact ((hpush (.joined d ds saved) rfl rfl).join _).push rfl rfl

theorem releaseHandle (hd : ∀ s, KeepsPins true t s m₀ n) (hs : (n.thread t).stack = base) (e : Nat)
    (o : Outcome) : NoNewGuards t m₀ base (n.releaseHandle t e o) := by
  have hn (s : Nat) := (hd s).modifyEngine e (g := fun x => { x with handles := (n.engine e).handles - 1 })
    fun _ => ⟨rfl, rfl⟩
  unfold Machine.releaseHandle
  dsimp only
  split
  · exact shutdown (fun s => (hn s).log _) hs _ o
  · exact back hn hs o

theorem resumeJoined (hd : ∀ s, KeepsPins true t s m₀ n) (hs : (n.thread t).stack = base) (d : Nat)
    (ds : List Nat) (saved : Outcome) : NoNewGuards t m₀ base (n.resumeJoined t d ds saved) := by
  obtain ⟨q, hq, heq⟩ := resumeJoined_eq n t d ds saved
  have hdeals (s : Nat) : KeepsPins true t s m₀ (n.resumeJoined t d ds saved) :=
    (hd s).resumeJoined d ds saved
  have hstack : ((q.push t (.shutdown ds saved)).thread t).stack = .shutdown ds saved :: base := by
    rw [stack_push, hq.toKeepsStacks.stack, hs]
  refine push (f := .shutdown ds saved) ⟨hdeals, [], rfl, ?_⟩ rfl rfl
  rw [heq]
  exact .back hstack _

theorem runGuardBody (hd : ∀ s, KeepsPins true t s m₀ n) (hs : (n.thread t).stack = base)
    (held : Option Nat) (k : Kind) (done : List Result) {ops : List Op}
    (ho : Op.allBracketed ops = true) : NoNewGuards t m₀ base (n.runGuardBody t held k done ops) := by
  cases ops with
  | nil => exact back hd hs _
  | cons op rest =>
    obtain ⟨hop, hrest⟩ := Bool.and_eq_true_iff.1 ho
    refine ⟨fun s => ((hd s).push (f := .guardBody held k done rest) rfl).still (.eval ..),
      [.guardBody held k done rest], rfl, ?_, ?_, ?_⟩
    · exact (Orderly.stack_setControl ..).trans ((stack_push ..).trans (congrArg _ hs))
    · rintro f hf
      rw [List.mem_singleton.1 hf]
      exact hrest
    · exact .inr ⟨List.cons_ne_nil _ _, held, op,
        congrArg Thread.control (thread_modifyThread_self ..), hop⟩

end NoNewGuards

/-- What a step does to the guards of thread `t` above `base`, which were those of `fs`. -/
inductive GuardStep (t : Nat) (fs base : List Frame) (m m' : Machine) : Prop
  | creates (e : Nat) (k : Kind) (gs : List Frame) (hl : m.locks? t = some (e, k))
      (hg : openGuards gs = (e, k) :: openGuards fs) (hp : AtGuards t gs base m')
  | drops (e : Nat) (k : Kind) (gs : List Frame) (hu : m.unlocks? t = some (e, k))
      (hg : openGuards fs = (e, k) :: openGuards gs) (hp : AtGuards t gs base m')
  | deals (gs : List Frame) (hd : ∀ s, KeepsPins true t s m m') (hg : openGuards gs = openGuards fs)
      (hp : AtGuards t gs base m')

theorem NoNewGuards.guardStep (h : NoNewGuards t m (gs ++ base) m') (hf : ∀ f ∈ gs, f.bracketed = true)
    (hg : openGuards gs = openGuards fs) : GuardStep t fs base m m' := by
  obtain ⟨hd, hs, hhs, hp⟩ := h
  refine .deals (hs ++ gs) hd ?_ (hp.append hf)
  rw [openGuards_append, hhs, hg]
  rfl

theorem visit_keepsPins (hd : ∀ s, KeepsPins true t s m₀ n) (e s : Nat) :
    KeepsPins true t s m₀ ((n.retain e).push t (.release e)) :=
  ((hd s).modifyEngine e (g := fun x => { x with handles := (n.engine e).handles + 1 })
    fun _ => ⟨rfl, rfl⟩).push rfl

theorem NoNewGuards.withEngine (hd : ∀ s, KeepsPins true t s m₀ n) (hs : (n.thread t).stack = base)
    (held : Option Nat) (slot : Nat) {g : Machine → Nat → Machine}
    (hg : ∀ e q, (∀ s, KeepsPins true t s m₀ q) → (q.thread t).stack = .release e :: base →
      NoNewGuards t m₀ (.release e :: base) (g q e)) :
        NoNewGuards t m₀ base (n.withEngine t held slot g) := by
  cases hr : n.resolve held slot with
  | none =>
    rw [Machine.withEngine, hr]
    exact back hd hs _
  | some e =>
    rw [withEngine_of_resolve hr]
    refine push (f := .release e) (hg e _ (visit_keepsPins hd e) ?_) rfl rfl
    rw [stack_push]
    exact congrArg _ hs

theorem NoNewGuards.callHandle (hd : ∀ s, KeepsPins true t s m₀ n) (hs : (n.thread t).stack = base) (e : Nat)
    {c : HandleCall} (hc : c.looks = true) : NoNewGuards t m₀ base (n.callHandle t e c) := by
  cases c with
  | isRegistered k w | activeReaders k w => exact answer hd hs _ _
  | readDepth k | currentEpoch k | pending k | numWorkers | srcuDepth => exact back hd hs _
  | _ => cases hc

theorem startGuard_atGuards (hs : (n.thread t).stack = base) {body : List Op} (held : Option Nat)
    (hb : Op.allBracketed body = true) (hp : (n.startGuard t e held k body).LocksReturned) :
    ∃ gs, openGuards gs = [(e, k)] ∧ AtGuards t gs base (n.startGuard t e held k body) := by
  cases ho : (n.readLock t e k).2 with
  | error f =>
    have heq : n.startGuard t e held k body = (n.readLock t e k).1.fail t f := by
      simp only [startGuard, ho]
    rw [heq] at hp
    exact absurd (lockPanicked_of_error ho) (hp t e k)
  | ok =>
    let q := (n.readLock t e k).1.push t (.leave e k)
    have heq : n.startGuard t e held k body = q.runGuardBody t held k [] body := by
      simp only [startGuard, ho]
      rfl
    have hstack : (q.thread t).stack = .leave e k :: base := by
      rw [stack_push, stack_readLock, hs]
    obtain ⟨-, gs, hg, hat⟩ := NoNewGuards.runGuardBody (fun _ => .refl) hstack held k [] hb
    rw [heq]
    refine ⟨gs ++ [.leave e k], ?_, hat.push rfl⟩
    rw [openGuards_append, hg]
    rfl

theorem startOp_atGuards (hd : ∀ s, KeepsPins true t s m₀ n) (hs : (n.thread t).stack = base)
    (held : Option Nat) (ho : op.bracketed = true) (hp : (n.startOp t held op).LocksReturned) :
    NoNewGuards t m₀ base (n.startOp t held op) ∨ ∃ e k gs, n.opLocks? held op = some (e, k) ∧
      openGuards gs = [(e, k)] ∧ AtGuards t gs base (n.startOp t held op) := by
  cases op with
  | guard slot srcu k caught body =>
    cases hr : n.resolve held slot with
    | none =>
      rw [startOp, withEngine, hr]
      exact .inl (.back hd hs _)
    | some e =>
      rw [startOp, withEngine_of_resolve hr] at hp ⊢
      have hstack : (((n.retain e).push t (.release e)).thread t).stack = .release e :: base :=
        (stack_push ..).trans (congrArg _ hs)
      obtain ⟨gs, hg, hat⟩ := startGuard_atGuards hstack held ho hp
      refine .inr ⟨e, k, gs ++ [.release e], congrArg (Option.map (·, k)) hr, ?_, hat.push rfl⟩
      rw [openGuards_append, hg]
      rfl
  | engineScheduler slot c =>
    exact .inl (.withEngine hd hs held slot fun e q hq hqs => .callScheduler hq hqs _ ho)
  | handle slot c => exact .inl (.withEngine hd hs held slot fun e q hq hqs => .callHandle hq hqs e ho)
  | scheduler c l =>
    refine .inl ?_
    unfold startOp withScheduler
    dsimp only
    split
    · exact .callScheduler hd hs _ ho
    · exact .back hd hs _
  | panic q => exact .inl (.back hd hs _)
  | gate => exact .inl (.park hd hs _)
  | _ => cases ho

theorem eval_guardStep (hs : (m.thread t).stack = fs ++ base) (hf : ∀ f ∈ fs, f.bracketed = true)
    (hc : (m.thread t).control = .eval held op) (ho : op.bracketed = true)
    (hp : (m.advance t).LocksReturned) : GuardStep t fs base m (m.advance t) := by
  obtain ⟨n, gs, heq, hn, hsight, hstack, hg, hgs⟩ : ∃ n gs, m.start t held op = n.startOp t held op ∧
      (∀ s, KeepsPins true t s m n) ∧ SameSight t m n ∧ (n.thread t).stack = gs ++ (m.thread t).stack ∧
        openGuards gs = [] ∧ ∀ f ∈ gs, f.bracketed = true := by
    unfold start
    split
    · exact ⟨m.push t .attempt, [.attempt], rfl, fun s => KeepsPins.push .refl rfl,
        ⟨rfl, rfl, rfl, part_modifyThread Thread.nests m t t fun _ => rfl⟩, stack_push .., rfl,
        fun f hmem => List.mem_singleton.1 hmem ▸ rfl⟩
    · exact ⟨m, [], rfl, fun s => .refl, ⟨rfl, rfl, rfl, rfl⟩, rfl, rfl, nofun⟩
  rw [hs, ← List.append_assoc] at hstack
  have hall (f : Frame) (hmem : f ∈ gs ++ fs) : f.bracketed = true :=
    (List.mem_append.1 hmem).elim (hgs f) (hf f)
  have hguards : openGuards (gs ++ fs) = openGuards fs := by
    rw [openGuards_append, hg]
    rfl
  rw [advance_eval hc, heq] at hp ⊢
  rcases startOp_atGuards hn hstack held ho hp with h | ⟨e, k, hs, hl, hhs, hat⟩
  · exact h.guardStep hall hguards
  · refine .creates e k (hs ++ (gs ++ fs)) ?_ ?_ (hat.append hall)
    · rw [locks?, hc]
      exact (hsight.opLocks? held op).symm.trans hl
    · rw [openGuards_append, hhs, hguards]
      rfl

theorem back_guardStep (hs : (m.thread t).stack = f :: (fs ++ base))
    (hf : ∀ g ∈ f :: fs, g.bracketed = true) (hc : (m.thread t).control = .back o) :
    GuardStep t (f :: fs) base m (m.advance t) := by
  let n := m.modifyThread t fun x => { x with stack := fs ++ base }
  have hd (s : Nat) : KeepsPins true t s m n := .single (.still (.pop hs))
  have hstack : (n.thread t).stack = fs ++ base := stack_pop ..
  have hfs (g : Frame) (hmem : g ∈ fs) := hf g (List.mem_cons_of_mem f hmem)
  have hnew (h : NoNewGuards t m (fs ++ base) (n.resume t o f)) (hg : f.guard? = none) :
      GuardStep t (f :: fs) base m (n.resume t o f) :=
    h.guardStep hfs (List.filterMap_cons_none hg).symm
  rw [advance_back hc hs]
  have hbr := hf f List.mem_cons_self
  cases f with
  | leave e k =>
    refine .drops e k fs ?_ rfl ⟨(stack_resume_leave ..).trans hstack, hfs, .inl ?_⟩
    · rw [unlocks?, hc, hs]
    · cases hu : (n.readUnlock t e k).2 with
      | error g =>
        rw [resume_leave_error hu o]
        exact ⟨_, control_back ..⟩
      | ok =>
        rw [resume_leave_ok hu o]
        exact ⟨o, control_back ..⟩
  | attempt => cases o <;> exact hnew (.back hd hstack _) rfl
  | release e => exact hnew (.releaseHandle hd hstack e o) rfl
  | wake s id => exact hnew (.back (fun c => (hd c).tail (.endPause n s id)) hstack o) rfl
  | shutdown ds saved => exact hnew (.shutdown hd hstack ds saved) rfl
  | joined d ds saved => exact hnew (.resumeJoined hd hstack d ds saved) rfl
  | guardBody held k done rest =>
    cases o with
    | error p => exact hnew (.back hd hstack _) rfl
    | ok r => exact hnew (.runGuardBody hd hstack held k _ hbr) rfl
  | _ => cases hbr

theorem AtGuards.guardStep (h : AtGuards t fs base m) (hne : fs ≠ []) (hp : (m.advance t).LocksReturned) :
    GuardStep t fs base m (m.advance t) := by
  rcases h.control with ⟨o, hc⟩ | ⟨-, held, op, hc, ho⟩
  · obtain ⟨f, gs, rfl⟩ := List.exists_cons_of_ne_nil hne
    exact back_guardStep h.stack h.frames hc
  · exact eval_guardStep h.stack h.frames hc ho hp

theorem Visited.seen (h : Visited m) (t s : Nat) : ∃ x, Sees m t s x := by
  cases ht : m.task? t s with
  | none => exact ⟨{ worker := 0 }, .fresh ht (h.tasked.wellFormed s) rfl⟩
  | some i =>
    obtain ⟨j, hj⟩ := h.stands t s
    rw [enroll_of_task? ht] at hj
    exact ⟨_, .task j hj⟩

theorem sees_readLock (h : Sees m t s x) (hs : m.skips e = false) : ∃ y,
    Sees (m.readLock t e k).1 t s y ∧
      y.pinDepth = x.pinDepth + if (m.engine e).access.scheduler = s then 1 else 0 := by
  have hi : Inside t (m.pin t (m.engine e).access) (m.readLock t e k).1 := readLock_eq hs ▸ .openSection ..
  have hrec := sees_record h (m.engine e).access .pin
  split
  · rename_i hsch
    subst hsch
    obtain ⟨y, hy, hxy⟩ := hrec.changeTask (b := true) (f := Task.pin) fun _ => rfl
    exact ⟨y.pin, hi.sees hy, congrArg (· + 1) hxy.pinDepth⟩
  · rename_i hsch
    exact ⟨x, hi.sees (hrec.changeTask_ne hsch Task.pin), (UInt32.add_zero _).symm⟩

theorem sees_readUnlock (h : Sees m t s x) (hn : m.NestsUnique) (ha : Accounts m e k)
    (hs : m.skips e = false) (hd : m.readDepth t e k ≠ 0) : ∃ y, Sees (m.readUnlock t e k).1 t s y ∧
      x.pinDepth = y.pinDepth + if (m.engine e).access.scheduler = s then 1 else 0 := by
  have hi : Inside t m (m.closeSection t e k).1 := .closeSection ..
  have heq : (m.readUnlock t e k).1 = ((m.closeSection t e k).1.unpin t (m.engine e).access).1 := by
    simp only [readUnlock, hs, Bool.false_eq_true, if_false, closeSection_ok hn ha hd, hi.access e]
  have hrec := sees_record (hi.sees h) (m.engine e).access .unpin
  rw [heq]
  split
  · rename_i hsch
    subst hsch
    obtain ⟨y, hy, hxy⟩ := hrec.changeTask (b := true) (f := fun x => x.unpin.1) fun _ => rfl
    refine ⟨y.unpin.1, hy, ?_⟩
    rw [← hxy.pinDepth]
    exact (UInt32.sub_add_cancel ..).symm
  · rename_i hsch
    exact ⟨x, hrec.changeTask_ne hsch fun x => x.unpin.1, (UInt32.add_zero _).symm⟩

def guardsAt (m : Machine) (s : Nat) (gs : List (Nat × Kind)) : Nat :=
  gs.countP fun g => (m.engine g.1).access.scheduler = s

/-- Thread `t` is in the sections in which it was at `m₀`, and in one more for each of the guards `gs`. -/
structure GuardSections (t : Nat) (m₀ m : Machine) (gs : List (Nat × Kind)) : Prop where
  depth : ∀ e k, (m.readDepth t e k).toNat = (m₀.readDepth t e k).toNat + gs.count (e, k)
  place : ∀ e k, m₀.readDepth t e k ≠ 0 → m.place t e k = m₀.place t e k
  pins : ∀ s, ∃ x y, Sees m₀ t s x ∧ Sees m t s y ∧
    y.pinDepth = x.pinDepth + UInt32.ofNat (m.guardsAt s gs)
  tasks : ∀ s i, m₀.task? t s = some i → m.task? t s = some i

variable {g : Nat × Kind} {gs : List (Nat × Kind)}

theorem count_guards (e e' : Nat) (k k' : Kind) (gs : List (Nat × Kind)) :
    ((e, k) :: gs).count (e', k') = gs.count (e', k') + if e' = e ∧ k' = k then 1 else 0 := by
  have heq : (e, k) = (e', k') ↔ e' = e ∧ k' = k := by rw [Prod.mk.injEq, eq_comm, @eq_comm _ k]
  simp only [List.count_cons, beq_iff_eq, heq]

theorem ofNat_guardsAt_cons (m : Machine) (s e : Nat) (k : Kind) (gs : List (Nat × Kind)) :
    UInt32.ofNat (m.guardsAt s ((e, k) :: gs)) =
      UInt32.ofNat (m.guardsAt s gs) + if (m.engine e).access.scheduler = s then 1 else 0 := by
  simp only [guardsAt, List.countP_cons, decide_eq_true_eq, UInt32.ofNat_add]
  split <;> rfl

namespace GuardSections

theorem refl (hv : Visited m) : GuardSections t m m [] := by
  refine ⟨fun _ _ => rfl, fun _ _ _ => rfl, fun s => ?_, fun _ _ hi => hi⟩
  obtain ⟨x, hx⟩ := hv.seen t s
  exact ⟨x, x, hx, hx, (UInt32.add_zero _).symm⟩

theorem inside (h : GuardSections t m₀ m gs) (hg : g ∈ gs) : m.readDepth t g.1 g.2 ≠ 0 := by
  intro h0
  have hd := h.depth g.1 g.2
  have hpos : 0 < gs.count (g.1, g.2) := List.count_pos_iff.2 hg
  rw [h0, show (0 : UInt32).toNat = 0 from rfl] at hd
  omega

theorem guardsAt_eq (h : GuardSections t m₀ m gs) (hp : m.LocksReturned) (hv : Visited m)
    (ha : ∀ e < m.engines.size, (m'.engine e).access = (m.engine e).access) (s : Nat) :
    m'.guardsAt s gs = m.guardsAt s gs :=
  List.countP_congr fun g hg => by rw [ha g.1 (hp.lt_size hv (h.inside hg))]

theorem place_of (h : GuardSections t m₀ m gs)
    (hd : ∀ e k, (m₀.readDepth t e k).toNat ≤ (m'.readDepth t e k).toNat)
    (hp : ∀ e k w i, m'.place t e k = some (w, i) → m.place t e k = some (w, i) ∨ m.place t e k = none)
    (e : Nat) (k : Kind) (h₀ : m₀.readDepth t e k ≠ 0) : m'.place t e k = m₀.place t e k := by
  have hin : m'.readDepth t e k ≠ 0 := by
    intro h0
    have hle := hd e k
    rw [h0] at hle
    exact h₀ (UInt32.toNat_inj.1 (Nat.le_zero.1 hle))
  obtain ⟨⟨w, i⟩, hpl⟩ := Option.ne_none_iff_exists'.1 (mt readDepth_eq_zero.2 hin)
  rw [← h.place e k h₀, hpl]
  refine ((hp e k w i hpl).resolve_right fun hout => ?_).symm
  rw [h.place e k h₀] at hout
  exact h₀ (readDepth_eq_zero.2 hout)

theorem same (h : GuardSections t m₀ m gs) (hn : SameNests t m m') (hp : m.LocksReturned) (hv : Visited m)
    (hx : ∀ s x, Sees m t s x → ∃ y, Sees m' t s y ∧ y.pinDepth = x.pinDepth)
    (ht : ∀ s i, m.task? t s = some i → m'.task? t s = some i) : GuardSections t m₀ m' gs := by
  refine ⟨fun e k => ?_, fun e k hd => (hn.place e k).trans (h.place e k hd), fun s => ?_,
    fun s i hi => ht s i (h.tasks s i hi)⟩
  · rw [hn.readDepth, h.depth]
  · obtain ⟨x, y, hx₀, hsees, hpin⟩ := h.pins s
    obtain ⟨z, hz, hyz⟩ := hx s y hsees
    exact ⟨x, z, hx₀, hz, by rw [hyz, hpin, h.guardsAt_eq hp hv hn.access]⟩

theorem unasked (h : GuardSections t m₀ m gs) (hu : Unasked t m m') (hp : m.LocksReturned) (hv : Visited m) :
    GuardSections t m₀ m' gs :=
  h.same hu.sameNests hp hv (fun _ x hx => ⟨x, hx.of_eq hu.schedulers hu.tasks, rfl⟩)
    fun s _ hi => (task?_of_tasks hu.tasks s).trans hi

theorem keepsPins (h : GuardSections t m₀ m gs) (hd : ∀ s, KeepsPins true t s m m') (hp : m.LocksReturned)
    (hv : Visited m) : GuardSections t m₀ m' gs := by
  refine h.same (hd 0).sameNests hp hv (fun s x hx => ?_) fun _ _ hi => (hd 0).task? hi
  obtain ⟨y, hy, hxy⟩ := (hd s).sees hv.tasked.wellFormed hx
  exact ⟨y, hy, hxy.pinDepth⟩

theorem readLock (h : GuardSections t m₀ m gs) (hp : m.LocksReturned) (hv : Visited m)
    (hs : m.skips e = false)
    (ho : (m.readLock t e k).2 = .ok ()) (he : e < m.engines.size) :
    GuardSections t m₀ (m.readLock t e k).1 ((e, k) :: gs) := by
  have hdeep := deepens_readLock hv.nestsUnique hs ho
  have hdepth (e' : Nat) (k' : Kind) : ((m.readLock t e k).1.readDepth t e' k').toNat =
      (m₀.readDepth t e' k').toNat + ((e, k) :: gs).count (e', k') := by
    rw [count_guards, ← Nat.add_assoc, ← h.depth]
    split
    · rename_i hek
      rw [hek.1, hek.2, hdeep.depth]
    · rename_i hek
      rw [hdeep.elsewhere e' k' hek, Nat.add_zero]
  refine ⟨hdepth, h.place_of (fun e' k' => hdepth e' k' ▸ Nat.le_add_right ..) fun e' k' w i hpl => ?_,
    fun s => ?_, fun s i hi => (Moves.readLock m t e k).task? (h.tasks s i hi)⟩
  · refine (place_readLock hv.nestsUnique hs ho hpl).imp_right fun ⟨⟨he, hk⟩, hopen⟩ => ?_
    subst he hk
    exact ((Served.pin m t (m.engine e').access).still e' k').place t ▸ hopen.outside
  · obtain ⟨x, y, hx, hy, hpin⟩ := h.pins s
    obtain ⟨z, hz, hyz⟩ := sees_readLock (k := k) hy hs
    refine ⟨x, z, hx, hz, ?_⟩
    rw [hyz, hpin, ofNat_guardsAt_cons, h.guardsAt_eq hp hv hdeep.access, hdeep.access e he, UInt32.add_assoc]

theorem readUnlock (h : GuardSections t m₀ m ((e, k) :: gs)) (hp : m.LocksReturned) (hv : Visited m)
    (hs : m.skips e = false) : GuardSections t m₀ (m.readUnlock t e k).1 gs := by
  have hd : m.readDepth t e k ≠ 0 := h.inside List.mem_cons_self
  have ha := hp.accounts hv e k
  have hrise := rises_readUnlock (t := t) hv.nestsUnique ha hs hd
  have hdepth (e' : Nat) (k' : Kind) : ((m.readUnlock t e k).1.readDepth t e' k').toNat =
      (m₀.readDepth t e' k').toNat + gs.count (e', k') := by
    have hbefore := h.depth e' k'
    rw [count_guards, ← Nat.add_assoc] at hbefore
    split at hbefore
    · rename_i hek
      rw [hek.1, hek.2, ← hrise.depth] at hbefore
      rw [hek.1, hek.2]
      exact Nat.add_right_cancel hbefore
    · rename_i hek
      rw [hrise.elsewhere e' k' hek, hbefore, Nat.add_zero]
  refine ⟨hdepth, h.place_of (fun e' k' => hdepth e' k' ▸ Nat.le_add_right ..) fun e' k' w i hpl =>
    .inl (place_readUnlock hv.nestsUnique hpl), fun s => ?_, fun s i hi =>
    (Moves.readUnlock m t e k).task? (h.tasks s i hi)⟩
  obtain ⟨x, y, hx, hy, hpin⟩ := h.pins s
  obtain ⟨z, hz, hyz⟩ := sees_readUnlock (k := k) hy hv.nestsUnique ha hs hd
  refine ⟨x, z, hx, hz, ?_⟩
  rw [hyz, ← h.guardsAt_eq hp hv hrise.access, ofNat_guardsAt_cons, hrise.access e (hp.lt_size hv hd),
    ← UInt32.add_assoc] at hpin
  exact (UInt32.add_left_inj _).1 hpin

theorem other (h : GuardSections t m₀ m gs) (hr : Reachable m) (hb : m.BuildsIdle) (hu : m.turn = some u)
    (htu : t ≠ u) (hp : m.LocksReturned) : GuardSections t m₀ (m.advance u) gs :=
  h.same (.advance hb hu htu) hp hr.visited (fun _ x hx => ⟨x, hx.advance hr hb hu htu, rfl⟩)
    fun _ _ hi => (hr.advance_ignores hb hu htu).trans hi

end GuardSections

theorem GuardStep.guardSections (h : GuardStep t fs base m (m.advance t))
    (hx : GuardSections t m₀ m (openGuards fs))
    (hr : Reachable m) (hb : m.BuildsIdle) (ht : m.turn = some t) (hs : ∀ e, m.skips e = false)
    (hp : (m.advance t).LocksReturned) :
    ∃ gs, AtGuards t gs base (m.advance t) ∧ GuardSections t m₀ (m.advance t) (openGuards gs) := by
  have hpm := hp.before (advance_changes hb ht)
  cases h with
  | creates e k gs hl hg hat =>
    obtain ⟨n, hn⟩ := advance_locks hl
    obtain ⟨hvn, htn⟩ := hn.before.visited hr.visited ht
    have hmoves := Moves.readLock n t e k
    have hvn' := hvn.moves hmoves htn
    have hpn' := hp.before (hn.after.moves.changes hvn'.2).1
    have he := lt_size_of_locks? hr hl
    have hlock := (hx.unasked hn.before.toUnasked hpm hr.visited).readLock
      (hpn'.before (hmoves.changes htn).1) hvn ((hn.before.skips he).trans (hs e)) (hn.returned hp)
      (Nat.lt_of_lt_of_le he hn.before.engines_le)
    exact ⟨gs, hat, hg ▸ hlock.unasked hn.after.toUnasked hpn' hvn'.1⟩
  | drops e k gs hu hg hat =>
    rw [hg] at hx
    obtain ⟨n, hn⟩ := advance_unlocks hu
    obtain ⟨hvn, htn⟩ := hn.before.visited hr.visited ht
    have hmoves := Moves.readUnlock n t e k
    have hvn' := hvn.moves hmoves htn
    have hpn' := hp.before (hn.after.moves.changes hvn'.2).1
    have he := hpm.lt_size hr.visited (hx.inside List.mem_cons_self)
    have hunlock := (hx.unasked hn.before.toUnasked hpm hr.visited).readUnlock
      (hpn'.before (hmoves.changes htn).1) hvn ((hn.before.skips he).trans (hs e))
    exact ⟨gs, hat, hunlock.unasked hn.after.toUnasked hpn' hvn'.1⟩
  | deals gs hd hg hat => exact ⟨gs, hat, hg ▸ hx.keepsPins hd hpm hr.visited⟩

theorem AtGuards.external (h : AtGuards t fs base m) (hne : fs ≠ []) (he : External m m') (hv : Visited m)
    (hp : m.LocksReturned) (hx : GuardSections t m₀ m (openGuards fs)) :
    AtGuards t fs base m' ∧ GuardSections t m₀ m' (openGuards fs) := by
  have hstack {n : Machine} (hs : (n.thread t).stack = fs ++ base) : (n.thread t).stack ≠ [] :=
    hs ▸ List.append_ne_nil_of_left_ne_nil hne base
  obtain ⟨hs, hc⟩ := he.posture hv.orderly (hstack h.stack)
  have hs' := hs.trans h.stack
  have hlives : ¬m'.Ended t := fun ⟨q, hq⟩ =>
    hstack hs' ((hv.act (.external he)).orderly.resting t (.inr ⟨q, hq⟩))
  refine ⟨⟨hs', h.frames, ?_⟩, hx.same (.external he) hp hv
    (fun _ x hsees => ⟨x, hsees.external hv he fun _ => hlives, rfl⟩)
    fun _ _ hi => ((show Change m m' from .external he).task? hi).resolve_right hlives⟩
  rcases hc with hc | ⟨p, hc⟩
  · rw [hc]
    exact h.control
  · exact .inl ⟨_, hc⟩

theorem AtGuards.begin (h : AtGuards t fs base m) (hne : fs ≠ []) (hv : Visited m) (hp : m.LocksReturned)
    (hx : GuardSections t m₀ m (openGuards fs)) (st : Script.Step) :
    AtGuards t fs base (m.begin st).1 ∧ GuardSections t m₀ (m.begin st).1 (openGuards fs) := by
  refine (hv.begin_preserves (P := fun n => n.LocksReturned ∧ AtGuards t fs base n ∧
    GuardSections t m₀ n (openGuards fs)) st (fun n n' hvn he ⟨hpn, hat, hsections⟩ => ?_) ⟨hp, h, hx⟩).2
  exact ⟨fun u e k => he.keepsEngines.history e k ▸ hpn u e k, hat.external hne he hvn hpn hsections⟩

theorem AtGuards.other (h : AtGuards t fs base m) (hne : fs ≠ []) (hb : m.BuildsIdle) (hu : m.turn = some u)
    (htu : t ≠ u) : AtGuards t fs base (m.advance u) := by
  cases advance_unmoved hb hu htu with
  | same hs hc => exact ⟨hs.trans h.stack, h.frames, hc ▸ h.control⟩
  | started hle =>
    have hs := h.stack
    rw [thread_of_size_le hle] at hs
    exact absurd hs.symm (List.append_ne_nil_of_left_ne_nil hne base)

theorem buildsIdle_of_bracketed (ht : m.turn = some t) (hc : (m.thread t).control = .eval held op)
    (hop : op.bracketed = true) : m.BuildsIdle := by
  intro u held' slot c n hu hcu
  obtain rfl := Option.some.inj (ht.symm.trans hu)
  obtain ⟨-, rfl⟩ := Control.eval.inj (hc.symm.trans hcu)
  cases hop

/-- The thread is in the sections in which it was at `m₀`, and in one more for each guard that has been
created since and not been dropped. -/
theorem Trail.guardSections (hr : Reachable m₀) (ht : m₀.turn = some t)
    (hc : (m₀.thread t).control = .eval held op) (hop : op.bracketed = true)
    (h : Trail (above t (m₀.thread t).stack) (m₀.advance t) m ls)
    (hgo : ∀ n ∈ m₀ :: ls.map Prod.fst, n.turn = some t → ∀ e, n.skips e = false)
    (hp : m.LocksReturned) :
    (∃ fs, AtGuards t fs (m₀.thread t).stack m ∧ GuardSections t m₀ m (openGuards fs)) ∧
      ∀ p ∈ ls, ∃ fs, (p.1.thread t).stack = fs ++ (m₀.thread t).stack ∧
        GuardSections t m₀ p.1 (openGuards fs) := by
  have hb₀ := buildsIdle_of_bracketed ht hc hop
  have hr₁ : Reachable (m₀.advance t) := hr.step hb₀ (by rw [Machine.step, ht])
  induction h with
  | refl =>
    refine ⟨?_, List.forall_mem_nil _⟩
    have hsections : GuardSections t m₀ m₀ (openGuards []) := .refl hr.visited
    have hfirst : GuardStep t [] (m₀.thread t).stack m₀ (m₀.advance t) :=
      eval_guardStep rfl (List.forall_mem_nil _) hc hop hp
    exact hfirst.guardSections hsections hr hb₀ ht (hgo m₀ List.mem_cons_self ht) hp
  | @begin m ls h hab st ih =>
    have hrm := h.reachable hr₁
    have hch := begin_changes m st
    obtain ⟨⟨fs, hat, hsections⟩, hold⟩ := ih hgo (hp.before hch)
    have hne := hat.ne_nil hab
    exact ⟨⟨fs, hat.begin hne hrm.visited (hp.before hch) hsections st⟩, hold⟩
  | @step m m' ls h hab hb hs ih =>
    have hrm := h.reachable hr₁
    have hch := step_changes hb hs
    have hpm := hp.before hch
    have hlater {n : Machine} (hn : n ∈ m₀ :: ls.map Prod.fst) :
        n ∈ m₀ :: ((m, m') :: ls).map Prod.fst :=
      List.mem_cons.2 ((List.mem_cons.1 hn).imp_right (List.mem_cons_of_mem _))
    have hlast : m ∈ m₀ :: ((m, m') :: ls).map Prod.fst := List.mem_cons_of_mem _ List.mem_cons_self
    obtain ⟨⟨fs, hat, hsections⟩, hold⟩ := ih (fun n hn => hgo n (hlater hn)) hpm
    have hne := hat.ne_nil hab
    refine ⟨?_, fun p hmem => ?_⟩
    · rcases step_cases hs with ⟨u, hu, rfl⟩ | ⟨u, queue, hn, hq, rfl⟩
      · by_cases htu : t = u
        · subst htu
          exact (hat.guardStep hne hp).guardSections hsections hrm hb hu (hgo m hlast hu) hp
        · exact ⟨fs, hat.other hne hb hu htu, hsections.other hrm hb hu htu hpm⟩
      · exact ⟨fs, ⟨hat.stack, hat.frames, hat.control⟩,
          hsections.unasked (.of_threads rfl rfl rfl) hpm hrm.visited⟩
    · rcases List.mem_cons.1 hmem with rfl | hmem
      · exact ⟨fs, hat.stack, hsections⟩
      · exact hold p hmem

/-- Thread `t` has got back all that it had at `m₀`, and nothing else. -/
structure Restored (t : Nat) (m₀ m : Machine) : Prop where
  depth : ∀ e k, m.readDepth t e k = m₀.readDepth t e k
  pins : ∀ s, (m.view t s).pinDepth = (m₀.view t s).pinDepth
  place : ∀ e k, m.place t e k = m₀.place t e k
  counted : ∀ e k w, t ∈ m.insiders e k w ↔ t ∈ m₀.insiders e k w
  books : ∀ e k w, ReaderBooks m e k w ∧
    ∀ i, ((m.domain e k).records.get w).readers.isTaken i = true ↔ ∃ u, m.place u e k = some (w, i)

/-- The machine `m` after an earlier one `n`, as far as the guards of thread `t` are concerned. -/
structure Bracketed (t : Nat) (n m : Machine) : Prop where
  depth : ∀ e k, (m.readDepth t e k).toNat + (openGuards (n.thread t).stack).count (e, k) =
    (n.readDepth t e k).toNat + (openGuards (m.thread t).stack).count (e, k)
  inside : ∀ e k, openGuards (m.thread t).stack = (e, k) :: openGuards (n.thread t).stack →
    (m.readDepth t e k).toNat = (n.readDepth t e k).toNat + 1

theorem GuardSections.bracketed {gs : List Frame} (h : GuardSections t m₀ m (openGuards fs))
    (hs : (m.thread t).stack = fs ++ base) (h' : GuardSections t m₀ n (openGuards gs))
    (hs' : (n.thread t).stack = gs ++ base) : Bracketed t n m := by
  have hdepth (e : Nat) (k : Kind) :
      (m.readDepth t e k).toNat + (openGuards (n.thread t).stack).count (e, k) =
        (n.readDepth t e k).toNat + (openGuards (m.thread t).stack).count (e, k) := by
    rw [hs, hs', h.depth, h'.depth, openGuards_append, openGuards_append, List.count_append,
      List.count_append]
    omega
  refine ⟨hdepth, fun e k heq => ?_⟩
  have hd := hdepth e k
  rw [heq, List.count_cons_self] at hd
  omega

theorem isTaken_iff_place (ha : Accounts m e k) (w i : Nat) :
    ((m.domain e k).records.get w).readers.isTaken i = true ↔ ∃ u, m.place u e k = some (w, i) := by
  rw [(ha.holds w).taken i, History.mem_slotsOn]
  constructor
  · rintro ⟨⟨u, v, j⟩, hy, rfl, rfl⟩
    exact ⟨u, (ha.mem_iff _).1 hy⟩
  · rintro ⟨u, hu⟩
    exact ⟨⟨u, w, i⟩, (ha.mem_iff _).2 hu, rfl, rfl⟩

theorem mem_insiders_iff {w : Nat} : t ∈ m.insiders e k w ↔ (m.place t e k).map Prod.fst = some w := by
  unfold insiders
  rw [List.mem_filter, decide_eq_true_eq]
  refine and_iff_right_of_imp fun hw => List.mem_range.2 (lt_size_of_place (e := e) (k := k) fun hnone => ?_)
  rw [hnone] at hw
  cases hw

theorem GuardSections.view (h : GuardSections t m₀ m []) (s : Nat) :
    (m.view t s).pinDepth = (m₀.view t s).pinDepth := by
  obtain ⟨x, y, hx, hy, hpin⟩ := h.pins s
  obtain ⟨i, hi⟩ := Option.isSome_iff_exists.1 (task?_enroll m₀ t s)
  obtain ⟨j, hj⟩ := Option.isSome_iff_exists.1 (task?_enroll m t s)
  rw [hx.pinDepth_view hi, hy.pinDepth_view hj, hpin.trans (UInt32.add_zero _)]
  cases hx with
  | fresh _ _ hp => rw [hp, ite_self, ite_self]
  | task c hc =>
    have hkeep := h.tasks s c hc.task?
    rw [hc.enroll_eq, hc.task?] at hi
    rw [enroll_of_task? hkeep, hkeep] at hj
    rw [Option.some.inj (hj.symm.trans hi)]

theorem GuardSections.restored (h : GuardSections t m₀ m []) (hr : Reachable m) (hp : m.LocksReturned) :
    Restored t m₀ m := by
  have hdepth (e : Nat) (k : Kind) : m.readDepth t e k = m₀.readDepth t e k :=
    UInt32.toNat_inj.1 (h.depth e k)
  have hplace (e : Nat) (k : Kind) : m.place t e k = m₀.place t e k := by
    by_cases hd : m₀.readDepth t e k = 0
    · rw [readDepth_eq_zero.1 hd, readDepth_eq_zero.1 ((hdepth e k).trans hd)]
    · exact h.place e k hd
  refine ⟨hdepth, h.view, hplace, fun e k w => ?_, fun e k w => ⟨reader_books hr (fun u => hp u e k) w,
    fun i => isTaken_iff_place (hp.accounts hr.visited e k) w i⟩⟩
  rw [mem_insiders_iff, mem_insiders_iff, hplace]

/-- A thread makes a tree of guards, in a run in which no lock panics and nothing is skipped in its turns;
other threads do what they want meanwhile. At each moment until the outermost guard is gone, and at the
end, its depths differ from those at any moment before by the guards that there are; and at the end all is
as it was, whether the bodies have returned or panicked. -/
theorem guards_bracket (hr : Reachable m₀) (ht : m₀.turn = some t)
    (hc : (m₀.thread t).control = .eval held op) (hop : op.bracketed = true)
    (h : Trail (above t (m₀.thread t).stack) (m₀.advance t) m ls)
    (hgo : ∀ n ∈ m₀ :: ls.map Prod.fst, n.turn = some t → ∀ e, n.skips e = false)
    (hp : m.LocksReturned) :
    (∀ n ∈ m₀ :: ls.map Prod.fst, Bracketed t n m) ∧
      ((m.thread t).stack = (m₀.thread t).stack →
        (∃ o, (m.thread t).control = .back o) ∧ Restored t m₀ m) := by
  obtain ⟨⟨fs, hat, hsections⟩, hold⟩ := Trail.guardSections hr ht hc hop h hgo hp
  have hb₀ := buildsIdle_of_bracketed ht hc hop
  have hr' : Reachable m := h.reachable (hr.step hb₀ (by rw [step, ht]))
  refine ⟨fun n hn => ?_, fun hover => ?_⟩
  · rcases List.mem_cons.1 hn with rfl | hn
    · have hstart : GuardSections t n n (openGuards []) := .refl hr.visited
      exact hsections.bracketed hat.stack hstart rfl
    · obtain ⟨p, hmem, rfl⟩ := List.mem_map.1 hn
      obtain ⟨gs, hs, hsections'⟩ := hold p hmem
      exact hsections.bracketed hat.stack hsections' hs
  · obtain rfl : fs = [] := List.self_eq_append_left.1 (hover.symm.trans hat.stack)
    exact ⟨hat.control.resolve_right fun hne => hne.1 rfl, hsections.restored hr' hp⟩

/-- A thread that is inside of the first of two engines comes to a tree of guards of both. -/
def rooted : Machine :=
  let m := (Machine.follow { schedulers := ⟨[{ workers := 1 }, { workers := 2 }]⟩, named := 2 }
    [.act 0 (.build 0 { scheduler := some 0 }), .act 0 (.build 1 { scheduler := some 1 }),
      .act 0 (.handle 0 (.readLock .regular))]).1
  (m.begin (.act 0 (.guard 0 false .regular true
    [.guard 1 true .sleepable true
      [.guard 0 true .sleepable false [.engineScheduler 1 (.pause 5), .panic .plain]], .gate]))).1.run 1

/-- It pauses in the innermost body. -/
def treePaused : Machine := (rooted.advance 0).run 3

/-- Meanwhile another thread locks the second engine. -/
def treeJoined : Machine := (treePaused.begin (.act 1 (.handle 1 (.readLock .sleepable)))).1.run 5

/-- The pause is broken off, and a panic in the innermost body leaves two guards. -/
def treeThrown : Machine := ((treeJoined.back 0 (.error (.text "stop"))).wake 0).run 15

/-- The body of the outermost guard comes to its end. -/
def treeDone : Machine := (treeThrown.wake 0).run 6

def treeSteps : List (Machine × Machine) :=
  trailRun 6 (treeThrown.wake 0) ++ (trailRun 15 ((treeJoined.back 0 (.error (.text "stop"))).wake 0) ++
    (trailRun 5 (treePaused.begin (.act 1 (.handle 1 (.readLock .sleepable)))).1 ++
      (trailRun 3 (rooted.advance 0) ++ [])))

theorem reachable_rooted : Reachable rooted := by
  have h := (@Reachable.new [1, 2] 1 _ rfl).perform (.act 0 (.build 0 { scheduler := some 0 }))
    (by decide +kernel)
  have h := h.perform (.act 0 (.build 1 { scheduler := some 1 })) (by decide +kernel)
  have h := h.perform (.act 0 (.handle 0 (.readLock .regular))) (by decide +kernel)
  exact (h.begin _).run (by decide +kernel)

theorem trail_treePaused : Trail (above 0 []) (rooted.advance 0) treePaused
    (trailRun 3 (rooted.advance 0) ++ []) := Trail.refl.run (by decide +kernel)

theorem trail_treeDone : Trail (above 0 []) (rooted.advance 0) treeDone treeSteps := by
  have h : Trail (above 0 []) (rooted.advance 0) treeJoined _ :=
    (trail_treePaused.begin (by decide +kernel) _).run (by decide +kernel)
  have h : Trail (above 0 []) (rooted.advance 0) treeThrown _ :=
    (h.throwOnly (by decide +kernel) (by decide +kernel) "stop").run (by decide +kernel)
  exact (h.wakeOnly (by decide +kernel) (by decide +kernel)).run (by decide +kernel)

/-- In the innermost body it is inside three times more than before, and in the end as often as before. -/
theorem treeDone_restored :
    (openGuards (treePaused.thread 0).stack = [(0, .sleepable), (1, .sleepable), (0, .regular)] ∧
      Bracketed 0 rooted treePaused) ∧
    ((treeDone.thread 0).stack = [] ∧ Restored 0 rooted treeDone ∧ rooted.readDepth 0 0 .regular = 1) := by
  have hgo {ls : List (Machine × Machine)} (h : ∀ n ∈ rooted :: ls.map Prod.fst,
      ∀ s < n.schedulers.size, (n.scheduler s).halted = false) :
      ∀ n ∈ rooted :: ls.map Prod.fst, n.turn = some 0 → ∀ e, n.skips e = false :=
    fun n hn _ => not_skips (h n hn)
  have hstack : (rooted.thread 0).stack = [] := by decide +kernel
  have hinner := guards_bracket reachable_rooted (t := 0) (by decide +kernel) rfl
    (by decide) (hstack ▸ trail_treePaused) (hgo (by decide +kernel))
    (.of_trace (by decide +kernel))
  have hover := guards_bracket reachable_rooted (t := 0) (by decide +kernel) rfl
    (by decide) (hstack ▸ trail_treeDone) (hgo (by decide +kernel))
    (.of_trace (by decide +kernel))
  have hend : (treeDone.thread 0).stack = [] := by decide +kernel
  exact ⟨⟨by decide +kernel, hinner.1 _ List.mem_cons_self⟩, hend,
    (hover.2 (hend.trans hstack.symm)).2, by decide +kernel⟩

end Machine

end GracePeriod
