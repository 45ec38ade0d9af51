import GracePeriod.Proofs.PassCounts

namespace GracePeriod

def Frame.isLoop : Frame → Bool
  | .worker .. => true
  | _ => false

namespace Machine

variable {m m' n : Machine} {t u d d' i : Nat}

/-- Loops of drain threads are at the bottom of stacks. -/
def Grounded (m : Machine) : Prop := ∀ u, ∀ f ∈ (m.thread u).stack.dropLast, f.isLoop = false

/-- The loop of the drain task, with the ticket that its pass serves, if one is under way. -/
def loop? (m : Machine) (d : Nat) : Option (Option Nat) :=
  match (m.thread (m.drain d).thread).stack.getLast? with
  | some (.worker d' ticket) => if d' = d then some ticket else none
  | _ => none

def serving (m : Machine) (d : Nat) : Option Nat := (m.loop? d).join

theorem loop?_eq_some {j : Option Nat} :
    m.loop? d = some j ↔ (m.thread (m.drain d).thread).stack.getLast? = some (.worker d j) := by
  unfold loop?
  constructor
  · intro h
    split at h
    · rename_i hl
      split at h
      · rename_i hd
        obtain rfl := Option.some.inj h
        rw [hl, hd]
      · cases h
    · cases h
  · intro h
    rw [h]
    simp

/-- A stack that is built on another one without a loop, or on all but the top of it, if that is no
loop. -/
inductive Overlaid (fs : List Frame) : List Frame → Prop
  | on (gs : List Frame) (hg : ∀ f ∈ gs, f.isLoop = false) : Overlaid fs (gs ++ fs)
  | instead {f : Frame} {rest : List Frame} (hf : f.isLoop = false) (hs : fs = f :: rest)
      (gs : List Frame) (hg : ∀ f ∈ gs, f.isLoop = false) : Overlaid fs (gs ++ rest)

namespace Overlaid

variable {fs fs' : List Frame}

theorem dropLast (h : Overlaid fs fs') (hd : ∀ f ∈ fs.dropLast, f.isLoop = false) :
    ∀ f ∈ fs'.dropLast, f.isLoop = false := by
  have happ {gs rest : List Frame} (hg : ∀ f ∈ gs, f.isLoop = false)
      (hr : ∀ f ∈ rest.dropLast, f.isLoop = false) : ∀ f ∈ (gs ++ rest).dropLast, f.isLoop = false := by
    intro f hf
    rw [List.dropLast_append] at hf
    split at hf
    · exact hg f (List.mem_of_mem_dropLast hf)
    · exact (List.mem_append.1 hf).elim (hg f) (hr f)
  cases h with
  | on gs hg => exact happ hg hd
  | @instead f rest hf hs gs hg =>
    refine happ hg fun g hg' => hd g ?_
    rw [hs, List.dropLast_cons_of_ne_nil]
    · exact List.mem_cons_of_mem _ hg'
    · rintro rfl
      cases hg'

theorem getLast? (h : Overlaid fs fs') {f : Frame} (hf : fs'.getLast? = some f)
    (hl : f.isLoop = true) : fs.getLast? = some f := by
  have hout {gs rest : List Frame} (hg : ∀ f ∈ gs, f.isLoop = false)
      (hlast : (gs ++ rest).getLast? = some f) : rest.getLast? = some f := by
    cases hr : rest with
    | nil =>
      rw [hr, List.append_nil] at hlast
      have := hg f (List.mem_of_getLast? hlast)
      rw [hl] at this
      cases this
    | cons a l =>
      rw [hr] at hlast
      rwa [List.getLast?_append_of_ne_nil _ (by simp)] at hlast
  cases h with
  | on gs hg => exact hout hg hf
  | @instead g rest hg hs gs hgs =>
    have hrest := hout hgs hf
    rw [hs]
    cases rest with
    | nil => cases hrest
    | cons a l => rwa [List.getLast?_cons_cons]

end Overlaid

/-- The thread has the turn and hands an outcome to the loop of a drain thread. -/
def AtLoop (m : Machine) (t d : Nat) (ticket : Option Nat) (o : Outcome) : Prop :=
  (m.thread t).control = .back o ∧ ∃ rest, (m.thread t).stack = .worker d ticket :: rest

theorem Scope.isLoop_of_pushes {scope : Scope} (hs : ∀ d i, scope.pushes (.worker d i) = false)
    {f : Frame} (hf : scope.pushes f = true ∨ f.isGrace = true) : f.isLoop = false := by
  cases f with
  | worker d i =>
    rcases hf with hf | hf
    · rw [hs] at hf
      cases hf
    · cases hf
  | _ => rfl

theorem ThreadTurn.overlays {scope : Scope} {top : Option Frame} (h : ThreadTurn scope top t n m')
    (hlt : t < n.threads.size) (hs : ∀ d i, scope.pushes (.worker d i) = false) (hne : scope ≠ .all)
    (hp : ∀ d own, scope ≠ .pass d own) :
    ∃ gs, (m'.thread t).stack = gs ++ (n.thread t).stack ∧ ∀ f ∈ gs, f.isLoop = false := by
  rcases h.stack_eq hne hlt with ⟨gs, hgs, hg⟩ | ⟨d, own, p, n', hsc, -⟩
  · exact ⟨gs, hgs, fun f hf => Scope.isLoop_of_pushes hs (hg f hf)⟩
  · exact absurd hsc (hp d own)

/-- Whoever is not at the loop of a drain thread puts no loop on its stack. -/
theorem advance_overlaid (hb : m.BuildsIdle) (ht : m.turn = some t) (hlt : t < m.threads.size)
    (hn : ∀ d ticket o, ¬m.AtLoop t d ticket o) :
    Overlaid (m.thread t).stack ((m.advance t).thread t).stack := by
  unfold advance
  dsimp only
  split
  · rename_i held op hx
    have hc : ThreadTurn .plain none t m (m.start t held op) := Actions.start .refl held (hb.op ht hx)
    obtain ⟨gs, hgs, hg⟩ := hc.overlays hlt (fun _ _ => rfl) nofun nofun
    rw [hgs]
    exact .on gs hg
  · rename_i o hx hs
    have hf : ((m.finish t o).thread t).stack = (m.thread t).stack := stack_stop ..
    rw [hf]
    exact .on [] nofun
  · rename_i o f rest hx hs
    let n := m.modifyThread t fun x => { x with stack := rest }
    have hnlt : t < n.threads.size := Nat.lt_of_lt_of_le hlt (Table.size_le_modify ..)
    have hnst : (n.thread t).stack = rest := stack_pop ..
    have hfl : f.isLoop = false := by
      cases f with
      | worker d i => exact absurd ⟨hx, rest, hs⟩ (hn d i o)
      | _ => rfl
    have hfin {m' : Machine} (h : ∃ gs, (m'.thread t).stack = gs ++ (n.thread t).stack ∧
        ∀ f ∈ gs, f.isLoop = false) : Overlaid (m.thread t).stack (m'.thread t).stack := by
      obtain ⟨gs, hgs, hg⟩ := h
      rw [hgs, hnst]
      exact .instead hfl hs gs hg
    have hbatch {m' : Machine} (h : BatchMoves t n m') :
        Overlaid (m.thread t).stack (m'.thread t).stack := by
      obtain ⟨gs, hgs, hg⟩ := h.stack
      refine hfin ⟨gs, hgs, fun f hf => ?_⟩
      have := hg f hf
      cases f <;> first | rfl | cases this
    by_cases hp : f.isPlain = true
    · have hc : ThreadTurn .plain (some f) t n (n.resume t o f) := Actions.resumePlain .refl o hp
      exact hfin (hc.overlays hnlt (fun _ _ => rfl) nofun nofun)
    cases f with
    | grace e k c target =>
      have hc := Actions.resumeGrace (t := t) (.refl (a := n)) o e k c target
      exact hfin (hc.overlays hnlt (fun _ _ => rfl) nofun nofun)
    | detached e k batch =>
      cases o with
      | error p => exact hbatch (.discardBatch n t e batch _)
      | ok r => exact hbatch (.head (.emit ..) (BatchMoves.runBatch ..))
    | batch e k rest =>
      cases o with
      | error p => exact hbatch (.head (.emit ..) (.head (.emit ..) (BatchMoves.runBatch ..)))
      | ok r => exact hbatch (.head (.emit ..) (BatchMoves.runBatch ..))
    | worker d i => cases hfl
    | _ => exact absurd rfl hp

theorem startPass_overlays (m : Machine) (hlt : t < m.threads.size) (d : Nat) :
    ∃ gs, ((m.startPass t d).thread t).stack = gs ++ (m.thread t).stack ∧
      ∀ f ∈ gs, f.isLoop = false := by
  let n := m.modifyDrain d fun x => { x with passes := (m.drain d).passes + 1 }
  cases hw : (m.drain d).work with
  | callbacks e k =>
    rw [startPass_callbacks t hw]
    unfold runCallbacks
    split
    · exact ⟨[], stack_back .., nofun⟩
    · rename_i batch _
      let n' := (n.modifyEngine e fun x => x.setQueue k []).push t (.detached e k ((n.engine e).queue k))
      have hc : ThreadTurn .grace none t n' (n'.startSynchronize t e k) :=
        .actions (Actions.startSynchronize .refl e k)
      obtain ⟨gs, hgs, hg⟩ := hc.overlays (Nat.lt_of_lt_of_le hlt (Table.size_le_modify ..))
        (fun _ _ => rfl) nofun nofun
      refine ⟨gs ++ [.detached e k ((n.engine e).queue k)], ?_, fun f hf => ?_⟩
      · refine hgs.trans ?_
        rw [stack_push, List.append_assoc]
        rfl
      · rcases List.mem_append.1 hf with hf | hf
        · exact hg f hf
        · rw [List.mem_singleton.1 hf]
          rfl
  | scripted words =>
    rw [startPass_scripted t hw]
    have hn : (n.drain d).work = .scripted words := by
      rw [← hw]
      exact part_modifyDrain Drain.work m d d fun _ => rfl
    have hc : ThreadTurn .plain none t n _ := Actions.runScripted (d := d) .refl (by rw [hn]; rfl)
      (m.drain d).passes (words.getD (m.drain d).passes "")
    exact hc.overlays hlt (fun _ _ => rfl) nofun nofun

/-- Up to which ticket a task is served when its loop goes on. -/
def served (m : Machine) (d : Nat) (ticket : Option Nat) : Nat :=
  ticket.getD (m.drain d).tickets.completed

/-- What the loop of a drain thread does next, which is off the stack: it ends, or has nothing to do,
or starts a pass. -/
inductive LoopStep (t d : Nat) (ticket : Option Nat) (o : Outcome) (m m' : Machine) : Prop
  | dies (p : Payload) (ho : o = .error p) (hs : (m'.thread t).stack = []) (hm : KeepsCounts m m')
  | rests (r : Result) (ho : o = .ok r)
      (hr : (m.drain d).tickets.requested = m.served d ticket)
      (hs : (m'.thread t).stack = [] ∨ (m'.thread t).stack = .worker d none :: (m.thread t).stack)
      (hm : ∀ d', m'.tally d' =
        if d' = d then ((m.tally d).1, m.served d ticket, (m.tally d).2.2) else m.tally d')
  | serves (r : Result) (ho : o = .ok r)
      (hr : (m.drain d).tickets.requested ≠ m.served d ticket) (gs : List Frame)
      (hg : ∀ f ∈ gs, f.isLoop = false)
      (hs : (m'.thread t).stack =
        gs ++ .worker d (some (m.drain d).tickets.requested) :: (m.thread t).stack)
      (hm : ∀ d', m'.tally d' = if d' = d then
        ((m.tally d).1 + (m.passEnqueues d).toNat, m.served d ticket, (m.tally d).2.2 + 1)
        else m.tally d')

theorem workerLoop_loopStep (m : Machine) (hlt : t < m.threads.size) (d : Nat) (r : Result) :
    LoopStep t d none (.ok r) m (m.workerLoop t d) := by
  have hif (d' : Nat) : m.tally d' = if d' = d then ((m.tally d).1, m.served d none, (m.tally d).2.2)
      else m.tally d' := by
    split
    · rename_i hd
      rw [hd]
      rfl
    · rfl
  unfold workerLoop
  split
  · rename_i hduty
    exact .rests r rfl (duty_eq_stop.1 hduty).2 (.inl (stack_endThread ..)) fun d' =>
      ((KeepsCounts.endThread m t none).same d').trans (hif d')
  · rename_i hduty
    refine .rests r rfl (duty_eq_rest.1 hduty).2 (.inr ?_) fun d' => ?_
    · exact ((stack_stop ..).trans (stack_back ..)).trans (stack_push ..)
    · exact ((KeepsCounts.head (m := m) (.waitFor ..) rfl).same d').trans (hif d')
  · rename_i ticket hduty
    obtain ⟨rfl, hne⟩ : (m.drain d).tickets.requested = ticket ∧
        (m.drain d).tickets.requested ≠ (m.drain d).tickets.completed := by
      unfold Tickets.duty at hduty
      split at hduty
      · split at hduty <;> cases hduty
      · exact ⟨Tickets.Duty.serve.inj hduty, ‹_›⟩
    let n := m.push t (.worker d (some (m.drain d).tickets.requested))
    obtain ⟨gs, hgs, hg⟩ := startPass_overlays n
      (Nat.lt_of_lt_of_le hlt (Table.size_le_modify ..)) d
    refine .serves r rfl hne gs hg (hgs.trans (by rw [stack_push])) fun d' => ?_
    exact startPass_tally n t d d'

theorem resumeWorker_loopStep (m : Machine) (hlt : t < m.threads.size) (d : Nat) (ticket : Option Nat)
    (o : Outcome) : LoopStep t d ticket o m (m.resumeWorker t d ticket o) := by
  cases o with
  | error p => exact .dies p rfl (stack_endThread ..) (.endThread ..)
  | ok r =>
    cases ticket with
    | none => exact workerLoop_loopStep m hlt d r
    | some i =>
      let n := (m.modifyDrain d fun x => { x with tickets := x.tickets.complete i }).notify d
      have htally := complete_tally m d i
      have hown : n.tally d = ((m.tally d).1, i, (m.tally d).2.2) := (htally d).trans (if_pos rfl)
      have hserved : n.served d none = i := congrArg (fun x => x.2.1) hown
      have hreq : (n.drain d).tickets.requested = (m.drain d).tickets.requested :=
        congrArg Prod.fst hown
      have hpass : n.passEnqueues d = m.passEnqueues d := by
        have hpart {β : Type} (p : Drain → β) (hp : ∀ x l, p { x with waiters := l } = p x)
            (hk : ∀ x k, p { x with tickets := k } = p x) : p (n.drain d) = p (m.drain d) :=
          (part_drain_notify p hp _ d d).trans (part_modifyDrain p m d d fun x => hk x _)
        unfold passEnqueues
        rw [hpart Drain.work (fun _ _ => rfl) fun _ _ => rfl, hpart Drain.passes (fun _ _ => rfl) fun _ _ =>
          rfl,
          hpart Drain.holders (fun _ _ => rfl) fun _ _ => rfl]
      have hstack : (n.thread t).stack = (m.thread t).stack :=
        part_notify Thread.stack (fun _ _ => rfl) _ d t
      have hmove : Move .all t (m.modifyDrain d fun x => { x with tickets := x.tickets.complete i }) n :=
        .notify _ d
      have hnlt : t < n.threads.size := Nat.lt_of_lt_of_le hlt hmove.threads_le
      have hif (d' : Nat) {x y : Nat × Nat × Nat} (hxy : x = y) :
          (if d' = d then x else n.tally d') = if d' = d then y else m.tally d' := by
        rw [htally]
        split
        · exact hxy
        · rfl
      cases workerLoop_loopStep n hnlt d r with
      | dies p ho => cases ho
      | rests r' ho hr hs hm =>
        rw [hreq, hserved] at hr
        rw [hstack] at hs
        exact .rests r rfl hr hs fun d' => (hm d').trans (hif d' (by rw [hown, hserved]; rfl))
      | serves r' ho hr gs hg hs hm =>
        rw [hreq, hserved] at hr
        rw [hreq, hstack] at hs
        exact .serves r rfl hr gs hg hs fun d' =>
          (hm d').trans (hif d' (by rw [hown, hserved, hpass]; rfl))

theorem AtLoop.stack_eq {ticket : Option Nat} {o : Outcome} (h : m.AtLoop t d ticket o)
    (hg : m.Grounded) : (m.thread t).stack = [.worker d ticket] := by
  obtain ⟨-, rest, hs⟩ := h
  cases rest with
  | nil => exact hs
  | cons f fs =>
    have := hg t (.worker d ticket) (by rw [hs]; exact List.mem_cons_self)
    cases this

theorem AtLoop.loopStep {ticket : Option Nat} {o : Outcome} (h : m.AtLoop t d ticket o)
    (hg : m.Grounded) (hlt : t < m.threads.size) : ∃ n : Machine, n.drains = m.drains ∧
      (n.thread t).stack = [] ∧ LoopStep t d ticket o n (m.advance t) := by
  let n := m.modifyThread t fun x => { x with stack := [] }
  have ha : m.advance t = n.resumeWorker t d ticket o := advance_back h.1 (h.stack_eq hg)
  refine ⟨n, rfl, stack_pop m t [], ?_⟩
  rw [ha]
  exact resumeWorker_loopStep n (Nat.lt_of_lt_of_le hlt (Table.size_le_modify ..)) d ticket o

theorem Reachable.grounded (h : Reachable m) : m.Grounded := by
  have hnone : ∀ f ∈ ([] : List Frame), f.isLoop = false := fun _ hf => absurd hf List.not_mem_nil
  induction h with
  | new hm =>
    obtain ⟨cs, -, rfl⟩ := new_eq hm
    intro u f hf
    rw [thread, Table.get_empty] at hf
    cases hf
  | begin h s ih =>
    refine (begin_externals _ s).preserves (fun n n' ho he hg u => ?_) h.visited.orderly ih
    rw [he.stack ho]
    exact hg u
  | @step m _ h hb hs ih =>
    rcases step_cases hs with ⟨t, ht, rfl⟩ | ⟨t, rest, hn, hr, rfl⟩
    · have hlt := h.visited.orderly.lt_size ht
      intro u
      by_cases hu : u = t
      · rw [hu]
        by_cases hl : ∃ d ticket o, m.AtLoop t d ticket o
        · obtain ⟨d, ticket, o, hl⟩ := hl
          obtain ⟨n, -, hst, hc⟩ := hl.loopStep ih hlt
          cases hc with
          | dies p ho hs => rw [hs]; exact hnone
          | rests r ho hr hs =>
            rw [hst] at hs
            rcases hs with hs | hs <;> rw [hs] <;> exact hnone
          | serves r ho hr gs hg hs =>
            rw [hs, hst, List.dropLast_concat]
            exact hg
        · exact (advance_overlaid hb ht hlt fun d i o hx => hl ⟨d, i, o, hx⟩).dropLast (ih t)
      · cases advance_unmoved hb ht hu with
        | same hs => rw [hs]; exact ih u
        | started _ d hd hth hs => rw [hs]; exact hnone
    · exact ih

theorem loop?_back {j : Option Nat} (hc : ∀ u, m.FramesFit u) (hk : Kept m m')
    (hu : ∀ u, u ≠ t → Unmoved u m m')
    (ht : (m'.thread t).stack.getLast? = some (.worker d j) →
      (m.thread t).stack.getLast? = some (.worker d j))
    (h : m'.loop? d = some j) : m.loop? d = some j ∨
      j = none ∧ (d < m.drains.size → m.threads.size ≤ (m.drain d).thread) := by
  rw [loop?_eq_some] at h
  have hold {u : Nat} (hs : (m.thread u).stack.getLast? = some (.worker d j)) :
      m.loop? d = some j := by
    obtain ⟨-, hth⟩ := hc u _ (List.mem_of_getLast? hs)
    rw [loop?_eq_some, hth]
    exact hs
  by_cases hut : (m'.drain d).thread = t
  · rw [hut] at h
    exact .inl (hold (ht h))
  · cases hu _ hut with
    | same hs => exact .inl (hold (hs ▸ h))
    | started hle d₁ _ _ hs =>
      rw [hs] at h
      obtain ⟨-, rfl⟩ := Frame.worker.inj (Option.some.inj h)
      exact .inr ⟨rfl, fun hd => (hk.same d hd).2 ▸ hle⟩

end Machine

end GracePeriod
