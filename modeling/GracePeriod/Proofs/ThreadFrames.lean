import GracePeriod.Proofs.Stack

namespace GracePeriod.Machine

variable {scope : Scope} {top : Option Frame} {m m' : Machine} {t u e : Nat} {k : Kind} {f : Frame}

def Fits (m : Machine) (u : Nat) : Frame → Prop
  | .worker d _ => d < m.drains.size ∧ (m.drain d).thread = u
  | .detached e k _ | .batch e k _ => ∃ d, m.Serves d e k ∧ (m.drain d).thread = u
  | _ => True

theorem Serves.kept {d : Nat} (h : m.Serves d e k) (hk : Kept m m') :
    m'.Serves d e k ∧ (m'.drain d).thread = (m.drain d).thread := by
  obtain ⟨hw, ht⟩ := hk.same d h.lt_size
  exact ⟨hw.trans h, ht⟩

theorem Fits.kept (h : m.Fits u f) (hk : Kept m m') : m'.Fits u f := by
  have hserves (e : Nat) (k : Kind) (hd : ∃ d, m.Serves d e k ∧ (m.drain d).thread = u) :
      ∃ d, m'.Serves d e k ∧ (m'.drain d).thread = u := by
    obtain ⟨d, hd, ht⟩ := hd
    obtain ⟨hd', ht'⟩ := hd.kept hk
    exact ⟨d, hd', ht'.trans ht⟩
  cases f with
  | worker d ticket =>
    exact ⟨Nat.lt_of_lt_of_le h.1 hk.size, (hk.same d h.1).2.trans h.2⟩
  | detached e k batch | batch e k rest => exact hserves e k h
  | _ => trivial

/-- What moves of this scope push, thread `t` may have, and they run callbacks only for its own
drain task. -/
structure MayPush (m : Machine) (t : Nat) (scope : Scope) : Prop where
  limited : scope ≠ .all
  pushes : ∀ f, scope.pushes f = true → m.Fits t f
  serves : ∀ e k, scope.serves e k = true → ∃ d, m.Serves d e k ∧ (m.drain d).thread = t

theorem mayPush_plain (m : Machine) (t : Nat) : MayPush m t .plain := by
  refine ⟨nofun, fun f hf => ?_, nofun⟩
  cases f <;> trivial

theorem mayPush_grace (m : Machine) (t : Nat) : MayPush m t .grace := by
  refine ⟨nofun, fun f hf => ?_, nofun⟩
  cases f <;> trivial

theorem Serves.mayPush {d : Nat} (h : m.Serves d e k) :
    MayPush m (m.drain d).thread (.pass d (some (e, k))) := by
  have hown {e' : Nat} {k' : Kind} (hs : (Scope.pass d (some (e, k))).serves e' k' = true) :
      ∃ d', m.Serves d' e' k' ∧ (m.drain d').thread = (m.drain d).thread := by
    obtain ⟨rfl, rfl⟩ := Prod.mk.inj (Option.some.inj (of_decide_eq_true hs))
    exact ⟨d, h, rfl⟩
  refine ⟨nofun, fun f hf => ?_, fun e' k' => hown⟩
  cases f with
  | worker d' ticket =>
    obtain rfl : d' = d := of_decide_eq_true hf
    exact ⟨h.lt_size, rfl⟩
  | detached e' k' batch | batch e' k' rest => exact hown hf
  | _ => trivial

theorem mayPush_scripted {d : Nat} (hd : d < m.drains.size) :
    MayPush m (m.drain d).thread (.pass d none) := by
  have hown (e : Nat) (k : Kind) : (Scope.pass d none).serves e k ≠ true := by simp [Scope.serves]
  refine ⟨nofun, fun f hf => ?_, fun e k hs => absurd hs (hown e k)⟩
  cases f with
  | worker d' ticket =>
    obtain rfl : d' = d := of_decide_eq_true hf
    exact ⟨hd, rfl⟩
  | detached e k batch | batch e k rest => exact absurd hf (hown e k)
  | _ => trivial

theorem Fits.resume {n : Machine} (h : m.Fits t f) (hn : n.drains = m.drains) (o : Outcome) :
    ∃ scope, MayPush m t scope ∧ ThreadTurn scope (some f) t n (n.resume t o f) := by
  by_cases hp : f.isPlain = true
  · exact ⟨.plain, mayPush_plain m t, Actions.resumePlain .refl o hp⟩
  cases f with
  | grace e k c target => exact ⟨.grace, mayPush_grace m t, Actions.resumeGrace .refl o e k c target⟩
  | detached e k batch | batch e k rest =>
    obtain ⟨d, hd, rfl⟩ := h
    exact ⟨_, hd.mayPush, Actions.resumePass .refl o rfl⟩
  | worker d ticket =>
    obtain ⟨hd, rfl⟩ := h
    have hdrain : n.drain d = m.drain d := by rw [drain, drain, hn]
    cases hw : (m.drain d).work with
    | callbacks e k =>
      refine ⟨_, Serves.mayPush hw, Actions.resumePass .refl o ⟨rfl, ?_⟩⟩
      rw [hdrain, hw]
      rfl
    | scripted words =>
      refine ⟨_, mayPush_scripted hd, Actions.resumePass .refl o ⟨rfl, ?_⟩⟩
      rw [hdrain, hw]
      rfl
  | _ => exact absurd rfl hp

def FramesFit (m : Machine) (u : Nat) : Prop := ∀ f ∈ (m.thread u).stack, m.Fits u f

/-- Where a thread starts its turn: as it is, or with the top frame off its stack. -/
inductive Starts (t : Nat) (m : Machine) : Option Frame → Machine → Prop
  | same : Starts t m none m
  | pop {f : Frame} {rest : List Frame} (h : (m.thread t).stack = f :: rest) :
      Starts t m (some f) (m.modifyThread t fun x => { x with stack := rest })

theorem advance_mayPush (hb : m.BuildsIdle) (ht : m.turn = some t) (hc : m.FramesFit t) :
    ∃ scope top n, MayPush m t scope ∧ Starts t m top n ∧ ThreadTurn scope top t n (m.advance t) := by
  unfold advance
  dsimp only
  split
  · rename_i held op hx
    exact ⟨.plain, _, m, mayPush_plain m t, .same, Actions.start .refl held (hb.op ht hx)⟩
  · rename_i o hx hs
    exact ⟨.plain, _, m, mayPush_plain m t, .same,
      .leave (Actions.emit .refl (.finished _) rfl) (.idle _ hs) (stack_stop ..)⟩
  · rename_i o f rest hx hs
    obtain ⟨scope, hl, hr⟩ := (hc f (hs ▸ List.mem_cons_self)).resume (n := m.modifyThread t
      fun x => { x with stack := rest }) rfl o
    exact ⟨scope, _, _, hl, .pop hs, hr⟩

theorem ThreadTurn.stack_eq (h : ThreadTurn scope top t m m') (hs : scope ≠ .all)
    (ht : t < m.threads.size) :
    (∃ fs, (m'.thread t).stack = fs ++ (m.thread t).stack ∧
      ∀ f ∈ fs, scope.pushes f = true ∨ f.isGrace = true) ∨
    ∃ d own p, ∃ n : Machine, scope = .pass d own ∧ m' = n.endThread t p := by
  have hmoves {n : Machine} (h : Moves scope t m n) :
      ∃ fs, (n.thread t).stack = fs ++ (m.thread t).stack ∧
        ∀ f ∈ fs, scope.pushes f = true ∨ f.isGrace = true := by
    obtain ⟨fs, hfs, hp⟩ := h.stack_eq hs ht
    exact ⟨fs, hfs, fun f hf => .inl (hp f hf)⟩
  have hsync {n : Machine} (h : Moves scope t m n) (e : Nat) (k : Kind) :
      ∃ fs, ((n.startSynchronize t e k).thread t).stack = fs ++ (m.thread t).stack ∧
        ∀ f ∈ fs, scope.pushes f = true ∨ f.isGrace = true := by
    obtain ⟨gs, hgs, hp⟩ := (Moves.startSynchronize n t e k).stack_eq nofun
      (Nat.lt_of_lt_of_le ht (Moves.threads_le h))
    obtain ⟨fs, hfs, hq⟩ := hmoves h
    refine ⟨gs ++ fs, by rw [hgs, hfs, List.append_assoc], fun f hf => ?_⟩
    rcases List.mem_append.1 hf with hf | hf
    · have hg := hp f hf
      cases f <;> first | exact .inl rfl | exact .inr rfl | cases hg
    · exact hq f hf
  cases h with
  | actions h => exact .inl (hmoves h.moves)
  | leave h hl hst => exact .inl (hst ▸ hmoves h.moves)
  | ended h hsc p => exact .inr ⟨_, _, p, _, hsc, rfl⟩
  | synchronize h e k => exact .inl (hsync h.moves e k)
  | barrier h e k hk =>
    unfold startBarrier
    split
    · exact .inl (hmoves (h.moves.back _))
    · exact .inl (hsync ((h.moves.neutral e k rfl).pushPlain rfl) e k)
  | drain h e k _ => exact .inl (hmoves ((h.moves.pushPlain (by rfl)).startDrain _))
  | returned h e k o _ => exact .inl (hmoves ((h.moves.neutral e k (by rfl)).back o))

theorem Starts.threads_le {n : Machine} (h : Starts t m top n) : m.threads.size ≤ n.threads.size := by
  cases h with
  | same => exact Nat.le_refl _
  | pop hs => exact Table.size_le_modify ..

theorem Starts.mem_stack {n : Machine} (h : Starts t m top n) (hf : f ∈ (n.thread t).stack) :
    f ∈ (m.thread t).stack := by
  cases h with
  | same => exact hf
  | pop hs =>
    rw [stack_pop] at hf
    rw [hs]
    exact List.mem_cons_of_mem _ hf

theorem advance_kept (hb : m.BuildsIdle) (ht : m.turn = some t) : Kept m (m.advance t) := by
  rcases advance_turn hb ht with h | ⟨n, h, hl⟩
  · exact h.kept
  · exact h.kept.trans hl.kept

theorem advance_framesFit (hb : m.BuildsIdle) (ht : m.turn = some t) (hs : t < m.threads.size)
    (hc : m.FramesFit t) : (m.advance t).FramesFit t := by
  have hk := advance_kept hb ht
  obtain ⟨scope, top, n, hl, hn, hturn⟩ := advance_mayPush hb ht hc
  intro f hf
  rcases hturn.stack_eq hl.limited (Nat.lt_of_lt_of_le hs hn.threads_le) with
    ⟨fs, hfs, hp⟩ | ⟨d, own, p, n', -, he⟩
  · rw [hfs] at hf
    rcases List.mem_append.1 hf with hf | hf
    · rcases hp f hf with hp | hp
      · exact (hl.pushes f hp).kept hk
      · cases f <;> trivial
    · exact (hc f (hn.mem_stack hf)).kept hk
  · rw [he, stack_endThread] at hf
    cases hf

theorem Unmoved.framesFit (h : Unmoved u m m') (hk : Kept m m') (hc : m.FramesFit u) : m'.FramesFit u := by
  intro f hf
  cases h with
  | same hs _ =>
    rw [hs] at hf
    exact (hc f hf).kept hk
  | started _ d hd ht hs _ =>
    rw [hs, List.mem_singleton] at hf
    rw [hf]
    exact ⟨hd, ht⟩

theorem advance_unmoved (hb : m.BuildsIdle) (ht : m.turn = some t) (hu : u ≠ t) :
    Unmoved u m (m.advance t) := by
  rcases advance_turn hb ht with h | ⟨n, h, hl⟩
  · exact h.unmoved hu
  · exact (h.unmoved hu).trans h.threads_le hl.kept (hl.unmoved hu)

/-- Who serves a domain that nobody has served has just been started. -/
def StartsService (m m' : Machine) : Prop :=
  ∀ d e k, m'.Serves d e k → m.Serves d e k ∨ m.threads.size ≤ (m'.drain d).thread ∧
    (m'.thread (m'.drain d).thread).stack = [.worker d none] ∧
    (m'.thread (m'.drain d).thread).control = .back (.ok .unit)

namespace StartsService

theorem of_work (h : ∀ d, (m'.drain d).work = (m.drain d).work) : StartsService m m' :=
  fun d _ _ hd => .inl ((h d).symm.trans hd)

theorem trans {m'' : Machine} (h : StartsService m m') (hle : m.threads.size ≤ m'.threads.size)
    (hk : Kept m' m'') (hu : ∀ u, m.threads.size ≤ u → Unmoved u m' m'') (h' : StartsService m' m'') :
    StartsService m m'' := by
  intro d e k hd
  rcases h' d e k hd with hd' | ⟨ht, hs, hc⟩
  · rcases h d e k hd' with hm | ⟨ht, hs, hc⟩
    · exact .inl hm
    · have heq := (hd'.kept hk).2
      rw [heq]
      refine .inr ⟨ht, ?_⟩
      cases hu _ ht with
      | same hs' hc' => exact ⟨hs'.trans hs, hc'.trans hc⟩
      | started hlt =>
        rw [thread_of_size_le hlt] at hs
        cases hs
  · exact .inr ⟨hle.trans ht, hs, hc⟩

theorem spawnDrain (m : Machine) (name : ThreadName) (systemName : String) (x : Drain) :
    StartsService m (m.spawnDrain name systemName x).2 := by
  intro d e k hd
  rcases hd.of_spawnDrain with ⟨rfl, -⟩ | ⟨-, hd⟩
  · have ht : ((m.spawnDrain name systemName x).2.drain m.drains.size).thread = m.threads.size := by
      rw [drain_spawnDrain, if_pos rfl]
    rw [ht, thread_spawnDrain, if_pos rfl]
    exact .inr ⟨Nat.le_refl _, rfl, rfl⟩
  · exact .inl hd

theorem startEngine (m : Machine) (slot : Option Nat) (c : Config) (p : Access) :
    StartsService m (m.startEngine slot c p).2 := by
  have h1 : StartsService m (m.startFirst slot c) := .spawnDrain m _ _ _
  have h2 : StartsService (m.startFirst slot c) (m.startSecond slot c) := .spawnDrain (m.startFirst slot c)
    _ _ _
  have hle : m.threads.size ≤ (m.startFirst slot c).threads.size := by
    simp [startFirst, Machine.spawnDrain, spawn]
  have h3 : StartsService m (m.startSecond slot c) := h1.trans hle (.spawnDrain ..)
    (fun u _ => .spawnDrain ..) h2
  exact h3

end StartsService

theorem Move.startsService (h : Move scope t m m') : StartsService m m' := by
  rcases h.work_eq with hw | ⟨slot, c, p, rfl⟩ | ⟨name, passes, rfl⟩
  · exact .of_work hw
  · exact .startEngine m slot c p
  · exact .spawnDrain m _ _ _

theorem Moves.startsService (h : Moves scope t m m') (ht : t < m.threads.size) : StartsService m m' := by
  induction h with
  | refl => exact .of_work fun _ => rfl
  | tail h hm ih =>
    exact ih.trans (Moves.threads_le h) hm.kept
      (fun u hu => hm.unmoved (Nat.ne_of_gt (Nat.lt_of_lt_of_le ht hu))) hm.startsService

theorem advance_startsService (hb : m.BuildsIdle) (ht : m.turn = some t) (hs : t < m.threads.size) :
    StartsService m (m.advance t) := by
  rcases advance_turn hb ht with h | ⟨n, h, hl⟩
  · exact h.startsService hs
  · exact (h.startsService hs).trans h.threads_le hl.kept
      (fun u hu => hl.unmoved (Nat.ne_of_gt (Nat.lt_of_lt_of_le hs hu))) (.of_work hl.work_eq)

/-- Frames of passes are only on the threads that they belong to. -/
theorem Reachable.framesFit (h : Reachable m) : ∀ u, m.FramesFit u := by
  induction h with
  | new hm =>
    obtain ⟨cs, -, rfl⟩ := new_eq hm
    intro u f hf
    rw [thread, Table.get_empty] at hf
    cases hf
  | begin h s ih =>
    refine (begin_externals _ s).preserves (P := fun m => ∀ u, m.FramesFit u) (fun n n' ho he hc u f hf => ?_)
      h.visited.orderly ih
    by_cases hu : (n.thread u).stack = []
    · rw [he.stack_eq_nil hu] at hf
      cases hf
    · rw [(he.posture ho hu).1] at hf
      exact (hc u f hf).kept he.kept
  | step h hb hs ih =>
    rcases step_cases hs with ⟨t, ht, rfl⟩ | ⟨t, rest, hn, hr, rfl⟩
    · intro u
      by_cases hu : u = t
      · rw [hu]
        exact advance_framesFit hb ht (h.visited.orderly.lt_size ht) (ih t)
      · exact (advance_unmoved hb ht hu).framesFit (advance_kept hb ht) (ih u)
    · exact ih

end GracePeriod.Machine
