import GracePeriod.Proofs.SchedulerEffects
import GracePeriod.Proofs.Order

namespace GracePeriod.Machine

variable {scope : Scope} {m m' m'' : Machine} {t d : Nat}

theorem threads_le_wakeAll (m : Machine) (ts : List Nat) :
    m.threads.size ≤ (m.wakeAll ts).threads.size := by
  induction ts generalizing m with
  | nil => exact Nat.le_refl _
  | cons t ts ih => exact (Table.size_le_modify ..).trans (ih (m.wake t))

theorem threads_le_enroll (m : Machine) (t s : Nat) :
    m.threads.size ≤ (m.enroll t s).threads.size := by
  rcases enroll_cases m t s with ⟨-, h⟩ | ⟨-, h⟩ <;> rw [h]
  exact Table.size_le_modify ..

theorem Move.threads_le (h : Move scope t m m') : m.threads.size ≤ m'.threads.size := by
  cases h with
  | control c | push f hf | stack fs hs => exact Table.size_le_modify ..
  | enroll s => exact threads_le_enroll ..
  | notify d => exact threads_le_wakeAll (m.modifyDrain d _) _
  | openSection e k hs => exact (Inside.openSection m t e k).threads_le
  | closeSection e k => exact (Inside.closeSection m t e k).threads_le
  | spawnTask name passes => exact (Nat.le_succ _).trans (Nat.le_of_eq (Table.size_push ..).symm)
  | startEngine slot c p hc =>
    rw [startEngine_eq]
    simp only [startSecond, startFirst, spawnDrain, spawn, Table.size_push]
    omega
  | _ => exact Nat.le_refl _

theorem Move.engines_le (h : Move scope t m m') : m.engines.size ≤ m'.engines.size := by
  cases h with
  | handles e n => exact Table.size_le_modify ..
  | register e k w | advance e k | enqueue e k c | detach e k hs => exact Table.size_le_modify ..
  | enroll s => rw [enroll_eq]
  | notify d => rw [notify_eq]
  | openSection e k hs => exact (Inside.openSection m t e k).engines_le
  | closeSection e k => exact (Inside.closeSection m t e k).engines_le
  | startEngine slot c p hc => exact (Nat.le_succ _).trans (Nat.le_of_eq (Table.size_push ..).symm)
  | _ => exact Nat.le_refl _

theorem Moves.threads_le (h : Moves scope t m m') : m.threads.size ≤ m'.threads.size := by
  induction h with
  | refl => exact Nat.le_refl _
  | tail _ hm ih => exact ih.trans hm.threads_le

theorem Moves.engines_le (h : Moves scope t m m') : m.engines.size ≤ m'.engines.size := by
  induction h with
  | refl => exact Nat.le_refl _
  | tail _ hm ih => exact ih.trans hm.engines_le

theorem threads_le_endThread (m : Machine) (t : Nat) (p : Option Payload) :
    m.threads.size ≤ (m.endThread t p).threads.size := by
  have hb : m.threads.size ≤ (m.bury t p).threads.size := by
    unfold bury
    rw [foldl_release_eq]
    exact Table.size_le_modify ..
  exact hb.trans (threads_le_wakeAll (m.bury t p) _)

theorem Leave.threads_le (h : Leave t m m') : m.threads.size ≤ m'.threads.size := by
  have hmod (m : Machine) (f : Thread → Thread) :
      m.threads.size ≤ (m.modifyThread t f).threads.size := Table.size_le_modify ..
  cases h with
  | idle _ | park _ => exact hmod ..
  | waitFor d => exact (hmod m _).trans (hmod (m.done t) _)
  | join u =>
    unfold Machine.join
    dsimp only
    split
    · exact hmod ..
    · exact (hmod m _).trans (hmod (m.stop t (.joining u)) _)
  | endThread p => exact threads_le_endThread ..

theorem External.threads_le (h : External m m') : m.threads.size ≤ m'.threads.size := by
  cases h with
  | actor _ i => exact (Nat.le_succ _).trans (Nat.le_of_eq (Table.size_push ..).symm)
  | exit h => exact threads_le_endThread ..
  | resume h => exact Table.size_le_modify ..
  | @fault t _ h text =>
    exact (Table.size_le_modify ..).trans (Table.size_le_modify (m.back t _).threads ..)
  | @instruct t _ h op =>
    exact (Table.size_le_modify ..).trans (Table.size_le_modify (m.eval t none op).threads ..)

theorem Change.threads_le (h : Change m m') : m.threads.size ≤ m'.threads.size := by
  cases h with
  | move ht hm => exact hm.threads_le
  | leave ht hl => exact hl.threads_le
  | pick hn hr => exact Nat.le_refl _
  | external he => exact he.threads_le

theorem Changes.threads_le (h : Changes m m') : m.threads.size ≤ m'.threads.size := by
  induction h with
  | refl => exact Nat.le_refl _
  | tail _ hc ih => exact ih.trans hc.threads_le

theorem Change.engines_le (h : Change m m') : m.engines.size ≤ m'.engines.size := by
  cases h with
  | move ht hm => exact hm.engines_le
  | leave ht hl => exact Nat.le_of_eq (congrArg Table.size hl.keepsEngines.engines.symm)
  | pick hn hr => exact Nat.le_refl _
  | external he => exact Nat.le_of_eq (congrArg Table.size he.keepsEngines.engines.symm)

/-- Drain tasks keep their work and their thread. -/
structure Kept (m m' : Machine) : Prop where
  size : m.drains.size ≤ m'.drains.size
  same : ∀ d, d < m.drains.size →
    (m'.drain d).work = (m.drain d).work ∧ (m'.drain d).thread = (m.drain d).thread

namespace Kept

theorem refl (m : Machine) : Kept m m := ⟨Nat.le_refl _, fun _ _ => ⟨rfl, rfl⟩⟩

theorem trans (h : Kept m m') (h' : Kept m' m'') : Kept m m'' := by
  refine ⟨h.size.trans h'.size, fun d hd => ?_⟩
  obtain ⟨hw, ht⟩ := h.same d hd
  obtain ⟨hw', ht'⟩ := h'.same d (Nat.lt_of_lt_of_le hd h.size)
  exact ⟨hw'.trans hw, ht'.trans ht⟩

theorem of_drains (h : m'.drains = m.drains) : Kept m m' := by
  refine ⟨by rw [h], fun d _ => ?_⟩
  rw [drain, drain, h]
  exact ⟨rfl, rfl⟩

theorem modifyDrain (m : Machine) (d : Nat) {f : Drain → Drain}
    (hf : ∀ x, (f x).work = x.work ∧ (f x).thread = x.thread) : Kept m (m.modifyDrain d f) := by
  refine ⟨Table.size_le_modify .., fun d' _ => ?_⟩
  rw [drain_modifyDrain]
  split
  · exact hf _
  · exact ⟨rfl, rfl⟩

theorem spawnDrain (m : Machine) (name : ThreadName) (systemName : String) (x : Drain) :
    Kept m (m.spawnDrain name systemName x).2 := by
  refine ⟨(Nat.le_succ _).trans (Nat.le_of_eq (Table.size_push ..).symm), fun d hd => ?_⟩
  have hg : (m.spawnDrain name systemName x).2.drain d = m.drain d :=
    (Table.get_push ..).trans (if_neg (Nat.ne_of_lt hd))
  rw [hg]
  exact ⟨rfl, rfl⟩

theorem startEngine (m : Machine) (slot : Option Nat) (c : Config) (p : Access) :
    Kept m (m.startEngine slot c p).2 := by
  have h1 : Kept m (m.startFirst slot c) := .spawnDrain ..
  have h2 : Kept (m.startFirst slot c) (m.startSecond slot c) := .spawnDrain ..
  exact (h1.trans h2).trans (.of_drains rfl)

end Kept

theorem Inside.drains (h : Inside t m m') : m'.drains = m.drains := by rw [h.eq]

theorem Move.kept (h : Move scope t m m') : Kept m m' := by
  cases h with
  | drain d f hf => exact .modifyDrain m d fun x => ⟨(hf x).1, (hf x).2.1⟩
  | notify d =>
    refine .trans (.modifyDrain m d (f := fun x => { x with waiters := [] }) fun _ => ⟨rfl, rfl⟩) ?_
    exact .of_drains (by rw [notify_eq]; rfl)
  | enroll s => exact .of_drains (by rw [enroll_eq])
  | openSection e k hs => exact .of_drains (Inside.openSection m t e k).drains
  | closeSection e k => exact .of_drains (Inside.closeSection m t e k).drains
  | startEngine slot c p hc => exact .startEngine ..
  | spawnTask name passes => exact .spawnDrain ..
  | _ => exact .of_drains rfl

theorem Moves.kept (h : Moves scope t m m') : Kept m m' := by
  induction h with
  | refl => exact .refl m
  | tail _ hm ih => exact ih.trans hm.kept

theorem drains_endThread (m : Machine) (t : Nat) (p : Option Payload) :
    (m.endThread t p).drains = m.drains := by
  rw [endThread_eq, wakeAll_eq, bury_eq]

theorem Leave.kept (h : Leave t m m') : Kept m m' := by
  cases h with
  | idle _ | park _ => exact .of_drains rfl
  | waitFor d =>
    have hd := Kept.modifyDrain m d (f := fun x => { x with waiters := x.waiters ++ [t] })
      fun _ => ⟨rfl, rfl⟩
    exact ⟨hd.size, hd.same⟩
  | join u =>
    unfold Machine.join
    dsimp only
    split <;> exact .of_drains rfl
  | endThread p => exact .of_drains (drains_endThread ..)

theorem External.kept (h : External m m') : Kept m m' := by
  cases h with
  | exit h => exact .of_drains (drains_endThread ..)
  | _ => exact .of_drains rfl

theorem Change.kept (h : Change m m') : Kept m m' := by
  cases h with
  | move ht hm => exact hm.kept
  | leave ht hl => exact hl.kept
  | pick hn hr => exact .of_drains rfl
  | external he => exact he.kept

theorem work_of_drains (h : m'.drains = m.drains) (d : Nat) :
    (m'.drain d).work = (m.drain d).work := by rw [drain, drain, h]

theorem Move.work_eq (h : Move scope t m m') : (∀ d, (m'.drain d).work = (m.drain d).work) ∨
    (∃ slot c p, m' = (m.startEngine slot c p).2) ∨
    ∃ name passes, m' = (m.spawnDrain .bare name { work := .scripted passes, holders := 1 }).2 := by
  cases h with
  | startEngine slot c p hs => exact .inr (.inl ⟨slot, c, p, rfl⟩)
  | spawnTask name passes => exact .inr (.inr ⟨name, passes, rfl⟩)
  | drain d f hf => exact .inl fun d' => part_modifyDrain Drain.work m d d' fun x => (hf x).1
  | notify d => exact .inl (part_drain_notify Drain.work (fun _ _ => rfl) m d)
  | enroll s => exact .inl (work_of_drains (by rw [enroll_eq]))
  | openSection e k hs => exact .inl (work_of_drains (Inside.openSection m t e k).drains)
  | closeSection e k => exact .inl (work_of_drains (Inside.closeSection m t e k).drains)
  | _ => exact .inl fun _ => rfl

theorem Leave.work_eq (h : Leave t m m') (d : Nat) : (m'.drain d).work = (m.drain d).work := by
  cases h with
  | idle _ | park _ => rfl
  | waitFor d' =>
    exact part_modifyDrain Drain.work m d' d (f := fun x => { x with waiters := x.waiters ++ [t] })
      fun _ => rfl
  | join u =>
    unfold Machine.join
    dsimp only
    split <;> rfl
  | endThread p => exact work_of_drains (drains_endThread ..) d

theorem External.work_eq (h : External m m') (d : Nat) : (m'.drain d).work = (m.drain d).work := by
  cases h with
  | exit hi => exact work_of_drains (drains_endThread ..) d
  | _ => rfl

theorem Leave.tickets_eq (h : Leave t m m') (d : Nat) :
    (m'.drain d).tickets = (m.drain d).tickets := by
  cases h with
  | idle _ | park _ => rfl
  | waitFor d' =>
    exact part_modifyDrain Drain.tickets m d' d
      (f := fun x => { x with waiters := x.waiters ++ [t] }) fun _ => rfl
  | join u =>
    unfold Machine.join
    dsimp only
    split <;> rfl
  | endThread p => rw [drain, drain, drains_endThread]

theorem External.tickets_eq (h : External m m') (d : Nat) :
    (m'.drain d).tickets = (m.drain d).tickets := by
  cases h with
  | exit hi => rw [drain, drain, drains_endThread]
  | _ => rfl

/-- Drain task `d` serves a domain. -/
def Serves (m : Machine) (d e : Nat) (k : Kind) : Prop := (m.drain d).work = .callbacks e k

theorem Serves.lt_size {e : Nat} {k : Kind} (h : m.Serves d e k) : d < m.drains.size := by
  refine Nat.lt_of_not_le fun hle => ?_
  rw [Serves, drain, Table.get_of_size_le hle] at h
  cases h

theorem drain_spawnDrain (m : Machine) (name : ThreadName) (systemName : String) (x : Drain)
    (d : Nat) : (m.spawnDrain name systemName x).2.drain d = if d = m.drains.size then
      { x with thread := m.threads.size, waiters := [m.threads.size] } else m.drain d :=
  Table.get_push ..

theorem Serves.of_spawnDrain {name : ThreadName} {systemName : String} {x : Drain} {e : Nat}
    {k : Kind} (h : (m.spawnDrain name systemName x).2.Serves d e k) :
    d = m.drains.size ∧ x.work = .callbacks e k ∨ d ≠ m.drains.size ∧ m.Serves d e k := by
  rw [Serves, drain_spawnDrain] at h
  split at h
  · rename_i hd
    exact .inl ⟨hd, h⟩
  · rename_i hd
    exact .inr ⟨hd, h⟩

theorem Move.engine_drains (h : Move scope t m m') {e : Nat} (he : e < m.engines.size) :
    (m'.engine e).drains = (m.engine e).drains := by
  have hpart (m : Machine) (e' : Nat) {f : Engine → Engine} (hf : ∀ x, (f x).drains = x.drains) :
      ((m.modifyEngine e' f).engine e).drains = (m.engine e).drains :=
    part_modifyEngine Engine.drains m e' e hf
  cases h with
  | handles e' n | register e' k w | advance e' k | enqueue e' k c | detach e' k hs =>
    exact hpart m e' fun _ => rfl
  | enroll s => exact congrArg (fun m => (m.engine e).drains) (enroll_eq m t s)
  | notify d => exact congrArg (fun m => (m.engine e).drains) (notify_eq m d)
  | openSection e' k hs =>
    obtain ⟨ds, hd⟩ := (Inside.openSection m t e' k).engine e
    rw [hd]
  | closeSection e' k =>
    obtain ⟨ds, hd⟩ := (Inside.closeSection m t e' k).engine e
    rw [hd]
  | startEngine slot c p hc =>
    exact congrArg Engine.drains ((Table.get_push ..).trans (if_neg (Nat.ne_of_lt he)))
  | _ => rfl

theorem Change.engine_drains (h : Change m m') {e : Nat} (he : e < m.engines.size) :
    (m'.engine e).drains = (m.engine e).drains := by
  cases h with
  | move ht hm => exact hm.engine_drains he
  | leave ht hl => rw [engine, hl.keepsEngines.engines, engine]
  | pick hn hr => rfl
  | external hx => rw [engine, hx.keepsEngines.engines, engine]

/-- Who serves a domain is the drain task that the engine has for it, and its thread serves nobody
else. -/
structure DrainsAssigned (m : Machine) : Prop where
  engine : ∀ d e k, m.Serves d e k → e < m.engines.size
  thread : ∀ d e k, m.Serves d e k → (m.drain d).thread < m.threads.size
  named : ∀ d e k, m.Serves d e k → (m.engine e).drains.get k = d
  apart : ∀ d d' e e' k k', m.Serves d e k → m.Serves d' e' k' →
    (m.drain d).thread = (m.drain d').thread → d = d'

namespace DrainsAssigned

theorem one (h : DrainsAssigned m) {d d' e : Nat} {k : Kind} (hd : m.Serves d e k)
    (hd' : m.Serves d' e k) : d = d' := (h.named d e k hd).symm.trans (h.named d' e k hd')

theorem kept (h : DrainsAssigned m) (he : m.engines.size ≤ m'.engines.size)
    (ht : m.threads.size ≤ m'.threads.size) (hk : Kept m m')
    (hd : ∀ e, e < m.engines.size → (m'.engine e).drains = (m.engine e).drains)
    (hn : ∀ d e k, m'.Serves d e k → m.Serves d e k) : DrainsAssigned m' := by
  have hth {d e : Nat} {k : Kind} (hd : m'.Serves d e k) :
      (m'.drain d).thread = (m.drain d).thread := (hk.same d (hn d e k hd).lt_size).2
  constructor
  · exact fun d e k hd => Nat.lt_of_lt_of_le (h.engine d e k (hn d e k hd)) he
  · intro d e k hd
    rw [hth hd]
    exact Nat.lt_of_lt_of_le (h.thread d e k (hn d e k hd)) ht
  · intro d e k hs
    have hs' := hn d e k hs
    rw [hd e (h.engine d e k hs')]
    exact h.named d e k hs'
  · intro d d' e e' k k' hd hd' heq
    rw [hth hd, hth hd'] at heq
    exact h.apart d d' e e' k k' (hn d e k hd) (hn d' e' k' hd') heq

theorem spawnDrain (h : DrainsAssigned m) (name : ThreadName) (systemName : String) (x : Drain)
    (hx : ∀ e k, x.work = .callbacks e k →
      e < m.engines.size ∧ (m.engine e).drains.get k = m.drains.size) :
    DrainsAssigned (m.spawnDrain name systemName x).2 := by
  have hth (d : Nat) : ((m.spawnDrain name systemName x).2.drain d).thread =
      if d = m.drains.size then m.threads.size else (m.drain d).thread := by
    rw [drain_spawnDrain]
    split <;> rfl
  constructor
  · intro d e k hd
    rcases hd.of_spawnDrain with ⟨-, hw⟩ | ⟨-, hd⟩
    · exact (hx e k hw).1
    · exact h.engine d e k hd
  · intro d e k hd
    have hsize : (m.spawnDrain name systemName x).2.threads.size = m.threads.size + 1 :=
      Table.size_push ..
    rw [hth, hsize]
    rcases hd.of_spawnDrain with ⟨hdd, -⟩ | ⟨hdd, hd⟩
    · rw [if_pos hdd]
      exact Nat.lt_succ_self _
    · rw [if_neg hdd]
      exact (h.thread d e k hd).trans (Nat.lt_succ_self _)
  · intro d e k hd
    rcases hd.of_spawnDrain with ⟨hdd, hw⟩ | ⟨-, hd⟩
    · rw [hdd]
      exact (hx e k hw).2
    · exact h.named d e k hd
  · intro d d' e e' k k' hd hd' heq
    rw [hth, hth] at heq
    rcases hd.of_spawnDrain with ⟨hdd, hw⟩ | ⟨hdd, hd⟩ <;>
      rcases hd'.of_spawnDrain with ⟨hdd', hw'⟩ | ⟨hdd', hd'⟩
    · rw [hdd, hdd']
    · rw [if_pos hdd, if_neg hdd'] at heq
      exact absurd heq.symm (Nat.ne_of_lt (h.thread d' e' k' hd'))
    · rw [if_neg hdd, if_pos hdd'] at heq
      exact absurd heq (Nat.ne_of_lt (h.thread d e k hd))
    · rw [if_neg hdd, if_neg hdd'] at heq
      exact h.apart d d' e e' k k' hd hd' heq

theorem startEngine (h : DrainsAssigned m) (slot : Option Nat) (c : Config) (p : Access) :
    DrainsAssigned (m.startEngine slot c p).2 := by
  have hsize : (m.startEngine slot c p).2.engines.size = m.engines.size + 1 := Table.size_push ..
  have h0 : DrainsAssigned { m with engines := (m.startEngine slot c p).2.engines } := by
    refine h.kept ?_ (Nat.le_refl _) (.of_drains rfl) (fun e he => ?_) fun _ _ _ hd => hd
    · rw [hsize]
      exact Nat.le_succ _
    · exact congrArg Engine.drains ((Table.get_push ..).trans (if_neg (Nat.ne_of_lt he)))
  have hnew : ((m.startEngine slot c p).2.engine m.engines.size).drains =
      ⟨m.drains.size, (m.startFirst slot c).drains.size⟩ :=
    congrArg Engine.drains ((Table.get_push ..).trans (if_pos rfl))
  have h1 := h0.spawnDrain (.drain slot .regular) (c.threadName ++ "-" ++ Kind.regular.name)
    { work := .callbacks m.engines.size .regular } fun e k hw => by
      obtain ⟨rfl, rfl⟩ := Work.callbacks.inj hw
      rw [hsize]
      exact ⟨Nat.lt_succ_self _, congrArg (PerKind.get · .regular) hnew⟩
  have h2 := h1.spawnDrain (.drain slot .sleepable) (c.threadName ++ "-" ++ Kind.sleepable.name)
    { work := .callbacks m.engines.size .sleepable } fun e k hw => by
      obtain ⟨rfl, rfl⟩ := Work.callbacks.inj hw
      refine ⟨?_, congrArg (PerKind.get · .sleepable) hnew⟩
      exact (Nat.lt_succ_self _).trans_eq hsize.symm
  exact ⟨h2.engine, h2.thread, h2.named, h2.apart⟩

theorem same (h : DrainsAssigned m) (hc : Change m m')
    (hw : ∀ d, (m'.drain d).work = (m.drain d).work) : DrainsAssigned m' :=
  h.kept hc.engines_le hc.threads_le hc.kept (fun _ => hc.engine_drains)
    fun d _ _ hd => (hw d).symm.trans hd

theorem change (h : DrainsAssigned m) (hc : Change m m') : DrainsAssigned m' := by
  have hc' := hc
  cases hc with
  | move ht hm =>
    rcases hm.work_eq with hw | ⟨slot, c, p, rfl⟩ | ⟨name, passes, rfl⟩
    · exact h.same hc' hw
    · exact h.startEngine ..
    · exact h.spawnDrain _ _ _ nofun
  | leave ht hl => exact h.same hc' hl.work_eq
  | pick hn hr => exact h.same hc' fun _ => rfl
  | external he => exact h.same hc' he.work_eq

end DrainsAssigned

theorem Visited.drainsAssigned (h : Visited m) : DrainsAssigned m := by
  refine h.induction (fun workers host m hm => ?_) fun _ _ h hc => h.change hc
  obtain ⟨cs, -, rfl⟩ := new_eq hm
  have hno (d e : Nat) (k : Kind) : ¬Serves { schedulers := ⟨cs⟩, named := workers.length,
                                              hostWorkers := host } d e k := by
    intro hd
    rw [Serves, drain, Table.get_empty] at hd
    cases hd
  exact ⟨fun d e k hd => absurd hd (hno d e k), fun d e k hd => absurd hd (hno d e k),
    fun d e k hd => absurd hd (hno d e k), fun d _ e _ k _ hd => absurd hd (hno d e k)⟩

end GracePeriod.Machine
