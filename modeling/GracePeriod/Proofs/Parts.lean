import GracePeriod.Machine.Step

namespace GracePeriod.Machine

variable {m : Machine} {t u : Nat}

theorem thread_modifyThread (m : Machine) (t u : Nat) (f : Thread → Thread) :
    (m.modifyThread t f).thread u = if u = t then f (m.thread u) else m.thread u := by
  rw [thread, modifyThread, Table.get_modify]
  split
  · rename_i h
    rw [h]
    rfl
  · rfl

theorem thread_modifyThread_self (m : Machine) (t : Nat) (f : Thread → Thread) :
    (m.modifyThread t f).thread t = f (m.thread t) := by
  rw [thread_modifyThread, if_pos rfl]

theorem thread_modifyThread_ne (m : Machine) (f : Thread → Thread) (h : u ≠ t) :
    (m.modifyThread t f).thread u = m.thread u := by
  rw [thread_modifyThread, if_neg h]

theorem part_modifyThread {β : Type} (p : Thread → β) (m : Machine) (t u : Nat)
    {f : Thread → Thread} (hf : ∀ x, p (f x) = p x) :
    p ((m.modifyThread t f).thread u) = p (m.thread u) := by
  rw [thread_modifyThread]
  split
  · exact hf _
  · rfl

theorem thread_wakeAll (m : Machine) (ts : List Nat) (u : Nat) :
    (m.wakeAll ts).thread u =
      if u ∈ ts then { m.thread u with status := .active } else m.thread u := by
  induction ts generalizing m with
  | nil => rfl
  | cons t ts ih =>
    have hw : (m.wake t).thread u =
        if u = t then { m.thread u with status := .active } else m.thread u :=
      thread_modifyThread ..
    refine (ih (m.wake t)).trans ?_
    rw [hw]
    by_cases ht : u = t <;> by_cases hts : u ∈ ts <;> simp [ht, hts]

theorem wakeAll_eq (m : Machine) (ts : List Nat) :
    m.wakeAll ts = { m with threads := (m.wakeAll ts).threads, ready := m.ready ++ ts } := by
  induction ts generalizing m with
  | nil => simp [wakeAll]
  | cons t ts ih =>
    have h := ih (m.wake t)
    rw [show m.ready ++ t :: ts = (m.wake t).ready ++ ts by simp [wake]]
    exact h

theorem wakeAll_setTurn (m : Machine) (ts : List Nat) (x : Option Nat) :
    ({ m with turn := x } : Machine).wakeAll ts = { m.wakeAll ts with turn := x } := by
  induction ts generalizing m with
  | nil => rfl
  | cons t ts ih => exact ih (m.wake t)

theorem scheduler_modifyScheduler (m : Machine) (s c : Nat) (f : Scheduler → Scheduler) :
    (m.modifyScheduler s f).scheduler c = if c = s then f (m.scheduler c) else m.scheduler c := by
  rw [scheduler, modifyScheduler, Table.get_modify]
  split
  · rename_i h
    rw [h]
    rfl
  · rfl

theorem drain_modifyDrain (m : Machine) (d d' : Nat) (f : Drain → Drain) :
    (m.modifyDrain d f).drain d' = if d' = d then f (m.drain d') else m.drain d' := by
  rw [drain, modifyDrain, Table.get_modify]
  split
  · rename_i h
    rw [h]
    rfl
  · rfl

theorem engine_modifyEngine (m : Machine) (e e' : Nat) (f : Engine → Engine) :
    (m.modifyEngine e f).engine e' = if e' = e then f (m.engine e') else m.engine e' := by
  rw [engine, modifyEngine, Table.get_modify]
  split
  · rename_i h
    rw [h]
    rfl
  · rfl

theorem part_modifyEngine {β : Type} (p : Engine → β) (m : Machine) (e e' : Nat)
    {f : Engine → Engine} (hf : ∀ x, p (f x) = p x) :
    p ((m.modifyEngine e f).engine e') = p (m.engine e') := by
  rw [engine_modifyEngine]
  split
  · exact hf _
  · rfl

theorem skips_modifyEngine (m : Machine) (e' e : Nat) {f : Engine → Engine}
    (hf : ∀ x, (f x).skipWhenHalted = x.skipWhenHalted ∧ (f x).access = x.access) :
    (m.modifyEngine e' f).skips e = m.skips e := by
  have hskip := part_modifyEngine Engine.skipWhenHalted m e' e fun x => (hf x).1
  have haccess := part_modifyEngine Engine.access m e' e fun x => (hf x).2
  unfold skips
  dsimp only
  rw [hskip, haccess]
  rfl

theorem notify_eq (m : Machine) (d : Nat) : m.notify d =
    { m with
      drains := m.drains.modify d fun x => { x with waiters := [] },
      threads := (m.notify d).threads,
      ready := m.ready ++ (m.drain d).waiters } := wakeAll_eq ..

theorem thread_notify (m : Machine) (d u : Nat) : (m.notify d).thread u =
    if u ∈ (m.drain d).waiters then { m.thread u with status := .active } else m.thread u :=
  thread_wakeAll ..

theorem part_notify {β : Type} (p : Thread → β) (hp : ∀ x s, p { x with status := s } = p x)
    (m : Machine) (d u : Nat) : p ((m.notify d).thread u) = p (m.thread u) := by
  rw [thread_notify]
  split
  · exact hp ..
  · rfl

theorem enroll_cases (m : Machine) (t s : Nat) :
    ((∃ id, m.task? t s = some id) ∧ m.enroll t s = m) ∨ m.task? t s = none ∧
      m.enroll t s = { m with schedulers := m.schedulers.set s (m.scheduler s).place.2 }.modifyThread
        t fun x => { x with tasks := x.tasks ++ [(s, (m.scheduler s).place.1)] } := by
  unfold enroll
  cases h : m.task? t s with
  | some id => exact .inl ⟨⟨id, rfl⟩, rfl⟩
  | none => exact .inr ⟨rfl, rfl⟩

theorem part_enroll {β : Type} (p : Thread → β) (hp : ∀ x l, p { x with tasks := l } = p x)
    (m : Machine) (t s u : Nat) : p ((m.enroll t s).thread u) = p (m.thread u) := by
  rcases enroll_cases m t s with ⟨-, h⟩ | ⟨-, h⟩
  · rw [h]
  · rw [h]
    exact part_modifyThread p _ t u fun x => hp x _

theorem enroll_eq (m : Machine) (t s : Nat) : m.enroll t s =
    { m with schedulers := (m.enroll t s).schedulers, threads := (m.enroll t s).threads } := by
  rcases enroll_cases m t s with ⟨-, h⟩ | ⟨-, h⟩
  · rw [h]
  · rw [h]
    rfl

theorem thread_spawnDrain (m : Machine) (name : ThreadName) (systemName : String) (x : Drain)
    (u : Nat) : (m.spawnDrain name systemName x).2.thread u =
      if u = m.threads.size then
        { name, systemName, status := .waiting m.drains.size,
          stack := [.worker m.drains.size none] }
      else m.thread u := Table.get_push ..

theorem scheduler_push (m : Machine) (x : Scheduler) (s : Nat) :
    ({ m with schedulers := m.schedulers.push x } : Machine).scheduler s =
      if s = m.schedulers.size then x else m.scheduler s := Table.get_push ..

theorem thread_of_size_le (h : m.threads.size ≤ u) : m.thread u = default :=
  Table.get_of_size_le h

theorem part_spawnDrain {β : Type} (p : Thread → β) (m : Machine) (name : ThreadName)
    (systemName : String) (x : Drain)
    (hp : p { name, systemName, status := .waiting m.drains.size,
              stack := [.worker m.drains.size none] } = p default) (u : Nat) :
    p ((m.spawnDrain name systemName x).2.thread u) = p (m.thread u) := by
  rw [thread_spawnDrain]
  split
  · rename_i h
    rw [hp, h, thread_of_size_le (Nat.le_refl _)]
  · rfl

/-- The first of the two drain threads of a new engine has been started. -/
def startFirst (m : Machine) (slot : Option Nat) (c : Config) : Machine :=
  (m.spawnDrain (.drain slot .regular) (c.threadName ++ "-" ++ Kind.regular.name)
    { work := .callbacks m.engines.size .regular }).2

def startSecond (m : Machine) (slot : Option Nat) (c : Config) : Machine :=
  ((m.startFirst slot c).spawnDrain (.drain slot .sleepable)
    (c.threadName ++ "-" ++ Kind.sleepable.name) { work := .callbacks m.engines.size .sleepable }).2

theorem startEngine_eq (m : Machine) (slot : Option Nat) (c : Config) (p : Access) :
    (m.startEngine slot c p).2 =
      { m.startSecond slot c with engines := (m.startEngine slot c p).2.engines } := rfl

theorem part_startEngine {β : Type} (p : Thread → β)
    (hp : ∀ name systemName d,
      p { name, systemName, status := .waiting d, stack := [.worker d none] } = p default)
    (m : Machine) (slot : Option Nat) (c : Config) (a : Access) (u : Nat) :
    p ((m.startEngine slot c a).2.thread u) = p (m.thread u) :=
  (part_spawnDrain p (m.startFirst slot c) _ _ { work := .callbacks m.engines.size .sleepable }
    (hp ..) u).trans (part_spawnDrain p m _ _ _ (hp ..) u)

def joiners (m : Machine) (t : Nat) : List Nat :=
  m.threads.indices.filter fun u =>
    match (m.thread u).status with
    | .joining v => v = t
    | _ => false

/-- The tasks of the thread are free, and it has ended. -/
def bury (m : Machine) (t : Nat) (panic : Option Payload) : Machine :=
  ((m.thread t).tasks.foldl (fun m p => m.modifyScheduler p.1 (·.release p.2)) m).modifyThread t
    fun x => { x with status := .ended panic, tasks := [], stack := [] }

theorem endThread_eq (m : Machine) (t : Nat) (panic : Option Payload) :
    m.endThread t panic =
      { (m.bury t panic).wakeAll ((m.bury t panic).joiners t) with turn := none } := rfl

theorem foldl_release_eq (l : List (Nat × Nat)) (m : Machine) :
    l.foldl (fun m p => m.modifyScheduler p.1 (·.release p.2)) m =
      { m with
        schedulers := (l.foldl (fun m p => m.modifyScheduler p.1 (·.release p.2)) m).schedulers } := by
  induction l generalizing m with
  | nil => rfl
  | cons p l ih => exact ih (m.modifyScheduler p.1 (·.release p.2))

theorem bury_eq (m : Machine) (t : Nat) (panic : Option Payload) : m.bury t panic =
    { m with schedulers := (m.bury t panic).schedulers, threads := (m.bury t panic).threads } := by
  unfold bury
  rw [foldl_release_eq]
  rfl

theorem thread_bury (m : Machine) (t : Nat) (panic : Option Payload) (u : Nat) :
    (m.bury t panic).thread u =
      if u = t then { m.thread u with status := .ended panic, tasks := [], stack := [] }
      else m.thread u := by
  unfold bury
  rw [thread_modifyThread, foldl_release_eq]
  rfl

theorem mem_joiners : u ∈ m.joiners t ↔ (m.thread u).status = .joining t := by
  unfold joiners
  rw [List.mem_filter]
  constructor
  · rintro ⟨-, h⟩
    split at h
    · rename_i v hv
      rw [hv, of_decide_eq_true h]
    · cases h
  · intro h
    refine ⟨List.mem_range.2 (Nat.lt_of_not_le fun hu => ?_), ?_⟩
    · rw [thread_of_size_le hu] at h
      cases h
    · rw [h]
      exact decide_eq_true rfl

theorem nodup_joiners (m : Machine) (t : Nat) : (m.joiners t).Nodup :=
  List.nodup_range.filter _

theorem thread_endThread_self (m : Machine) (t : Nat) (panic : Option Payload) :
    (m.endThread t panic).thread t =
      { m.thread t with status := .ended panic, tasks := [], stack := [] } := by
  have hb := (thread_bury m t panic t).trans (if_pos rfl)
  have hn : t ∉ (m.bury t panic).joiners t := fun hj => by
    rw [mem_joiners, hb] at hj
    cases hj
  rw [endThread_eq]
  exact ((thread_wakeAll (m.bury t panic) _ t).trans (if_neg hn)).trans hb

theorem thread_endThread_ne (m : Machine) (h : u ≠ t) (panic : Option Payload) :
    (m.endThread t panic).thread u = m.thread u ∨ (m.thread u).status = .joining t ∧
      (m.endThread t panic).thread u = { m.thread u with status := .active } := by
  have hb := (thread_bury m t panic u).trans (if_neg h)
  rw [endThread_eq]
  by_cases hj : u ∈ (m.bury t panic).joiners t
  · refine .inr ⟨?_, ((thread_wakeAll (m.bury t panic) _ u).trans (if_pos hj)).trans (by rw [hb])⟩
    rwa [mem_joiners, hb] at hj
  · exact .inl (((thread_wakeAll (m.bury t panic) _ u).trans (if_neg hj)).trans hb)

theorem part_endThread {β : Type} (p : Thread → β) (hs : ∀ x s, p { x with status := s } = p x)
    (hp : ∀ x s, p { x with status := s, tasks := [], stack := [] } = p x)
    (m : Machine) (t : Nat) (panic : Option Payload) (u : Nat) :
    p ((m.endThread t panic).thread u) = p (m.thread u) := by
  by_cases hu : u = t
  · rw [hu, thread_endThread_self]
    exact hp ..
  · rcases thread_endThread_ne m hu panic with h | ⟨-, h⟩
    · rw [h]
    · rw [h]
      exact hs ..

theorem stack_push (m : Machine) (t : Nat) (f : Frame) :
    ((m.push t f).thread t).stack = f :: (m.thread t).stack :=
  congrArg Thread.stack (thread_modifyThread_self m t _)

theorem stack_back (m : Machine) (t : Nat) (o : Outcome) (u : Nat) :
    ((m.back t o).thread u).stack = (m.thread u).stack :=
  part_modifyThread Thread.stack m t u fun _ => rfl

theorem control_back (m : Machine) (t : Nat) (o : Outcome) :
    ((m.back t o).thread t).control = .back o :=
  congrArg Thread.control (thread_modifyThread_self m t _)

theorem stack_pop (m : Machine) (t : Nat) (rest : List Frame) :
    ((m.modifyThread t fun x => { x with stack := rest }).thread t).stack = rest :=
  congrArg Thread.stack (thread_modifyThread_self m t _)

theorem control_pop (m : Machine) (t : Nat) (rest : List Frame) :
    ((m.modifyThread t fun x => { x with stack := rest }).thread t).control =
      (m.thread t).control :=
  part_modifyThread Thread.control m t t fun _ => rfl

theorem stack_stop (m : Machine) (t : Nat) (s : Status) (u : Nat) :
    ((m.stop t s).thread u).stack = (m.thread u).stack :=
  part_modifyThread Thread.stack m t u fun _ => rfl

theorem control_stop (m : Machine) (t : Nat) (s : Status) (u : Nat) :
    ((m.stop t s).thread u).control = (m.thread u).control :=
  part_modifyThread Thread.control m t u fun _ => rfl

theorem part_wake {β : Type} (p : Thread → β) (hs : ∀ x s, p { x with status := s } = p x)
    (m : Machine) (t u : Nat) : p ((m.wake t).thread u) = p (m.thread u) :=
  part_modifyThread p m t u fun x => hs x _

theorem part_join {β : Type} (p : Thread → β) (hs : ∀ x s, p { x with status := s } = p x)
    (m : Machine) (t v u : Nat) : p ((m.join t v).thread u) = p (m.thread u) := by
  have h : p ((m.stop t (.joining v)).thread u) = p (m.thread u) :=
    part_modifyThread p m t u fun x => hs x _
  unfold Machine.join
  dsimp only
  split
  · exact h
  · exact (part_modifyThread p (m.stop t _) t u fun x => hs x _).trans h

theorem part_modifyDrain {β : Type} (p : Drain → β) (m : Machine) (d d' : Nat) {f : Drain → Drain}
    (hf : ∀ x, p (f x) = p x) : p ((m.modifyDrain d f).drain d') = p (m.drain d') := by
  rw [drain_modifyDrain]
  split
  · exact hf _
  · rfl

theorem part_drain_notify {β : Type} (p : Drain → β) (hp : ∀ x l, p { x with waiters := l } = p x)
    (m : Machine) (d d' : Nat) : p ((m.notify d).drain d') = p (m.drain d') := by
  rw [notify_eq]
  exact part_modifyDrain p m d d' fun x => hp x []

end GracePeriod.Machine
