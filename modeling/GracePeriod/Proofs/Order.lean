import GracePeriod.Proofs.Reachable

namespace GracePeriod.Machine

structure Orderly (m : Machine) : Prop where
  turn : ∀ t, m.turn = some t → (m.thread t).status = .active ∧ t ∉ m.ready
  ready : ∀ t ∈ m.ready, (m.thread t).status = .active
  nodup : m.ready.Nodup
  waiters : ∀ d, ∀ t ∈ (m.drain d).waiters, (m.thread t).status = .waiting d
  nodupWaiters : ∀ d, (m.drain d).waiters.Nodup
  resting : ∀ t, ((m.thread t).status = .idle ∨ ∃ p, (m.thread t).status = .ended p) →
    (m.thread t).stack = []

namespace Orderly

variable {m m' : Machine} {t : Nat}

theorem same (h : Orderly m) (ht : m'.turn = m.turn) (hr : m'.ready = m.ready)
    (hs : ∀ u, (m'.thread u).status = (m.thread u).status)
    (hw : ∀ d, (m'.drain d).waiters = (m.drain d).waiters)
    (hk : ∀ u, (m.thread u).status ≠ .active → (m'.thread u).stack = (m.thread u).stack) :
    Orderly m' where
  turn u hu := by
    rw [hs, hr]
    exact h.turn u (ht ▸ hu)
  ready u hu := by
    rw [hs]
    exact h.ready u (hr ▸ hu)
  nodup := by rw [hr]; exact h.nodup
  waiters d u hu := by
    rw [hs]
    exact h.waiters d u (hw d ▸ hu)
  nodupWaiters d := by rw [hw]; exact h.nodupWaiters d
  resting u hu := by
    rw [hs] at hu
    have hne : (m.thread u).status ≠ .active := by
      intro ha
      rcases hu with hu | ⟨p, hu⟩ <;> rw [ha] at hu <;> cases hu
    rw [hk u hne]
    exact h.resting u hu

theorem not_ready (h : Orderly m) (ht : (m.thread t).status ≠ .active) : t ∉ m.ready :=
  fun hr => ht (h.ready t hr)

theorem not_waiter (h : Orderly m) (ht : ∀ d, (m.thread t).status ≠ .waiting d) (d : Nat) :
    t ∉ (m.drain d).waiters := fun hw => ht d (h.waiters d t hw)

theorem wakeAll (h : Orderly m) {ts : List Nat} (hn : ts.Nodup)
    (hs : ∀ u ∈ ts, (m.thread u).status ≠ .active) (hw : ∀ u ∈ ts, ∀ d, u ∉ (m.drain d).waiters) :
    Orderly (m.wakeAll ts) := by
  have ht := thread_wakeAll m ts
  have hnot {u : Nat} (hu : (m.thread u).status = .active) : u ∉ ts := fun hm => hs u hm hu
  have hready : (m.wakeAll ts).ready = m.ready ++ ts := by rw [wakeAll_eq]
  have hdrain (d : Nat) : (m.wakeAll ts).drain d = m.drain d := by rw [wakeAll_eq]; rfl
  constructor
  · intro u hu
    rw [wakeAll_eq] at hu
    obtain ⟨ha, hr⟩ := h.turn u hu
    rw [ht, if_neg (hnot ha), hready, List.mem_append]
    exact ⟨ha, fun hc => hc.elim hr (hnot ha)⟩
  · intro u hu
    rw [ht]
    split
    · rfl
    · rename_i hm
      rw [hready, List.mem_append] at hu
      exact h.ready u (hu.resolve_right hm)
  · rw [hready]
    refine List.nodup_append.2 ⟨h.nodup, hn, ?_⟩
    rintro u hu v hv rfl
    exact hs u hv (h.ready u hu)
  · intro d u hu
    rw [hdrain] at hu
    rw [ht, if_neg fun hm => hw u hm d hu]
    exact h.waiters d u hu
  · intro d
    rw [hdrain]
    exact h.nodupWaiters d
  · intro u hu
    rw [ht] at hu ⊢
    by_cases hm : u ∈ ts
    · rw [if_pos hm] at hu
      rcases hu with hu | ⟨p, hu⟩ <;> cases hu
    · rw [if_neg hm] at hu ⊢
      exact h.resting u hu

theorem wake (h : Orderly m) (hs : (m.thread t).status ≠ .active)
    (hw : ∀ d, (m.thread t).status ≠ .waiting d) : Orderly (m.wake t) := by
  refine h.wakeAll (List.pairwise_singleton _ t) ?_ ?_
  · intro u hu
    rw [List.mem_singleton.1 hu]
    exact hs
  · intro u hu
    rw [List.mem_singleton.1 hu]
    exact h.not_waiter hw

theorem modifyDrain (h : Orderly m) (d : Nat) {f : Drain → Drain}
    (hf : ∀ x, (f x).waiters = x.waiters) : Orderly (m.modifyDrain d f) := by
  refine h.same rfl rfl (fun _ => rfl) (fun d' => ?_) (fun _ _ => rfl)
  rw [drain_modifyDrain]
  split
  · exact hf _
  · rfl

theorem clearWaiters (h : Orderly m) (d : Nat) :
    Orderly (m.modifyDrain d fun x => { x with waiters := [] }) := by
  have hd (d' : Nat) : ((m.modifyDrain d fun x => { x with waiters := [] }).drain d').waiters =
      if d' = d then [] else (m.drain d').waiters := by
    rw [drain_modifyDrain]
    split <;> rfl
  refine ⟨h.turn, h.ready, h.nodup, fun d' u hu => ?_, fun d' => ?_, h.resting⟩
  · rw [hd] at hu
    split at hu
    · cases hu
    · exact h.waiters d' u hu
  · rw [hd]
    split
    · exact List.nodup_nil
    · exact h.nodupWaiters d'

theorem addWaiter (h : Orderly m) {d : Nat} (ht : (m.thread t).status = .waiting d)
    (hw : t ∉ (m.drain d).waiters) :
    Orderly (m.modifyDrain d fun x => { x with waiters := x.waiters ++ [t] }) := by
  have hd (d' : Nat) :
      ((m.modifyDrain d fun x => { x with waiters := x.waiters ++ [t] }).drain d').waiters =
        if d' = d then (m.drain d').waiters ++ [t] else (m.drain d').waiters := by
    rw [drain_modifyDrain]
    split <;> rfl
  refine ⟨h.turn, h.ready, h.nodup, fun d' u hu => ?_, fun d' => ?_, h.resting⟩
  · rw [hd] at hu
    split at hu
    · rename_i hdd
      rcases List.mem_append.1 hu with hu | hu
      · exact h.waiters d' u hu
      · rw [List.mem_singleton.1 hu, hdd]
        exact ht
    · exact h.waiters d' u hu
  · rw [hd]
    split
    · rename_i hdd
      refine List.nodup_append.2 ⟨h.nodupWaiters d', List.pairwise_singleton _ _, ?_⟩
      rintro u hu v hv rfl
      rw [List.mem_singleton.1 hv, hdd] at hu
      exact hw hu
    · exact h.nodupWaiters d'

theorem notify (h : Orderly m) (d : Nat) : Orderly (m.notify d) := by
  refine (h.clearWaiters d).wakeAll (h.nodupWaiters d) ?_ ?_
  · intro u hu ha
    have hw := h.waiters d u hu
    rw [show (m.thread u).status = .active from ha] at hw
    cases hw
  · intro u hu d' hu'
    have hw := h.waiters d u hu
    have hw' := (h.clearWaiters d).waiters d' u hu'
    rw [show (m.thread u).status = .waiting d' from hw'] at hw
    obtain rfl := Status.waiting.inj hw
    rw [drain_modifyDrain, if_pos rfl] at hu'
    cases hu'

theorem modifyThread (h : Orderly m) (ht : (m.thread t).status = .active) {f : Thread → Thread}
    (hf : ∀ x, (f x).status = x.status) : Orderly (m.modifyThread t f) := by
  refine h.same rfl rfl (fun u => part_modifyThread Thread.status m t u hf) (fun _ => rfl) fun u hu => ?_
  rw [thread_modifyThread_ne]
  rintro rfl
  exact hu ht

theorem spawnDrain (h : Orderly m) (name : ThreadName) (systemName : String) (x : Drain) :
    Orderly (m.spawnDrain name systemName x).2 := by
  have ht := thread_spawnDrain m name systemName x
  have hnew : m.thread m.threads.size = default := thread_of_size_le (Nat.le_refl _)
  have hd (d : Nat) : ((m.spawnDrain name systemName x).2.drain d).waiters =
      if d = m.drains.size then [m.threads.size] else (m.drain d).waiters := by
    have hg : (m.spawnDrain name systemName x).2.drain d = if d = m.drains.size then
        { x with thread := m.threads.size, waiters := [m.threads.size] } else m.drain d :=
      Table.get_push ..
    rw [hg]
    split <;> rfl
  have hne {u : Nat} {s : Status} (hu : (m.thread u).status = s) (hs : s ≠ .ended none) :
      u ≠ m.threads.size := by
    rintro rfl
    rw [hnew] at hu
    exact hs hu.symm
  constructor
  · intro u hu
    obtain ⟨ha, hr⟩ := h.turn u hu
    rw [ht, if_neg (hne ha nofun)]
    exact ⟨ha, hr⟩
  · intro u hu
    have ha := h.ready u hu
    rw [ht, if_neg (hne ha nofun)]
    exact ha
  · exact h.nodup
  · intro d u hu
    rw [hd] at hu
    split at hu
    · rename_i hdd
      rw [List.mem_singleton.1 hu, ht, if_pos rfl, hdd]
    · have hw := h.waiters d u hu
      rw [ht, if_neg (hne hw nofun)]
      exact hw
  · intro d
    rw [hd]
    split
    · exact List.pairwise_singleton _ _
    · exact h.nodupWaiters d
  · intro u hu
    rw [ht] at hu ⊢
    by_cases hus : u = m.threads.size
    · rw [if_pos hus] at hu
      rcases hu with hu | ⟨p, hu⟩ <;> cases hu
    · rw [if_neg hus] at hu ⊢
      exact h.resting u hu

theorem move {scope : Scope} (h : Orderly m) (ht : m.turn = some t) (hm : Move scope t m m') :
    Orderly m' := by
  have ha := (h.turn t ht).1
  cases hm with
  | control c | push f hf | stack fs hs => exact h.modifyThread ha fun _ => rfl
  | enroll s =>
    rw [enroll_eq]
    exact h.same rfl rfl (part_enroll Thread.status (fun _ _ => rfl) m t s) (fun _ => rfl)
      fun u _ => part_enroll Thread.stack (fun _ _ => rfl) m t s u
  | notify d => exact h.notify d
  | drain d f hf => exact h.modifyDrain d fun x => (hf x).2.2
  | openSection e k hs =>
    have hi := Inside.openSection m t e k
    exact h.same (by rw [hi.eq]) (by rw [hi.eq]) (hi.part Thread.status fun _ _ => rfl)
      (fun d => by rw [hi.eq]; rfl) fun u _ => hi.part Thread.stack (fun _ _ => rfl) u
  | closeSection e k =>
    have hi := Inside.closeSection m t e k
    exact h.same (by rw [hi.eq]) (by rw [hi.eq]) (hi.part Thread.status fun _ _ => rfl)
      (fun d => by rw [hi.eq]; rfl) fun u _ => hi.part Thread.stack (fun _ _ => rfl) u
  | startEngine slot c p hc =>
    rw [startEngine_eq]
    obtain ⟨h1, h2, h3, h4, h5, h6⟩ := (h.spawnDrain (.drain slot .regular)
      (c.threadName ++ "-" ++ Kind.regular.name) { work := .callbacks m.engines.size .regular }
      ).spawnDrain (.drain slot .sleepable) (c.threadName ++ "-" ++ Kind.sleepable.name)
        { work := .callbacks m.engines.size .sleepable }
    exact ⟨h1, h2, h3, h4, h5, h6⟩
  | spawnTask name passes => exact h.spawnDrain ..
  | _ => exact ⟨h.turn, h.ready, h.nodup, h.waiters, h.nodupWaiters, h.resting⟩

theorem stop (h : Orderly m) (ht : t ∉ m.ready) (hw : ∀ d, t ∉ (m.drain d).waiters) {s : Status}
    (hs : s = .idle → (m.thread t).stack = []) (hp : ∀ p, s ≠ .ended p) :
    Orderly (m.stop t s) := by
  have hth (u : Nat) : (m.stop t s).thread u =
      if u = t then { m.thread u with status := s } else m.thread u := thread_modifyThread ..
  have hne {u : Nat} (hu : u ∈ m.ready) : u ≠ t := by
    rintro rfl
    exact ht hu
  constructor
  · intro u hu
    cases hu
  · intro u hu
    rw [hth, if_neg (hne hu)]
    exact h.ready u hu
  · exact h.nodup
  · intro d u hu
    have hut : u ≠ t := by
      rintro rfl
      exact hw d hu
    rw [hth, if_neg hut]
    exact h.waiters d u hu
  · exact h.nodupWaiters
  · intro u hu
    rw [hth] at hu ⊢
    by_cases hut : u = t
    · rw [if_pos hut] at hu ⊢
      rw [hut]
      rcases hu with hu | ⟨p, hu⟩
      · exact hs hu
      · exact absurd hu (hp p)
    · rw [if_neg hut] at hu ⊢
      exact h.resting u hu

theorem endThread (h : Orderly m) (ht : t ∉ m.ready) (hw : ∀ d, t ∉ (m.drain d).waiters)
    (p : Option Payload) : Orderly (m.endThread t p) := by
  have hb : Orderly { m.bury t p with turn := none } := by
    have hth := thread_bury m t p
    have hready : (m.bury t p).ready = m.ready := by rw [bury_eq]
    have hdrain (d : Nat) : (m.bury t p).drain d = m.drain d := by rw [bury_eq]; rfl
    constructor
    · intro u hu
      cases hu
    · intro u hu
      have hur : u ∈ m.ready := hready ▸ hu
      have hut : u ≠ t := fun hc => ht (hc ▸ hur)
      exact (congrArg Thread.status ((hth u).trans (if_neg hut))).trans (h.ready u hur)
    · exact hready ▸ h.nodup
    · intro d u hu
      have hud : u ∈ (m.drain d).waiters := hdrain d ▸ hu
      have hut : u ≠ t := fun hc => hw d (hc ▸ hud)
      exact (congrArg Thread.status ((hth u).trans (if_neg hut))).trans (h.waiters d u hud)
    · intro d
      exact (congrArg (fun x => (Drain.waiters x).Nodup) (hdrain d)).mpr (h.nodupWaiters d)
    · intro u hu
      by_cases hut : u = t
      · exact congrArg Thread.stack ((hth u).trans (if_pos hut))
      · have hsame := (hth u).trans (if_neg hut)
        refine (congrArg Thread.stack hsame).trans (h.resting u ?_)
        rw [← hsame]
        exact hu
  have hj : ∀ u ∈ (m.bury t p).joiners t, ((m.bury t p).thread u).status = .joining t :=
    fun u hu => mem_joiners.1 hu
  rw [endThread_eq, ← wakeAll_setTurn]
  refine hb.wakeAll (nodup_joiners ..) ?_ ?_
  · intro u hu ha
    have := hj u hu
    rw [show ((m.bury t p).thread u).status = .active from ha] at this
    cases this
  · intro u hu d hd
    have := hj u hu
    rw [show ((m.bury t p).thread u).status = .waiting d from hb.waiters d u hd] at this
    cases this

theorem leave (h : Orderly m) (ht : m.turn = some t) (hl : Leave t m m') : Orderly m' := by
  obtain ⟨ha, hr⟩ := h.turn t ht
  have hw := h.not_waiter (t := t) fun d hd => by rw [ha] at hd; cases hd
  cases hl with
  | idle hs => exact h.stop hr hw (fun _ => hs) nofun
  | park p => exact h.stop hr hw nofun nofun
  | waitFor d =>
    have hd : Orderly (m.done t) := h.modifyThread ha fun _ => rfl
    have hs : Orderly ((m.done t).stop t (.waiting d)) := hd.stop hr hw nofun nofun
    exact hs.addWaiter (congrArg Thread.status (thread_modifyThread_self ..)) (hw d)
  | join u =>
    have hs : Orderly (m.stop t (.joining u)) := h.stop hr hw nofun nofun
    unfold join
    dsimp only
    split
    · exact hs
    · have hth : ((m.stop t (.joining u)).thread t).status = .joining u :=
        congrArg Thread.status (thread_modifyThread_self ..)
      refine hs.wake ?_ ?_ <;> rw [hth] <;> nofun
  | endThread p => exact h.endThread hr hw p

theorem spawnActor (h : Orderly m) (i : Nat) : Orderly
    (m.spawn { name := .actor i, systemName := ThreadName.text (.actor i), status := .idle }).2 := by
  have ht (u : Nat) : (m.spawn { name := .actor i, systemName := ThreadName.text (.actor i),
                                 status := .idle }).2.thread u = if u = m.threads.size then
      { name := .actor i, systemName := ThreadName.text (.actor i), status := .idle }
      else m.thread u := Table.get_push ..
  have hne {u : Nat} {s : Status} (hu : (m.thread u).status = s) (hs : s ≠ .ended none) :
      u ≠ m.threads.size := by
    rintro rfl
    rw [thread_of_size_le (Nat.le_refl _)] at hu
    exact hs hu.symm
  constructor
  · intro u hu
    obtain ⟨ha, hr⟩ := h.turn u hu
    rw [ht, if_neg (hne ha nofun)]
    exact ⟨ha, hr⟩
  · intro u hu
    have ha := h.ready u hu
    rw [ht, if_neg (hne ha nofun)]
    exact ha
  · exact h.nodup
  · intro d u hu
    have hw := h.waiters d u hu
    rw [ht, if_neg (hne hw nofun)]
    exact hw
  · exact h.nodupWaiters
  · intro u hu
    rw [ht] at hu ⊢
    split
    · rfl
    · rename_i hus
      rw [if_neg hus] at hu
      exact h.resting u hu

theorem pick (h : Orderly m) {rest : List Nat} (hr : m.ready = t :: rest) :
    Orderly { m with turn := some t, ready := rest } := by
  have hn := h.nodup
  rw [hr] at hn
  obtain ⟨ht, hn⟩ := List.nodup_cons.1 hn
  refine ⟨fun u hu => ?_, fun u hu => ?_, hn, h.waiters, h.nodupWaiters, h.resting⟩
  · obtain rfl := Option.some.inj hu
    exact ⟨h.ready t (by rw [hr]; exact List.mem_cons_self), ht⟩
  · exact h.ready u (by rw [hr]; exact List.mem_cons_of_mem _ hu)

theorem status_setControl (m : Machine) (t : Nat) (c : Control) (u : Nat) :
    ((m.modifyThread t fun x => { x with control := c }).thread u).status =
      (m.thread u).status := part_modifyThread Thread.status m t u fun _ => rfl

theorem stack_setControl (m : Machine) (t : Nat) (c : Control) (u : Nat) :
    ((m.modifyThread t fun x => { x with control := c }).thread u).stack =
      (m.thread u).stack := part_modifyThread Thread.stack m t u fun _ => rfl

theorem steer (h : Orderly m) (hs : (m.thread t).status ≠ .active)
    (hw : ∀ d, (m.thread t).status ≠ .waiting d) (c : Control) :
    Orderly ((m.modifyThread t fun x => { x with control := c }).wake t) := by
  have hc : Orderly (m.modifyThread t fun x => { x with control := c }) :=
    h.same rfl rfl (status_setControl m t c) (fun _ => rfl) fun u _ => stack_setControl m t c u
  refine hc.wake ?_ ?_
  · rw [status_setControl]
    exact hs
  · rw [status_setControl]
    exact hw

theorem status_of_isParked (h : m.isParked t = true) : ∃ p, (m.thread t).status = .parked p := by
  unfold isParked at h
  split at h
  · rename_i p hp
    exact ⟨p, hp⟩
  · cases h

theorem status_of_isIdle (h : m.isIdle t = true) : (m.thread t).status = .idle := by
  unfold isIdle at h
  split at h
  · assumption
  · cases h

theorem external (h : Orderly m) (hc : External m m') : Orderly m' := by
  cases hc with
  | actor _ i => exact h.spawnActor i
  | resume hp =>
    obtain ⟨p, hs⟩ := status_of_isParked hp
    refine h.wake ?_ ?_ <;> rw [hs] <;> nofun
  | fault hp text =>
    obtain ⟨p, hs⟩ := status_of_isParked hp
    refine h.steer ?_ ?_ _ <;> rw [hs] <;> nofun
  | instruct hi op =>
    have hs := status_of_isIdle hi
    refine h.steer ?_ ?_ _ <;> rw [hs] <;> nofun
  | exit hi =>
    have hs := status_of_isIdle hi
    refine h.endThread (h.not_ready ?_) (h.not_waiter ?_) none <;> rw [hs] <;> nofun

theorem change (h : Orderly m) (hc : Change m m') : Orderly m' := by
  cases hc with
  | move ht hm => exact h.move ht hm
  | leave ht hl => exact h.leave ht hl
  | pick hn hr => exact h.pick hr
  | external hc => exact h.external hc

end Orderly

theorem Externals.preserves {m m' : Machine} {P : Machine → Prop}
    (hP : ∀ n n', Orderly n → External n n' → P n → P n') (h : Externals m m') (ho : Orderly m)
    (hm : P m) : P m' := by
  have hboth : Orderly m' ∧ P m' := by
    induction h with
    | refl => exact ⟨ho, hm⟩
    | tail _ hs ih => exact ⟨ih.1.external hs, hP _ _ ih.1 hs ih.2⟩
  exact hboth.2

theorem new_eq {workers : List Nat} {host : Nat} {m : Machine} (h : Machine.new workers host = .ok m) :
    ∃ cs : List Scheduler, workers.mapM Scheduler.new = .ok cs ∧
      m = { schedulers := ⟨cs⟩, named := workers.length, hostWorkers := host } := by
  unfold Machine.new at h
  cases hc : workers.mapM Scheduler.new with
  | error f => rw [hc] at h; cases h
  | ok cs =>
    rw [hc] at h
    exact ⟨cs, rfl, (Except.ok.inj h).symm⟩

theorem Visited.orderly {m : Machine} (h : Visited m) : Orderly m := by
  refine h.induction (fun workers host m hm => ?_) fun _ _ h hc => h.change hc
  obtain ⟨cs, -, rfl⟩ := new_eq hm
  have ht (t : Nat) : Machine.thread { schedulers := ⟨cs⟩, named := workers.length,
                                       hostWorkers := host } t = default := Table.get_empty t
  have hd (d : Nat) : (Machine.drain { schedulers := ⟨cs⟩, named := workers.length,
                                       hostWorkers := host } d).waiters = [] :=
    congrArg Drain.waiters (Table.get_empty d)
  refine ⟨nofun, nofun, List.nodup_nil, fun d t h => ?_, fun d => ?_, fun t _ => ?_⟩
  · rw [hd] at h
    cases h
  · rw [hd]
    exact List.nodup_nil
  · rw [ht]
    rfl

end GracePeriod.Machine
