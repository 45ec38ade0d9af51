import GracePeriod.Proofs.DrainService

namespace GracePeriod.Machine

variable {scope : Scope} {m m' m'' : Machine} {t u : Nat}

theorem lt_threads_size (h : (m.thread t).status ≠ .ended none) : t < m.threads.size := by
  refine Nat.lt_of_not_le fun hle => h ?_
  rw [thread_of_size_le hle]
  rfl

theorem Orderly.lt_size (h : Orderly m) (ht : m.turn = some t) : t < m.threads.size := by
  refine lt_threads_size fun hc => ?_
  rw [(h.turn t ht).1] at hc
  cases hc

/-- Thread `u` is where it was, or it is a drain thread that has just been started. -/
inductive Unmoved (u : Nat) (m m' : Machine) : Prop
  | same (hs : (m'.thread u).stack = (m.thread u).stack)
      (hc : (m'.thread u).control = (m.thread u).control)
  | started (h : m.threads.size ≤ u) (d : Nat) (hd : d < m'.drains.size)
      (ht : (m'.drain d).thread = u) (hs : (m'.thread u).stack = [.worker d none])
      (hc : (m'.thread u).control = .back (.ok .unit))

namespace Unmoved

theorem refl (u : Nat) (m : Machine) : Unmoved u m m := .same rfl rfl

theorem trans (h : Unmoved u m m') (hle : m.threads.size ≤ m'.threads.size) (hk : Kept m' m'')
    (h' : Unmoved u m' m'') : Unmoved u m m'' := by
  cases h' with
  | started hu d hd ht hs hc => exact .started (hle.trans hu) d hd ht hs hc
  | same hs hc =>
    cases h with
    | same hs' hc' => exact .same (hs.trans hs') (hc.trans hc')
    | started hu d hd ht hs' hc' =>
      exact .started hu d (Nat.lt_of_lt_of_le hd hk.size) ((hk.same d hd).2.trans ht)
        (hs.trans hs') (hc.trans hc')

theorem modifyThread (m : Machine) (f : Thread → Thread) (hu : u ≠ t) :
    Unmoved u m (m.modifyThread t f) := by
  have h := thread_modifyThread_ne m f hu
  exact .same (congrArg Thread.stack h) (congrArg Thread.control h)

theorem spawnDrain (m : Machine) (name : ThreadName) (systemName : String) (x : Drain) (u : Nat) :
    Unmoved u m (m.spawnDrain name systemName x).2 := by
  have h := thread_spawnDrain m name systemName x u
  by_cases hu : u = m.threads.size
  · rw [if_pos hu] at h
    refine .started (Nat.le_of_eq hu.symm) m.drains.size ?_ ?_ (congrArg Thread.stack h)
      (congrArg Thread.control h)
    · exact (Nat.lt_succ_self _).trans_eq (Table.size_push ..).symm
    · rw [drain_spawnDrain, if_pos rfl, hu]
  · rw [if_neg hu] at h
    exact .same (congrArg Thread.stack h) (congrArg Thread.control h)

end Unmoved

theorem Move.unmoved (h : Move scope t m m') (hu : u ≠ t) : Unmoved u m m' := by
  cases h with
  | control c | push f hf | stack fs hs => exact .modifyThread m _ hu
  | enroll s =>
    exact .same (part_enroll Thread.stack (fun _ _ => rfl) m t s u)
      (part_enroll Thread.control (fun _ _ => rfl) m t s u)
  | notify d =>
    exact .same (part_notify Thread.stack (fun _ _ => rfl) m d u)
      (part_notify Thread.control (fun _ _ => rfl) m d u)
  | openSection e k hs =>
    have hi := Inside.openSection m t e k
    exact .same (hi.part Thread.stack (fun _ _ => rfl) u) (hi.part Thread.control (fun _ _ => rfl) u)
  | closeSection e k =>
    have hi := Inside.closeSection m t e k
    exact .same (hi.part Thread.stack (fun _ _ => rfl) u) (hi.part Thread.control (fun _ _ => rfl) u)
  | spawnTask name passes => exact .spawnDrain ..
  | startEngine slot c p hc =>
    have h1 : Unmoved u m (m.startFirst slot c) := .spawnDrain ..
    have h2 : Unmoved u (m.startFirst slot c) (m.startSecond slot c) := .spawnDrain ..
    have hle : m.threads.size ≤ (m.startFirst slot c).threads.size := by
      simp [startFirst, Machine.spawnDrain, spawn]
    cases h1.trans hle (.spawnDrain ..) h2 with
    | same hs hc => exact .same hs hc
    | started hu d hd ht hs hc => exact .started hu d hd ht hs hc
  | _ => exact .same rfl rfl

theorem Moves.unmoved (h : Moves scope t m m') (hu : u ≠ t) : Unmoved u m m' := by
  induction h with
  | refl => exact .refl ..
  | tail h hm ih => exact ih.trans (Moves.threads_le h) hm.kept (hm.unmoved hu)

theorem Leave.part_ne {β : Type} (p : Thread → β) (hs : ∀ x s, p { x with status := s } = p x)
    (h : Leave t m m') (hu : u ≠ t) : p (m'.thread u) = p (m.thread u) := by
  cases h with
  | idle _ | park _ => exact part_modifyThread p m t u fun x => hs x _
  | waitFor d =>
    exact (part_modifyThread p ((m.done t).modifyDrain d _) t u fun x => hs x _).trans
      (congrArg p (thread_modifyThread_ne m _ hu))
  | join v => exact part_join p hs m t v u
  | endThread q =>
    rcases thread_endThread_ne m hu q with h | ⟨-, h⟩
    · rw [h]
    · rw [h]
      exact hs ..

theorem Leave.unmoved (h : Leave t m m') (hu : u ≠ t) : Unmoved u m m' :=
  .same (h.part_ne Thread.stack (fun _ _ => rfl) hu) (h.part_ne Thread.control (fun _ _ => rfl) hu)

theorem Move.stack_eq (h : Move scope t m m') (hs : scope ≠ .all) (ht : t < m.threads.size) :
    ∃ fs, (m'.thread t).stack = fs ++ (m.thread t).stack ∧ ∀ f ∈ fs, scope.pushes f = true := by
  have hsame {m' : Machine} (h : (m'.thread t).stack = (m.thread t).stack) :
      ∃ fs, (m'.thread t).stack = fs ++ (m.thread t).stack ∧ ∀ f ∈ fs, scope.pushes f = true :=
    ⟨[], h, nofun⟩
  have hspawn (m : Machine) (ht : t < m.threads.size) (name : ThreadName) (systemName : String)
      (x : Drain) : (m.spawnDrain name systemName x).2.thread t = m.thread t :=
    (thread_spawnDrain ..).trans (if_neg (Nat.ne_of_lt ht))
  cases h with
  | control c => exact hsame (part_modifyThread Thread.stack m t t fun _ => rfl)
  | push f hf =>
    refine ⟨[f], congrArg Thread.stack (thread_modifyThread_self m t _), fun g hg => ?_⟩
    rw [List.mem_singleton.1 hg]
    exact hf
  | stack fs hs' => exact absurd hs' hs
  | enroll s => exact hsame (part_enroll Thread.stack (fun _ _ => rfl) m t s t)
  | notify d => exact hsame (part_notify Thread.stack (fun _ _ => rfl) m d t)
  | openSection e k h =>
    exact hsame ((Inside.openSection m t e k).part Thread.stack (fun _ _ => rfl) t)
  | closeSection e k =>
    exact hsame ((Inside.closeSection m t e k).part Thread.stack (fun _ _ => rfl) t)
  | spawnTask name passes => exact hsame (congrArg Thread.stack (hspawn m ht ..))
  | startEngine slot c p hc =>
    have hlt : t < (m.startFirst slot c).threads.size := by
      simp only [startFirst, Machine.spawnDrain, spawn, Table.size_push]
      omega
    have h2 : (m.startSecond slot c).thread t = (m.startFirst slot c).thread t := hspawn _ hlt ..
    exact hsame (congrArg Thread.stack (h2.trans (hspawn m ht ..)))
  | _ => exact hsame rfl

theorem Moves.stack_eq (h : Moves scope t m m') (hs : scope ≠ .all) (ht : t < m.threads.size) :
    ∃ fs, (m'.thread t).stack = fs ++ (m.thread t).stack ∧ ∀ f ∈ fs, scope.pushes f = true := by
  induction h with
  | refl => exact ⟨[], rfl, nofun⟩
  | tail h hm ih =>
    obtain ⟨fs, hfs, hp⟩ := ih
    obtain ⟨gs, hgs, hq⟩ := hm.stack_eq hs (Nat.lt_of_lt_of_le ht (Moves.threads_le h))
    refine ⟨gs ++ fs, by rw [hgs, hfs, List.append_assoc], fun f hf => ?_⟩
    exact (List.mem_append.1 hf).elim (hq f) (hp f)

theorem stack_endThread (m : Machine) (t : Nat) (p : Option Payload) :
    ((m.endThread t p).thread t).stack = [] := congrArg Thread.stack (thread_endThread_self m t p)

theorem Leave.stack_eq (h : Leave t m m') :
    (m'.thread t).stack = (m.thread t).stack ∨ (m'.thread t).stack = [] := by
  cases h with
  | idle hs | park p => exact .inl (part_modifyThread Thread.stack m t t fun _ => rfl)
  | waitFor d =>
    have hd : ((m.done t).thread t).stack = (m.thread t).stack :=
      part_modifyThread Thread.stack m t t fun _ => rfl
    exact .inl ((part_modifyThread Thread.stack ((m.done t).modifyDrain d _) t t
      (f := fun x => { x with status := .waiting d }) fun _ => rfl).trans hd)
  | join v => exact .inl (part_join Thread.stack (fun _ _ => rfl) m t v t)
  | endThread p => exact .inr (stack_endThread ..)

def Ended (m : Machine) (u : Nat) : Prop := ∃ p, (m.thread u).status = .ended p

theorem status_endThread_self (m : Machine) (t : Nat) (p : Option Payload) :
    ((m.endThread t p).thread t).status = .ended p :=
  congrArg Thread.status (thread_endThread_self m t p)

theorem ended_endThread (m : Machine) (t : Nat) (p : Option Payload) : (m.endThread t p).Ended t :=
  ⟨p, status_endThread_self m t p⟩

variable {q : Option Payload} {s : Status}

theorem status_endThread_cases (m : Machine) (t : Nat) (p : Option Payload) (u : Nat) :
    ((m.endThread t p).thread u).status = (m.thread u).status ∨
    u = t ∧ ((m.endThread t p).thread u).status = .ended p ∨
    (m.thread u).status = .joining t ∧ ((m.endThread t p).thread u).status = .active := by
  by_cases hu : u = t
  · rw [hu]
    exact .inr (.inl ⟨rfl, status_endThread_self m t p⟩)
  · rcases thread_endThread_ne m hu p with h | ⟨hj, h⟩
    · exact .inl (congrArg Thread.status h)
    · exact .inr (.inr ⟨hj, congrArg Thread.status h⟩)

theorem status_endThread (h : (m.thread u).status = s) (hu : u ≠ t) (hj : s ≠ .joining t)
    (p : Option Payload) : ((m.endThread t p).thread u).status = s := by
  rcases status_endThread_cases m t p u with hs | ⟨hut, -⟩ | ⟨hjoin, -⟩
  · exact hs.trans h
  · exact absurd hut hu
  · exact absurd (h.symm.trans hjoin) hj

theorem Move.status (hm : Move scope t m m') (ho : Orderly m) (hs : u < m.threads.size)
    (h : (m.thread u).status = s) (hn : ∀ d, s ≠ .waiting d) : (m'.thread u).status = s := by
  have hsame {m' : Machine} (he : (m'.thread u).status = (m.thread u).status) :
      (m'.thread u).status = s := he.trans h
  cases hm with
  | control c | push f hf | stack fs hs' =>
    exact hsame (part_modifyThread Thread.status m t u fun _ => rfl)
  | enroll c => exact hsame (part_enroll Thread.status (fun _ _ => rfl) m t c u)
  | notify d =>
    refine hsame (congrArg Thread.status ((thread_notify m d u).trans (if_neg fun hw => ?_)))
    exact hn d (h.symm.trans (ho.waiters d u hw))
  | openSection e k h' =>
    exact hsame ((Inside.openSection m t e k).part Thread.status (fun _ _ => rfl) u)
  | closeSection e k =>
    exact hsame ((Inside.closeSection m t e k).part Thread.status (fun _ _ => rfl) u)
  | spawnTask name passes =>
    exact hsame (congrArg Thread.status ((thread_spawnDrain ..).trans (if_neg (Nat.ne_of_lt hs))))
  | startEngine slot c p hc =>
    have h1 : (m.startFirst slot c).thread u = m.thread u :=
      (thread_spawnDrain ..).trans (if_neg (Nat.ne_of_lt hs))
    have hlt : u < (m.startFirst slot c).threads.size := by
      simp only [startFirst, spawnDrain, spawn, Table.size_push]
      omega
    have h2 : (m.startSecond slot c).thread u = (m.startFirst slot c).thread u :=
      (thread_spawnDrain ..).trans (if_neg (Nat.ne_of_lt hlt))
    exact hsame (congrArg Thread.status (h2.trans h1))
  | _ => exact h

theorem Leave.status (hl : Leave t m m') (hu : u ≠ t) (h : (m.thread u).status = s) :
    (m'.thread u).status = s ∨ s = .joining t ∧ m'.Ended t := by
  cases hl with
  | idle _ | park _ => exact .inl ((congrArg Thread.status (thread_modifyThread_ne m _ hu)).trans h)
  | waitFor d =>
    exact .inl ((congrArg Thread.status ((thread_modifyThread_ne ((m.done t).modifyDrain d _)
      (fun x => { x with status := .waiting d }) hu).trans (thread_modifyThread_ne m _ hu))).trans h)
  | join v =>
    have hs := thread_modifyThread_ne m (fun x => { x with status := .joining v }) hu
    refine .inl ((congrArg Thread.status ?_).trans h)
    unfold Machine.join
    dsimp only
    split
    · exact hs
    · exact (thread_modifyThread_ne (m.stop t _) _ hu).trans hs
  | endThread p =>
    by_cases hj : s = .joining t
    · exact .inr ⟨hj, ended_endThread ..⟩
    · exact .inl (status_endThread h hu hj p)

theorem External.status_cases (he : External m m') (u : Nat) :
    (m'.thread u).status = (m.thread u).status ∨
    m.threads.size ≤ u ∧ (m'.thread u).status = .idle ∨
    (m.isParked u = true ∨ m.isIdle u = true ∨ ∃ v, (m.thread u).status = .joining v ∧ m'.Ended v) ∧
      (m'.thread u).status = .active ∨
    (m.thread u).status = .idle ∧ (m'.thread u).status = .ended none := by
  have hwake {n : Machine} {t : Nat} (hn : (n.thread u).status = (m.thread u).status) :
      ((n.wake t).thread u).status = (m.thread u).status ∨
        u = t ∧ ((n.wake t).thread u).status = .active := by
    rw [show (n.wake t).thread u = _ from thread_modifyThread ..]
    split
    · exact .inr ⟨‹_›, rfl⟩
    · exact .inl hn
  cases he with
  | actor _ i =>
    have ht : (m.spawn { name := .actor i, systemName := ThreadName.text (.actor i),
                         status := .idle }).2.thread u = if u = m.threads.size then
        { name := .actor i, systemName := ThreadName.text (.actor i), status := .idle }
        else m.thread u := Table.get_push ..
    rw [ht]
    split
    · rename_i hu
      exact .inr (.inl ⟨Nat.le_of_eq hu.symm, rfl⟩)
    · exact .inl rfl
  | resume h =>
    exact (hwake rfl).imp_right fun ⟨hu, hs⟩ => .inr (.inl ⟨.inl (hu ▸ h), hs⟩)
  | @fault t _ h text =>
    have hback : ((m.back t (.error (.text text))).thread u).status = (m.thread u).status :=
      part_modifyThread Thread.status m t u fun _ => rfl
    exact (hwake hback).imp_right fun ⟨hu, hs⟩ => .inr (.inl ⟨.inl (hu ▸ h), hs⟩)
  | @instruct t _ h op =>
    exact (hwake (Orderly.status_setControl m t (.eval none op) u)).imp_right fun ⟨hu, hs⟩ =>
      .inr (.inl ⟨.inr (.inl (hu ▸ h)), hs⟩)
  | @exit t _ h =>
    rcases status_endThread_cases m t none u with hs | ⟨rfl, hs⟩ | ⟨hj, hs⟩
    · exact .inl hs
    · exact .inr (.inr (.inr ⟨Orderly.status_of_isIdle h, hs⟩))
    · exact .inr (.inr (.inl ⟨.inr (.inr ⟨t, hj, ended_endThread ..⟩), hs⟩))

theorem External.status (he : External m m') (hs : u < m.threads.size)
    (h : (m.thread u).status = s) (hp : ∀ p, s ≠ .parked p) (hi : s ≠ .idle) :
    (m'.thread u).status = s ∨ ∃ v, s = .joining v ∧ m'.Ended v := by
  subst h
  rcases he.status_cases u with h | ⟨hle, -⟩ | ⟨hpark | hidle | hj, -⟩ | ⟨hidle, -⟩
  · exact .inl h
  · exact absurd hs (Nat.not_lt.2 hle)
  · obtain ⟨p, hq⟩ := Orderly.status_of_isParked hpark
    exact absurd hq (hp p)
  · exact absurd (Orderly.status_of_isIdle hidle) hi
  · exact .inr hj
  · exact absurd hidle hi

theorem External.ended (he : External m m') (hs : u < m.threads.size)
    (h : (m.thread u).status = .ended q) : (m'.thread u).status = .ended q := by
  rcases he.status hs h nofun nofun with h | ⟨v, hv, -⟩
  · exact h
  · cases hv

/-- Who waits for the end of another thread, goes on when that has ended, and a thread never comes back
from its own end. -/
theorem Change.status (hc : Change m m') (ho : Orderly m) (hs : u < m.threads.size)
    (hr : (∃ v, s = .joining v) ∨ ∃ q, s = .ended q) (h : (m.thread u).status = s) :
    (m'.thread u).status = s ∨ ∃ v, s = .joining v ∧ m'.Ended v := by
  have hne {s' : Status} (hj : ∀ v, s' ≠ .joining v) (he : ∀ q, s' ≠ .ended q) : s ≠ s' := by
    rintro rfl
    rcases hr with ⟨v, hv⟩ | ⟨q, hq⟩
    · exact hj v hv
    · exact he q hq
  cases hc with
  | move ht hm => exact .inl (hm.status ho hs h fun d => hne nofun nofun)
  | @leave t _ _ ht hl =>
    have hu : u ≠ t := by
      rintro rfl
      have ha : s ≠ .active := hne nofun nofun
      exact ha (h.symm.trans (ho.turn u ht).1)
    exact (hl.status hu h).imp_right fun hj => ⟨t, hj⟩
  | pick hn hr => exact .inl h
  | external he => exact he.status hs h (fun p => hne nofun nofun) (hne nofun nofun)

theorem Change.ended (hc : Change m m') (ho : Orderly m) (hs : u < m.threads.size)
    (h : (m.thread u).status = .ended q) : (m'.thread u).status = .ended q := by
  rcases hc.status ho hs (.inr ⟨q, rfl⟩) h with h | ⟨v, hv, -⟩
  · exact h
  · cases hv

theorem Ended.change (h : m.Ended u) (ho : Orderly m) (hs : u < m.threads.size)
    (hc : Change m m') : m'.Ended u := by
  obtain ⟨p, hp⟩ := h
  exact ⟨p, hc.ended ho hs hp⟩

theorem Changes.ended (hc : Changes m m') (ho : Orderly m) (hs : u < m.threads.size)
    (h : (m.thread u).status = .ended q) : (m'.thread u).status = .ended q := by
  have hall := hc.preserves (P := fun m => Orderly m ∧ u < m.threads.size ∧
    (m.thread u).status = .ended q) (fun _ _ hp hx => ⟨hp.1.change hx,
      Nat.lt_of_lt_of_le hp.2.1 hx.threads_le, hx.ended hp.1 hp.2.1 hp.2.2⟩) ⟨ho, hs, h⟩
  exact hall.2.2

theorem External.posture (h : External m m') (ho : Orderly m) (hu : (m.thread u).stack ≠ []) :
    (m'.thread u).stack = (m.thread u).stack ∧
      ((m'.thread u).control = (m.thread u).control ∨
        ∃ p, (m'.thread u).control = .back (.error p)) := by
  have hidle {t : Nat} (h : m.isIdle t = true) : u ≠ t := by
    rintro rfl
    exact hu (ho.resting u (.inl (Orderly.status_of_isIdle h)))
  cases h with
  | actor _ i =>
    have ht : (m.spawn { name := .actor i, systemName := ThreadName.text (.actor i),
                         status := .idle }).2.thread u = if u = m.threads.size then
        { name := .actor i, systemName := ThreadName.text (.actor i), status := .idle }
        else m.thread u := Table.get_push ..
    have hne : u ≠ m.threads.size := by
      rintro rfl
      exact hu (congrArg Thread.stack (thread_of_size_le (Nat.le_refl _)))
    rw [ht, if_neg hne]
    exact ⟨rfl, .inl rfl⟩
  | @resume t _ h =>
    exact ⟨part_wake Thread.stack (fun _ _ => rfl) m t u,
      .inl (part_wake Thread.control (fun _ _ => rfl) m t u)⟩
  | @fault t _ h text =>
    refine ⟨(part_wake Thread.stack (fun _ _ => rfl) _ t u).trans (stack_back ..), ?_⟩
    have hw := part_wake Thread.control (fun _ _ => rfl) (m.back t (.error (.text text))) t u
    by_cases hut : u = t
    · rw [hut] at hw ⊢
      exact .inr ⟨_, hw.trans (control_back ..)⟩
    · exact .inl (hw.trans (congrArg Thread.control (thread_modifyThread_ne m _ hut)))
  | @instruct t _ h op =>
    have he : (m.eval t none op).thread u = m.thread u := thread_modifyThread_ne m _ (hidle h)
    have hw {β : Type} (p : Thread → β) (hs : ∀ x s, p { x with status := s } = p x) :=
      (part_wake p hs (m.eval t none op) t u).trans (congrArg p he)
    exact ⟨hw Thread.stack fun _ _ => rfl, .inl (hw Thread.control fun _ _ => rfl)⟩
  | @exit t _ h =>
    have hl : Leave t m (m.endThread t none) := .endThread m none
    exact ⟨hl.part_ne Thread.stack (fun _ _ => rfl) (hidle h),
      .inl (hl.part_ne Thread.control (fun _ _ => rfl) (hidle h))⟩

theorem External.stack_eq_nil (h : External m m') (hu : (m.thread u).stack = []) :
    (m'.thread u).stack = [] := by
  have hwake (m : Machine) (t : Nat) := part_wake Thread.stack (fun _ _ => rfl) m t u
  cases h with
  | actor _ i =>
    refine (congrArg Thread.stack (Table.get_push ..)).trans ?_
    split
    · rfl
    · exact hu
  | @resume t _ h => exact (hwake m t).trans hu
  | @fault t _ h text => exact ((hwake _ t).trans (stack_back ..)).trans hu
  | @instruct t _ h op =>
    exact ((hwake (m.eval t none op) t).trans (Orderly.stack_setControl ..)).trans hu
  | @exit t _ h =>
    by_cases hut : u = t
    · rw [hut]
      exact stack_endThread ..
    · have hl : Leave t m (m.endThread t none) := .endThread m none
      exact (hl.part_ne Thread.stack (fun _ _ => rfl) hut).trans hu

end GracePeriod.Machine
