import GracePeriod.Proofs.ThreadFrames
import GracePeriod.Proofs.SectionMoves

namespace GracePeriod

def Mark.isRun : Mark → Bool
  | .callbackStarted _ | .callbackEnded => true
  | _ => false

namespace History

/-- The callbacks that have been enqueued, oldest first. -/
def queued : History → List Callback
  | [] => []
  | (_, .queued c) :: h => queued h ++ [c]
  | _ :: h => queued h

/-- The callbacks that have started, oldest first. -/
def started : History → List Callback
  | [] => []
  | (_, .callbackStarted c) :: h => started h ++ [c]
  | _ :: h => started h

def underway (t : Nat) : History → Option Callback
  | [] => none
  | (u, .callbackStarted c) :: h => if u = t then some c else underway t h
  | (u, .callbackEnded) :: h => if u = t then none else underway t h
  | _ :: h => underway t h

/-- The callbacks that have come to their end, by a return or by a panic that was caught, in the order
of their ends. -/
def finished : History → List Callback
  | [] => []
  | (t, .callbackEnded) :: h => finished h ++ (underway t h).toList
  | _ :: h => finished h

variable {vs h : History} {t : Nat} {v : Mark}

theorem queued_append : queued (vs ++ h) = queued h ++ queued vs := by
  induction vs with
  | nil => exact (List.append_nil _).symm
  | cons p vs ih =>
    obtain ⟨t, v⟩ := p
    cases v with
    | queued c => simp only [List.cons_append, queued, ih, List.append_assoc]
    | _ => exact ih

theorem run_append (hv : ∀ p ∈ vs, p.2.isRun = false) :
    started (vs ++ h) = started h ∧ finished (vs ++ h) = finished h ∧
      ∀ t, underway t (vs ++ h) = underway t h := by
  induction vs with
  | nil => exact ⟨rfl, rfl, fun _ => rfl⟩
  | cons p vs ih =>
    have hp := hv p List.mem_cons_self
    have hi := ih fun q hq => hv q (List.mem_cons_of_mem _ hq)
    obtain ⟨t, v⟩ := p
    cases v with
    | callbackStarted c | callbackEnded => cases hp
    | _ => exact hi

end History

open History

namespace Machine

variable {scope : Scope} {top : Option Frame} {m m' m'' : Machine} {t e : Nat} {k : Kind}

def queue (m : Machine) (e : Nat) (k : Kind) : List Callback := (m.engine e).queue k

/-- Nothing has happened about callbacks but that some have been enqueued; and no tickets have been
completed, though there may be new drain tasks. -/
structure Filed (e : Nat) (k : Kind) (m m' : Machine) : Prop where
  marks : ∃ vs, m'.history e k = vs ++ m.history e k ∧ (∀ p ∈ vs, p.2.isRun = false) ∧
    m'.queue e k = m.queue e k ++ queued vs
  tickets : ∀ d, m'.Serves d e k → (m'.drain d).tickets.completed = 0 ∨
    m.Serves d e k ∧ (m'.drain d).tickets.completed = (m.drain d).tickets.completed

namespace Filed

theorem of_parts (vs : History) (hh : m'.history e k = vs ++ m.history e k)
    (hv : ∀ p ∈ vs, p.2.isRun = false) (hq : m'.queue e k = m.queue e k ++ queued vs)
    (hd : ∀ d, (m'.drain d).work = (m.drain d).work ∧
      (m'.drain d).tickets.completed = (m.drain d).tickets.completed) : Filed e k m m' :=
  ⟨⟨vs, hh, hv, hq⟩, fun d hs => .inr ⟨(hd d).1.symm.trans hs, (hd d).2⟩⟩

theorem same (hh : m'.history e k = m.history e k) (hq : m'.queue e k = m.queue e k)
    (hd : ∀ d, (m'.drain d).work = (m.drain d).work ∧
      (m'.drain d).tickets.completed = (m.drain d).tickets.completed) : Filed e k m m' :=
  .of_parts [] hh nofun (by rw [hq]; exact (List.append_nil _).symm) hd

theorem trans (h : Filed e k m m') (h' : Filed e k m' m'') : Filed e k m m'' := by
  obtain ⟨vs, hh, hv, hq⟩ := h.marks
  obtain ⟨vs', hh', hv', hq'⟩ := h'.marks
  refine ⟨⟨vs' ++ vs, by rw [hh', hh, List.append_assoc], fun p hp => ?_, ?_⟩, fun d hd => ?_⟩
  · exact (List.mem_append.1 hp).elim (hv' p) (hv p)
  · rw [hq', hq, queued_append, List.append_assoc]
  · rcases h'.tickets d hd with hz | ⟨hd', hc'⟩
    · exact .inl hz
    · rw [hc']
      exact h.tickets d hd'

theorem mark (m : Machine) (t e' : Nat) (k' : Kind) {v : Mark} (hq : ∀ c, v ≠ .queued c)
    (hv : e' = e → k' = k → v.isRun = false) : Filed e k m (m.mark t e' k' v) := by
  by_cases hk : e' = e ∧ k' = k
  · obtain ⟨rfl, rfl⟩ := hk
    refine .of_parts [(t, v)] history_mark_self (fun p hp => ?_) ?_ fun _ => ⟨rfl, rfl⟩
    · rw [List.mem_singleton.1 hp]
      exact hv rfl rfl
    · cases v with
      | queued c => exact absurd rfl (hq c)
      | _ => exact (List.append_nil _).symm
  · exact .same (history_mark_ne hk) rfl fun _ => ⟨rfl, rfl⟩

theorem modifyEngine (m : Machine) (e' : Nat) {f : Engine → Engine}
    (hf : ∀ x, (f x).queues = x.queues) : Filed e k m (m.modifyEngine e' f) := by
  refine .same rfl ?_ fun _ => ⟨rfl, rfl⟩
  exact congrArg (PerKind.get · k) (part_modifyEngine Engine.queues m e' e hf)

theorem modifyDrain (m : Machine) (d : Nat) {f : Drain → Drain}
    (hf : ∀ x, (f x).work = x.work ∧ (f x).tickets.completed = x.tickets.completed) :
    Filed e k m (m.modifyDrain d f) :=
  .same rfl rfl fun d' => ⟨part_modifyDrain Drain.work m d d' fun x => (hf x).1,
    part_modifyDrain (fun x => x.tickets.completed) m d d' fun x => (hf x).2⟩

theorem notify (m : Machine) (d : Nat) : Filed e k m (m.notify d) := by
  refine .same ?_ ?_ fun d' => ⟨part_drain_notify Drain.work (fun _ _ => rfl) m d d',
    part_drain_notify (fun x => x.tickets.completed) (fun _ _ => rfl) m d d'⟩
  · rw [notify_eq]
    rfl
  · rw [notify_eq]
    rfl

theorem requestPass (m : Machine) (d : Nat) : Filed e k m (m.requestPass d) :=
  (modifyDrain m d (f := fun x => { x with tickets := x.tickets.request })
    fun _ => ⟨rfl, rfl⟩).trans (.notify _ d)

theorem spawnDrain (m : Machine) (name : ThreadName) (systemName : String) {x : Drain}
    (hx : x.tickets.completed = 0) : Filed e k m (m.spawnDrain name systemName x).2 := by
  refine ⟨⟨[], rfl, nofun, (List.append_nil _).symm⟩, fun d hd => ?_⟩
  rcases hd.of_spawnDrain with ⟨hdd, -⟩ | ⟨hdd, hd⟩
  · rw [drain_spawnDrain, if_pos hdd]
    exact .inl hx
  · rw [drain_spawnDrain, if_neg hdd]
    exact .inr ⟨hd, rfl⟩

theorem keepsEngines (h : KeepsEngines m m') (hd : ∀ d, (m'.drain d).work = (m.drain d).work ∧
    (m'.drain d).tickets = (m.drain d).tickets) (e : Nat) (k : Kind) : Filed e k m m' :=
  .same (h.history e k) (by rw [queue, engine, h.engines]; rfl) fun d =>
    ⟨(hd d).1, congrArg Tickets.completed (hd d).2⟩

end Filed

theorem queue_setQueue (m : Machine) (e' e : Nat) (k' k : Kind) (f : Engine → List Callback) :
    (m.modifyEngine e' fun x => x.setQueue k' (f x)).queue e k =
      if e = e' ∧ k = k' then f (m.engine e) else m.queue e k := by
  rw [queue, engine_modifyEngine]
  by_cases he : e = e'
  · rw [if_pos he]
    refine (PerKind.get_set ..).trans ?_
    by_cases hk : k = k'
    · rw [if_pos hk, if_pos ⟨he, hk⟩]
    · rw [if_neg hk, if_neg fun hc => hk hc.2]
      rfl
  · rw [if_neg he, if_neg fun hc => he hc.1]
    rfl

theorem Inside.quiet (h : Inside t m m') (e : Nat) (k : Kind) : ∃ vs,
    m'.history e k = vs ++ m.history e k ∧ (∀ p ∈ vs, p.2.isRun = false) ∧ queued vs = [] := by
  obtain ⟨vs, hh, hv⟩ := h.marks e k
  refine ⟨vs, hh, ?_⟩
  clear hh
  induction vs with
  | nil => exact ⟨nofun, rfl⟩
  | cons p vs ih =>
    have hp := (hv p List.mem_cons_self).2
    obtain ⟨hr, hq⟩ := ih fun q hq => hv q (List.mem_cons_of_mem _ hq)
    obtain ⟨t, v⟩ := p
    refine ⟨fun q hq => ?_, ?_⟩
    · rcases List.mem_cons.1 hq with rfl | hq
      · cases v <;> first | rfl | cases hp
      · exact hr q hq
    · cases v <;> first | exact hq | cases hp

theorem Inside.filed (h : Inside t m m') (e : Nat) (k : Kind) : Filed e k m m' := by
  obtain ⟨vs, hh, hv, hq⟩ := h.quiet e k
  have hdrain (d : Nat) : m'.drain d = m.drain d := congrArg (Table.get · d) h.drains
  refine .of_parts _ hh hv ?_ fun d => by rw [hdrain]; exact ⟨rfl, rfl⟩
  obtain ⟨ds, hd⟩ := h.engine e
  rw [queue, hd, hq, List.append_nil]
  rfl

theorem Action.filed (h : Action scope t m m') (hs : scope.serves e k = false) : Filed e k m m' := by
  cases h with
  | mark e' k' v hv hb =>
    refine .mark m t e' k' ?_ ?_
    · rintro c rfl
      cases hv
    · rintro rfl rfl
      cases v with
      | callbackStarted c | callbackEnded => exact nomatch hs.symm.trans hv
      | _ => rfl
  | openSection e' k' h => exact (Inside.openSection m t e' k').filed e k
  | closeSection e' k' => exact (Inside.closeSection m t e' k').filed e k
  | enqueue e' k' c hk =>
    refine .trans ?_ (.requestPass _ _)
    have hq := queue_setQueue m e' e k' k fun x => x.queue k' ++ [c]
    by_cases hk : e' = e ∧ k' = k
    · obtain ⟨rfl, rfl⟩ := hk
      exact .of_parts [(t, .queued c)] history_mark_self (by simp [Mark.isRun])
        (hq.trans (if_pos ⟨rfl, rfl⟩)) fun _ => ⟨rfl, rfl⟩
    · exact .same (history_mark_ne hk) (hq.trans (if_neg fun hc => hk ⟨hc.1.symm, hc.2.symm⟩))
        fun _ => ⟨rfl, rfl⟩
  | detach e' k' hd =>
    refine .same rfl ((queue_setQueue m e' e k' k fun _ => []).trans (if_neg ?_)) fun _ => ⟨rfl, rfl⟩
    rintro ⟨rfl, rfl⟩
    exact nomatch hs.symm.trans hd
  | advance e' k' hw =>
    have hd : Filed e k m (m.setDomain e' k' ((m.engine e').domain k').advance) :=
      .modifyEngine m e' (f := fun x => x.setDomain k' ((m.engine e').domain k').advance) fun _ => rfl
    exact hd.trans (.mark _ t e' k' nofun fun _ _ => rfl)
  | register e' k' w | handles e' n => exact .modifyEngine m e' fun _ => rfl
  | emit v hv => exact .same (history_emit hv e k) rfl fun _ => ⟨rfl, rfl⟩
  | enroll s =>
    rw [enroll_eq]
    exact .same rfl rfl fun _ => ⟨rfl, rfl⟩
  | count d f hf =>
    exact .modifyDrain m d fun x => ⟨(hf x).1, congrArg Tickets.completed (hf x).2.2.2⟩
  | request d hd => exact .requestPass m d
  | close d =>
    exact (Filed.modifyDrain m d (f := fun x => { x with tickets := x.tickets.close })
      fun _ => ⟨rfl, rfl⟩).trans (.notify _ d)
  | complete d n hn =>
    -- only the thread that runs the callbacks completes tickets of the domain
    have hc : Filed e k m (m.modifyDrain d fun x => { x with tickets := x.tickets.complete n }) := by
      refine ⟨⟨[], rfl, nofun, (List.append_nil _).symm⟩, fun d' hd => ?_⟩
      have hd' : m.Serves d' e k := (part_modifyDrain Drain.work m d d'
        (f := fun x => { x with tickets := x.tickets.complete n }) fun _ => rfl).symm.trans hd
      have hne : d' ≠ d := by
        rintro rfl
        exact nomatch hs.symm.trans (hn e k (congrArg Work.domain? hd'))
      rw [drain_modifyDrain, if_neg hne]
      exact .inr ⟨hd', rfl⟩
    exact hc.trans (.notify _ d)
  | startEngine slot c p hc hp =>
    have hnew : Filed e k (m.startSecond slot c) (m.startEngine slot c p).2 := by
      refine .same rfl ?_ fun _ => ⟨rfl, rfl⟩
      have hg : (m.startEngine slot c p).2.engine e =
          if e = m.engines.size then _ else m.engine e := Table.get_push ..
      refine (congrArg (Engine.queue · k) hg).trans ?_
      split
      · rename_i he
        rw [he]
        exact (congrArg (Engine.queue · k) (Table.get_of_size_le (Nat.le_refl m.engines.size))).symm
      · rfl
    exact ((Filed.spawnDrain m _ _ rfl).trans (.spawnDrain _ _ _ rfl)).trans hnew
  | spawnTask name passes =>
    exact (Filed.spawnDrain m .bare name rfl).trans (.same rfl rfl fun _ => ⟨rfl, rfl⟩)
  | _ => exact .same rfl rfl fun _ => ⟨rfl, rfl⟩

theorem Actions.filed (h : Actions scope t m m') (hs : scope.serves e k = false) : Filed e k m m' := by
  induction h with
  | refl => exact .same rfl rfl fun _ => ⟨rfl, rfl⟩
  | tail _ hd ih => exact ih.trans (hd.filed hs)

theorem Leave.filed (h : Leave t m m') (e : Nat) (k : Kind) : Filed e k m m' :=
  .keepsEngines h.keepsEngines (fun d => ⟨h.work_eq d, h.tickets_eq d⟩) e k

theorem External.filed (h : External m m') (e : Nat) (k : Kind) : Filed e k m m' :=
  .keepsEngines h.keepsEngines (fun d => ⟨h.work_eq d, h.tickets_eq d⟩) e k

theorem startSynchronize_filed (m : Machine) (t e' : Nat) (k' : Kind) :
    Filed e k m (m.startSynchronize t e' k') :=
  Actions.filed (Actions.startSynchronize (.refl : Actions .grace t m m) e' k') rfl

theorem ThreadTurn.filed (h : ThreadTurn scope top t m m') (hs : scope.serves e k = false) :
    Filed e k m m' := by
  refine h.preserves (P := Filed e k m) (fun scope' n n' hsc hd hf => hf.trans (hd.filed ?_))
    (fun n f _ hf => hf.trans (.same rfl rfl fun _ => ⟨rfl, rfl⟩))
    (fun n e' k' v hv hf => hf.trans (.mark n t e' k' ?_ fun _ _ => ?_)) (fun _ hf => hf)
    (fun n n' hl hf => hf.trans (hl.filed e k)) (.same rfl rfl fun _ => ⟨rfl, rfl⟩)
  · rcases hsc with rfl | rfl | rfl
    · exact hs
    · rfl
    · rfl
  · rintro c rfl
    cases hv
  · cases v <;> first | rfl | cases hv

theorem resumeGrace_filed (m : Machine) (t : Nat) (o : Outcome) (e' : Nat) (k' : Kind)
    (c : Snapshot) (target : UInt32) : Filed e k m (m.resume t o (.grace e' k' c target)) :=
  ThreadTurn.filed (Actions.resumeGrace (.refl : Actions .grace t m m) o e' k' c target) rfl

theorem Starts.filed {n : Machine} (h : Starts t m top n) (e : Nat) (k : Kind) : Filed e k m n := by
  cases h <;> exact .same rfl rfl fun _ => ⟨rfl, rfl⟩

/-- A turn of a thread that does not serve the domain. -/
theorem advance_filed (hb : m.BuildsIdle) (ht : m.turn = some t) (hc : m.FramesFit t)
    (hd : ∀ d, m.Serves d e k → (m.drain d).thread ≠ t) : Filed e k m (m.advance t) := by
  obtain ⟨scope, top, n, hl, hn, hturn⟩ := advance_mayPush hb ht hc
  refine (hn.filed e k).trans (hturn.filed (Bool.eq_false_iff.2 fun hs => ?_))
  obtain ⟨d, hd', ht'⟩ := hl.serves e k hs
  exact hd d hd' ht'

end Machine

end GracePeriod
