import GracePeriod.Script
import GracePeriod.Proofs.Section
import GracePeriod.Proofs.Turn

namespace GracePeriod.Machine

/-- A machine that scripts can bring about, at any point of a run. Engines may start in any epoch,
but without readers. -/
inductive Reachable : Machine → Prop
  | new {workers : List Nat} {host : Nat} {m : Machine} (h : Machine.new workers host = .ok m) :
      Reachable m
  | begin {m : Machine} (h : Reachable m) (s : Script.Step) : Reachable (m.begin s).1
  | step {m m' : Machine} (h : Reachable m) (hb : m.BuildsIdle) (hs : m.step = some m') :
      Reachable m'

/-- What a script brings about at once, from outside. -/
inductive External : Machine → Machine → Prop
  | actor (m : Machine) (i : Nat) :
      External m (m.spawn { name := .actor i, systemName := ThreadName.text (.actor i),
                            status := .idle }).2
  | resume {t : Nat} {m : Machine} (h : m.isParked t = true) : External m (m.wake t)
  | fault {t : Nat} {m : Machine} (h : m.isParked t = true) (text : String) :
      External m ((m.back t (.error (.text text))).wake t)
  | instruct {t : Nat} {m : Machine} (h : m.isIdle t = true) (op : Op) :
      External m ((m.eval t none op).wake t)
  | exit {t : Nat} {m : Machine} (h : m.isIdle t = true) : External m (m.endThread t none)

/-- What happens at once, in a turn or from outside. -/
inductive Change : Machine → Machine → Prop
  | move {t : Nat} {m m' : Machine} (ht : m.turn = some t) (h : Move .all t m m') : Change m m'
  | leave {t : Nat} {m m' : Machine} (ht : m.turn = some t) (h : Leave t m m') : Change m m'
  | pick {t : Nat} {rest : List Nat} {m : Machine} (hn : m.turn = none) (hr : m.ready = t :: rest) :
      Change m { m with turn := some t, ready := rest }
  | external {m m' : Machine} (h : External m m') : Change m m'

abbrev Changes : Machine → Machine → Prop := Relation.ReflTransGen Change

abbrev Externals : Machine → Machine → Prop := Relation.ReflTransGen External

variable {m m' : Machine} {t : Nat}

theorem Move.turn {scope : Scope} (h : Move scope t m m') : m'.turn = m.turn := by
  cases h with
  | openSection e k hs => rw [(Inside.openSection m t e k).eq]
  | closeSection e k => rw [(Inside.closeSection m t e k).eq]
  | enroll s => rw [enroll_eq]
  | notify d => rw [notify_eq]
  | _ => rfl

theorem Moves.changes (h : Moves .all t m m') (ht : m.turn = some t) :
    Changes m m' ∧ m'.turn = some t := by
  induction h with
  | refl => exact ⟨.refl, ht⟩
  | tail _ hm ih => exact ⟨ih.1.tail (.move ih.2 hm), hm.turn.trans ih.2⟩

theorem advance_changes (hb : m.BuildsIdle) (ht : m.turn = some t) : Changes m (m.advance t) := by
  rcases advance_turn hb ht with h | ⟨n, h, hl⟩
  · exact (h.changes ht).1
  · obtain ⟨hc, ht'⟩ := h.changes ht
    exact hc.tail (.leave ht' hl)

/-- A step is what the thread does that has the turn, or it gives the turn to the next one. -/
theorem step_cases (h : m.step = some m') :
    (∃ t, m.turn = some t ∧ m' = m.advance t) ∨
    ∃ t rest, m.turn = none ∧ m.ready = t :: rest ∧ m' = { m with turn := some t, ready := rest } := by
  unfold step at h
  split at h
  · rename_i t ht
    exact .inl ⟨t, ht, (Option.some.inj h).symm⟩
  · rename_i t rest hn hr
    exact .inr ⟨t, rest, hn, hr, (Option.some.inj h).symm⟩
  · cases h

theorem step_changes (hb : m.BuildsIdle) (hs : m.step = some m') : Changes m m' := by
  rcases step_cases hs with ⟨t, ht, rfl⟩ | ⟨t, rest, hn, hr, rfl⟩
  · exact advance_changes hb ht
  · exact .single (.pick hn hr)

theorem isParked_wake (m : Machine) {t u : Nat} (h : u ≠ t) :
    (m.wake t).isParked u = m.isParked u := by
  have hw : (m.wake t).thread u = m.thread u := thread_modifyThread_ne m _ h
  rw [isParked, hw]
  rfl

theorem wakeAll_externals {ts : List Nat} (hn : ts.Nodup) (hp : ∀ t ∈ ts, m.isParked t = true) :
    Externals m (m.wakeAll ts) := by
  induction ts generalizing m with
  | nil => exact .refl
  | cons t ts ih =>
    obtain ⟨ht, hn⟩ := List.nodup_cons.1 hn
    have hc : External m (m.wake t) := .resume (hp t List.mem_cons_self)
    refine .head hc (ih hn fun u hu => ?_)
    have hut : u ≠ t := by
      rintro rfl
      exact ht hu
    rw [isParked_wake m hut]
    exact hp u (List.mem_cons_of_mem _ hu)

theorem mem_parkedThreads (h : t ∈ m.parkedThreads) : m.isParked t = true := by
  unfold parkedThreads at h
  exact (List.mem_filter.1 ((List.mergeSort_perm ..).mem_iff.1 h)).2

theorem nodup_parkedThreads (m : Machine) : m.parkedThreads.Nodup :=
  (List.mergeSort_perm ..).nodup_iff.2 (List.nodup_range.filter _)

theorem actor_externals (m : Machine) (i : Nat) : Externals m (m.actor i).2 := by
  unfold actor
  dsimp only
  split
  · exact .refl
  · exact .single (.actor m i)

theorem begin_externals (m : Machine) (s : Script.Step) : Externals m (m.begin s).1 := by
  cases s with
  | resume who panic =>
    simp only [begin]
    split
    · exact .refl
    · rename_i t ht
      have hp := mem_parkedThreads (List.mem_of_find?_eq_some ht)
      cases panic with
      | none => exact .single (.resume hp)
      | some text => exact .single (.fault hp text)
  | resumeAll => exact wakeAll_externals m.nodup_parkedThreads fun _ => mem_parkedThreads
  | exit i =>
    simp only [begin]
    split
    · rename_i hi
      exact (m.actor_externals i).tail (.exit hi)
    · exact .refl
  | act i op =>
    simp only [begin]
    split
    · rename_i hi
      exact (m.actor_externals i).tail (.instruct hi op)
    · exact .refl

theorem begin_changes (m : Machine) (s : Script.Step) : Changes m (m.begin s).1 :=
  Relation.ReflTransGen.mono (fun _ _ => .external) _ _ (begin_externals m s)

theorem Changes.preserves {P : Machine → Prop} (hc : ∀ m m', P m → Change m m' → P m')
    (h : Changes m m') (hm : P m) : P m' := by
  induction h with
  | refl => exact hm
  | tail _ hs ih => exact hc _ _ ih hs

theorem Reachable.induction {P : Machine → Prop}
    (hnew : ∀ workers host m, Machine.new workers host = .ok m → P m)
    (hc : ∀ m m', P m → Change m m' → P m') (h : Reachable m) : P m := by
  induction h with
  | new hm => exact hnew _ _ _ hm
  | begin _ s ih => exact (begin_changes _ s).preserves hc ih
  | step _ hb hs ih => exact (step_changes hb hs).preserves hc ih

/-- A machine that a run passes through, also in the middle of a turn. -/
def Visited (m : Machine) : Prop := ∃ m₀, Reachable m₀ ∧ Changes m₀ m

theorem Reachable.visited (h : Reachable m) : Visited m := ⟨m, h, .refl⟩

/-- What holds of every new machine and survives every change holds all the time. -/
theorem Visited.induction {P : Machine → Prop}
    (hnew : ∀ workers host m, Machine.new workers host = .ok m → P m)
    (hc : ∀ m m', P m → Change m m' → P m') (h : Visited m) : P m := by
  obtain ⟨m₀, h₀, hcs⟩ := h
  exact hcs.preserves hc (h₀.induction hnew hc)

/-- The engine that the next operation builds, if any, gets no seed but that of an epoch. -/
def buildsPlain (m : Machine) : Bool :=
  match m.turn with
  | none => true
  | some t =>
    match (m.thread t).control with
    | .eval _ (.build _ c) => decide (c.seeds.length ≤ 1)
    | _ => true

def runsPlain : Nat → Machine → Bool
  | 0, _ => true
  | fuel + 1, m =>
    m.buildsPlain &&
      match m.step with
      | none => true
      | some m => runsPlain fuel m

theorem buildsIdle_of_buildsPlain (h : m.buildsPlain = true) : m.BuildsIdle := by
  intro t held slot c n ht hc _
  rw [buildsPlain, ht] at h
  dsimp only at h
  rw [hc] at h
  exact Config.startsIdle_of_length_le (of_decide_eq_true h) n

theorem run_induction {P : Machine → Prop}
    (hstep : ∀ m m', P m → m.BuildsIdle → m.step = some m' → P m') {fuel : Nat} {m : Machine}
    (hr : runsPlain fuel m = true) (hm : P m) : P (m.run fuel) := by
  induction fuel generalizing m with
  | zero => exact hm
  | succ fuel ih =>
    obtain ⟨hb, hr⟩ := Bool.and_eq_true_iff.1 hr
    cases hs : m.step with
    | none =>
      rw [Machine.run, hs]
      exact hm
    | some n =>
      rw [hs] at hr
      rw [Machine.run, hs]
      exact ih hr (hstep m n hm (buildsIdle_of_buildsPlain hb) hs)

theorem Reachable.run (h : Reachable m) {fuel : Nat} (hr : runsPlain fuel m = true) :
    Reachable (m.run fuel) := run_induction (fun _ _ h hb hs => h.step hb hs) hr h

theorem Reachable.perform (h : Reachable m) (s : Script.Step)
    (hr : runsPlain stepLimit (m.begin s).1 = true) : Reachable (m.perform s).1 :=
  (h.begin s).run hr

theorem begin_resumeAll (hp : m.threads.indices.filter m.isParked = [t]) :
    (m.begin .resumeAll).1 = m.wake t := by
  have hone : m.parkedThreads = [t] := by
    rw [parkedThreads, hp, List.mergeSort_singleton]
  exact congrArg m.wakeAll hone

theorem begin_resume (hp : m.threads.indices.filter m.isParked = [t]) (text : String) :
    (m.begin (.resume (m.thread t).name.text (some text))).1 =
      (m.back t (.error (.text text))).wake t := by
  have hfind : m.parkedThreads.find? (fun u => (m.thread u).name.text = (m.thread t).name.text) =
      some t := by
    rw [parkedThreads, hp, List.mergeSort_singleton]
    exact List.find?_cons_of_pos (decide_eq_true rfl)
  unfold begin
  dsimp only
  rw [hfind]

theorem Reachable.wakeOnly (h : Reachable m) (hp : m.threads.indices.filter m.isParked = [t]) :
    Reachable (m.wake t) := by
  have hw := h.begin .resumeAll
  rwa [begin_resumeAll hp] at hw

theorem Reachable.resumeOnly (h : Reachable m) (hp : m.threads.indices.filter m.isParked = [t])
    (hr : runsPlain stepLimit (m.wake t) = true) : Reachable (m.wake t).settle :=
  (h.wakeOnly hp).run hr

/-- An engine over one worker, whose epoch is about to wrap around. Examples start from it. -/
def sample : Machine :=
  (Machine.perform { schedulers := ⟨[{ workers := 1 }]⟩, named := 1 }
    (.act 0 (.build 0 { scheduler := some 0, seeds := [0xFFFFFFFF] }))).1

theorem reachable_sample : Reachable sample :=
  (@Reachable.new [1] 1 _ rfl).perform _ (by decide +kernel)

end GracePeriod.Machine
