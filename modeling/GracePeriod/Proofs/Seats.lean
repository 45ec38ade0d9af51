import GracePeriod.Proofs.Placement

namespace GracePeriod

open History SlotArray

namespace Machine

variable {scope : Scope} {m m' : Machine} {t u s id e w i : Nat} {k : Kind} {target : UInt32}

theorem Action.sectionChange (h : Action scope t m m') (hu : m.NestsUnique) (e : Nat) (k : Kind) :
    SectionChange t e k m m' := by
  have hnotify (n : Machine) (d : Nat) (hn : Still e k m n) :
      SectionChange t e k m (n.notify d) := by
    refine .still (hn.trans (.of_eq (part_notify Thread.nests (fun _ _ => rfl) n d) ?_ ?_)) <;>
    · rw [notify_eq]
      rfl
  cases h with
  | openSection e' k' hs =>
    exact (.openSection m e' k' hs : Move scope t m _).sectionChange hu e k
  | closeSection e' k' => exact (.closeSection m e' k' : Move scope t m _).sectionChange hu e k
  | register e' k' w => exact (.register m e' k' w : Move scope t m _).sectionChange hu e k
  | advance e' k' hs => exact (.advance m e' k' : Move scope t m _).sectionChange hu e k
  | startEngine slot c p hc hs => exact startEngine_founding m slot hc e k
  | mark e' k' v hv hb => exact (.mark m e' k' v hv : Move scope t m _).sectionChange hu e k
  | emit v hv => exact .still (.of_eq (fun _ => rfl) rfl (history_emit hv e k))
  | enroll s => exact (.enroll m s : Move scope t m _).sectionChange hu e k
  | handles e' n => exact .still (.modifyEngine m e' fun _ => rfl)
  | detach e' k' hs => exact .still (.modifyEngine m e' fun _ => rfl)
  | request d hd => exact hnotify (m.modifyDrain d _) d (.of_eq (fun _ => rfl) rfl rfl)
  | close d => exact hnotify (m.modifyDrain d _) d (.of_eq (fun _ => rfl) rfl rfl)
  | complete d n hn => exact hnotify (m.modifyDrain d _) d (.of_eq (fun _ => rfl) rfl rfl)
  | enqueue e' k' c hk =>
    have hq : Still e k m (m.modifyEngine e' fun x => x.setQueue k' (x.queue k' ++ [c])) :=
      .modifyEngine m e' fun _ => rfl
    have hmark := hq.trans (.mark _ t e' k' (v := .queued c) rfl)
    exact hnotify (Machine.modifyDrain _ _ _) _ (hmark.trans (.of_eq (fun _ => rfl) rfl rfl))
  | control c | push f hf hb =>
    exact .still (.of_eq (fun u => part_modifyThread Thread.nests m t u fun _ => rfl) rfl rfl)
  | spawnTask name passes =>
    exact .still (.of_eq (fun u => part_spawnDrain Thread.nests m .bare name
      { work := .scripted passes, holders := 1 } rfl u) rfl rfl)
  | _ => exact .still (.of_eq (fun _ => rfl) rfl rfl)

theorem Act.sectionChange (h : Act m m') (hu : m.NestsUnique) (e : Nat) (k : Kind) :
    ∃ t, SectionChange t e k m m' := by
  cases h with
  | action ht h => exact ⟨_, h.sectionChange hu e k⟩
  | stack ht fs => exact (Change.move ht (.stack m fs rfl)).sectionChange hu e k
  | barrier ht e' k' hv =>
    rename_i t v
    refine ⟨t, .still (.mark m t e' k' ?_)⟩
    cases v <;> first | rfl | cases hv
  | leave ht h => exact (Change.leave ht h).sectionChange hu e k
  | pick hn hr => exact (Change.pick hn hr).sectionChange hu e k
  | external h => exact (Change.external h).sectionChange hu e k

theorem Action.workers (h : Action scope t m m') (e : Nat) (k : Kind) :
    (m'.domain e k).workers = (m.domain e k).workers ∨
      m'.schedulers = m.schedulers ∧ ((m'.engine e).access.scheduler < m.named ∨
        0 < (m.scheduler (m'.engine e).access.scheduler).workers) := by
  have hmod (m : Machine) (e' : Nat) {f : Engine → Engine} (hf : ∀ x, (f x).domains = x.domains) :
      ((m.modifyEngine e' f).domain e k).workers = (m.domain e k).workers :=
    congrArg Domain.workers (Still.modifyEngine m e' hf).domain
  cases h with
  | handles e' n | detach e' k' hs => exact .inl (hmod m e' fun _ => rfl)
  | enqueue e' k' c hk =>
    have hq := hmod m e' (f := fun x => x.setQueue k' (x.queue k' ++ [c])) fun _ => rfl
    rw [requestPass, notify_eq]
    exact .inl hq
  | request d hd =>
    rw [requestPass, notify_eq]
    exact .inl rfl
  | close d | complete d n hn =>
    rw [notify_eq]
    exact .inl rfl
  | enroll s =>
    rw [enroll_eq]
    exact .inl rfl
  | register e' k' w =>
    exact .inl ((Inside.setDomain m t e' k' ((m.domain e' k').register_get w w).2.1).workers e k)
  | advance e' k' hs => exact .inl ((Inside.setDomain m t e' k' (by rfl)).workers e k)
  | openSection e' k' hs => exact .inl ((Inside.openSection m t e' k').workers e k)
  | closeSection e' k' => exact .inl ((Inside.closeSection m t e' k').workers e k)
  | startEngine slot c p hc hs =>
    by_cases he : e = m.engines.size
    · have ha : ((m.startEngine slot c p).2.engine e).access = p :=
        congrArg Engine.access ((Table.get_push ..).trans (if_pos he))
      rw [ha]
      exact .inr ⟨rfl, hs⟩
    · exact .inl (congrArg (fun x : Engine => (x.domain k).workers)
        ((Table.get_push ..).trans (if_neg he)))
  | _ => exact .inl rfl

theorem Act.workers (h : Act m m') (e : Nat) (k : Kind) :
    (m'.domain e k).workers = (m.domain e k).workers ∨
      m'.schedulers = m.schedulers ∧ ((m'.engine e).access.scheduler < m.named ∨
        0 < (m.scheduler (m'.engine e).access.scheduler).workers) := by
  cases h with
  | action ht h => exact h.workers e k
  | leave ht h => exact .inl (congrArg Domain.workers (h.keepsEngines.still e k).domain)
  | external h => exact .inl (congrArg Domain.workers (h.keepsEngines.still e k).domain)
  | _ => exact .inl rfl

theorem Action.nests (h : Action scope t m m') : (∀ u, m'.nests u = m.nests u) ∨
    (∃ e k, m' = (m.openSection t e k).1) ∨ ∃ e k, m' = (m.closeSection t e k).1 := by
  have hnotify (n : Machine) (d : Nat) (hn : n.threads = m.threads) (u : Nat) :
      (n.notify d).nests u = m.nests u :=
    (part_notify Thread.nests (fun _ _ => rfl) n d u).trans (by rw [thread, hn]; rfl)
  cases h with
  | openSection e k hs => exact .inr (.inl ⟨e, k, rfl⟩)
  | closeSection e k => exact .inr (.inr ⟨e, k, rfl⟩)
  | control c | push f hf hb => exact .inl fun u => part_modifyThread Thread.nests m t u fun _ => rfl
  | enroll s => exact .inl (part_enroll Thread.nests (fun _ _ => rfl) m t s)
  | request d hd => exact .inl (hnotify (m.modifyDrain d _) d rfl)
  | close d => exact .inl (hnotify (m.modifyDrain d _) d rfl)
  | complete d n hn => exact .inl (hnotify (m.modifyDrain d _) d rfl)
  | enqueue e k c hk => exact .inl (hnotify (Machine.modifyDrain (Machine.mark _ t e k _) _ _) _ rfl)
  | startEngine slot c p hc hs =>
    exact .inl (part_startEngine Thread.nests (fun _ _ _ => rfl) m slot c p)
  | spawnTask name passes =>
    exact .inl (part_spawnDrain Thread.nests m .bare name
      { work := .scripted passes, holders := 1 } rfl)
  | _ => exact .inl fun _ => rfl

/-- The worker whose record thread `u` has entered, and will leave. After a lock that has panicked, it
is the worker of an earlier section. -/
def seat (m : Machine) (u e : Nat) (k : Kind) : Nat := ((m.nests u).entry e).worker.get k

theorem seat_of_place (h : m.place u e k = some (w, i)) : m.seat u e k = w := by
  unfold place Nests.place Nest.place at h
  split at h
  · cases h
  · exact congrArg Prod.fst (Option.some.inj h)

/-- Threads remember the same worker as before, or none, or `w`, and this only if `p` holds. -/
def Reseats (e : Nat) (k : Kind) (w : Nat) (p : Prop) (m m' : Machine) : Prop :=
  ∀ u, m'.seat u e k = m.seat u e k ∨ m'.seat u e k = 0 ∨ p ∧ m'.seat u e k = w

namespace Reseats

variable {p : Prop} {e' : Nat} {k' : Kind}

theorem of_nests (h : ∀ u, m'.nests u = m.nests u) : Reseats e k w p m m' := fun u =>
  .inl (congrArg (fun ns : Nests => (ns.entry e).worker.get k) (h u))

theorem trans {m'' : Machine} (h : Reseats e k w p m m') (h' : Reseats e k w p m' m'') :
    Reseats e k w p m m'' := by
  intro u
  rcases h' u with hu | hu
  · rw [hu]
    exact h u
  · exact .inr hu

theorem setNests {ns : Nests} (h : (ns.entry e).worker.get k = m.seat t e k ∨
    (ns.entry e).worker.get k = 0 ∨ p ∧ (ns.entry e).worker.get k = w) :
    Reseats e k w p m (m.setNests t ns) := by
  intro u
  rw [seat, nests_setNests]
  split
  · rename_i hu
    rw [hu]
    exact h
  · exact .inl rfl

theorem ensure (m : Machine) (t e' : Nat) :
    Reseats e k w p m (m.setNests t ((m.nests t).ensure e')) := by
  refine .setNests (.inl ?_)
  rw [Nests.entry_ensure]
  rfl

theorem setDepth (hu : (m.nests t).Unique) (n : UInt32) :
    Reseats e k w p m (m.setDepth t e' k' n) := by
  refine .setNests (.inl ?_)
  rw [Nests.entry_update hu (Nest.engine_setDepth k' n)]
  split
  · rename_i he
    rw [he]
    rfl
  · rfl

theorem setPlace (hu : (m.nests t).Unique) {w' : Nat} (h : e = e' → k = k' → p ∧ w' = w) (i : Nat) :
    Reseats e k w p m (m.setNests t ((m.nests t).update e' fun x => x.setPlace k' w' i)) := by
  refine .setNests ?_
  rw [Nests.entry_update hu (Nest.engine_setPlace k' w' i)]
  split
  · rename_i he
    by_cases hk : k = k'
    · obtain ⟨hp, rfl⟩ := h he hk
      subst hk
      exact .inr (.inr ⟨hp, PerKind.get_set_self ..⟩)
    · rw [he]
      exact .inl (PerKind.get_set_ne _ hk _)
  · exact .inl rfl

theorem rise (hu : (m.nests t).Unique) (hi : (m.nests t).openPosition e' k' = some i) :
    Reseats e k w p m (m.rise t k' i) := by
  obtain ⟨hn, -⟩ := Nests.openPosition_eq_some hu hi
  refine .setNests (.inl ?_)
  rw [Nests.entry_modify hu hn (Nest.engine_setDepth k' _), Nests.engine_entry]
  split
  · rename_i he
    rw [he]
    rfl
  · rfl

theorem swapRemove (hu : (m.nests t).Unique) {n : Nest} (hn : (m.nests t)[i]? = some n) :
    Reseats e k w p m (m.setNests t (swapRemove (m.nests t) i)) := by
  refine .setNests ?_
  rw [Nests.entry_swapRemove hu hn]
  split
  · refine .inr (.inl ?_)
    cases k <;> rfl
  · exact .inl rfl

theorem enterRecord (hu : (m.nests t).Unique)
    (h : e = e' → k = k' → (m.task t (m.engine e).access.scheduler).worker <
      (m.domain e k).workers → p ∧ (m.task t (m.engine e).access.scheduler).worker = w) :
    Reseats e k w p m (m.enterRecord t e' k').1 := by
  unfold Machine.enterRecord
  dsimp only
  split
  · exact .of_nests fun _ => rfl
  · rename_i r hr
    obtain ⟨hw, -, -⟩ := Domain.registeredRecord_eq_ok.1 hr
    split
    · exact .of_nests fun _ => rfl
    · rename_i i _
      have hset : Reseats e k w p m (m.setNests t ((m.nests t).update e' fun x =>
          x.setPlace k' (m.task t (m.engine e').access.scheduler).worker i)) := by
        refine .setPlace hu (fun he hk => ?_) i
        subst he hk
        exact h rfl rfl hw
      exact hset

theorem openSection (hu : (m.nests t).Unique) (e' : Nat) (k' : Kind) :
    Reseats e k (m.task t (m.engine e).access.scheduler).worker
      ((m.task t (m.engine e).access.scheduler).worker < (m.domain e k).workers) m
      (m.openSection t e' k').1 := by
  have hd : Reseats e k (m.task t (m.engine e).access.scheduler).worker
      ((m.task t (m.engine e).access.scheduler).worker < (m.domain e k).workers) m
      (m.deepen t e' k').1 := by
    unfold deepen
    dsimp only
    split
    · exact .ensure m t e'
    · split
      · have htask : (m.setDepth t e' k' (m.readDepth t e' k' + 1)).task t
            (m.engine e).access.scheduler = m.task t (m.engine e).access.scheduler := by
          rw [Machine.setDepth, task, taskId_setNests]
          rfl
        refine (setDepth hu _).trans (enterRecord (unique_setDepth hu e' k' _) fun _ _ hw => ?_)
        exact ⟨htask ▸ hw, congrArg Task.worker htask⟩
      · exact .setDepth hu _
  unfold Machine.openSection
  dsimp only
  split <;> exact hd

theorem closeSection (hu : (m.nests t).Unique) (e' : Nat) (k' : Kind) :
    Reseats e k w p m (m.closeSection t e' k').1 := by
  rw [closeSection_eq]
  split
  · exact .of_nests fun _ => rfl
  · rename_i i hi
    have hr : Reseats e k w p m (m.rise t k' i) := .rise hu hi
    split
    · refine hr.trans ?_
      unfold leaveRecord
      dsimp only
      split
      · exact .of_nests fun _ => rfl
      · split
        · have hs : Reseats e k w p (m.rise t k' i) _ :=
            .swapRemove (unique_rise hu k' i) (getElem?_rise hu hi)
          exact hs
        · exact .of_nests fun _ => rfl
    · exact hr

end Reseats

theorem Act.reseats (h : Act m m') (hu : m.NestsUnique) (e : Nat) (k : Kind) :
    ∃ t, Reseats e k (m.task t (m.engine e).access.scheduler).worker
      ((m.domain e k).workers ≠ 0) m m' := by
  cases h with
  | @action scope t _ _ ht h =>
    refine ⟨t, ?_⟩
    rcases h.nests with hn | ⟨e', k', rfl⟩ | ⟨e', k', rfl⟩
    · exact .of_nests hn
    · intro u
      rcases Reseats.openSection (hu t) e' k' u with h | h | ⟨hw, h⟩
      · exact .inl h
      · exact .inr (.inl h)
      · exact .inr (.inr ⟨Nat.ne_of_gt (Nat.zero_lt_of_lt hw), h⟩)
    · exact .closeSection (hu t) e' k'
  | @stack t _ ht fs =>
    exact ⟨t, .of_nests fun u => part_modifyThread Thread.nests m t u fun _ => rfl⟩
  | barrier | pick => exact ⟨0, .of_nests fun _ => rfl⟩
  | leave ht h => exact ⟨0, .of_nests h.keepsEngines.nests⟩
  | external h => exact ⟨0, .of_nests h.keepsEngines.nests⟩

theorem SectionChange.workers (h : SectionChange t e k m m') :
    (m'.domain e k).workers = (m.domain e k).workers ∨ (m.domain e k).workers = 0 := by
  cases h with
  | still h => exact .inl (by rw [h.domain])
  | opening w i h => exact .inl (by rw [h.domain]; rfl)
  | closing w i h => exact .inl (by rw [h.domain, Domain.workers_onRecord])
  | stranding h =>
    rcases h.domain with hd | ⟨w, f, -, -, -, hd⟩ <;> rw [hd] <;> exact .inl rfl
  | registering w hp hd hh => exact .inl (by rw [hd, ((m.domain e k).register_get w 0).2.1])
  | advancing hp hd hh => exact .inl (by rw [hd]; rfl)
  | founding he hp hw hd hh => exact .inr hw

/-- What has become of a record, if it is not as before: a reader has entered or left it, or was
refused, or it has been registered, or it is new. -/
inductive RecordChange (t e : Nat) (k : Kind) (w : Nat) (m m' : Machine) : Prop
  | registered (b : Bool)
      (h : (m'.domain e k).records.get w = { (m.domain e k).records.get w with registered := b })
  | entered (id : Nat) (ht : m.task? t (m.engine e).access.scheduler = some id)
      (hw : w < (m.domain e k).workers)
      (hwk : w = (m.task t (m.engine e).access.scheduler).worker)
      (h : (m'.domain e k).records.get w =
        (((m.domain e k).records.get w).enter (m.domain e k).epoch id).1)
  | left (i : Nat) (hw : w < (m.domain e k).workers) (hs : w = m.seat t e k)
      (h : (m'.domain e k).records.get w = (((m.domain e k).records.get w).leave i).1)
  | founded (ha : ((m'.domain e k).records.get w).word.active = 0)
      (hr : ((m'.domain e k).records.get w).readers = {})

theorem RecordChange.of_eq (h : (m'.domain e k).records.get w = (m.domain e k).records.get w) :
    RecordChange t e k w m m' := .registered _ h

theorem SectionChange.record (h : SectionChange t e k m m') (w : Nat) : RecordChange t e k w m m' := by
  have henter {v : Nat} (hs : (m.task? t (m.engine e).access.scheduler).isSome = true)
      (hv : v = (m.task t (m.engine e).access.scheduler).worker) (hlt : v < (m.domain e k).workers)
      (hd : m'.domain e k = (m.domain e k).setRecord v
        (((m.domain e k).records.get v).enter (m.domain e k).epoch
          (m.taskId t (m.engine e).access.scheduler)).1) : RecordChange t e k w m m' := by
    obtain ⟨id, hid⟩ := Option.isSome_iff_exists.1 hs
    have hid' : m.taskId t (m.engine e).access.scheduler = id := by
      rw [taskId, hid]
      rfl
    rw [hid'] at hd
    by_cases hwv : w = v
    · subst hwv
      exact .entered id hid hlt hv (by rw [hd, Domain.get_setRecord, if_pos rfl])
    · exact .of_eq (by rw [hd, Domain.get_setRecord, if_neg hwv])
  cases h with
  | still h => exact .of_eq (by rw [h.domain])
  | opening v j h => exact henter h.enrolled h.worker h.inside h.domain
  | closing v j h =>
    by_cases hv : v < (m.domain e k).workers
    · have hd := h.domain
      rw [Domain.onRecord_eq _ hv] at hd
      by_cases hwv : w = v
      · subst hwv
        exact .left j hv (seat_of_place h.inside).symm
          (by rw [hd, Domain.get_setRecord, if_pos rfl])
      · exact .of_eq (by rw [hd, Domain.get_setRecord, if_neg hwv])
    · refine .of_eq ?_
      rw [h.domain, Domain.onRecord, Domain.record, if_neg hv]
  | stranding h =>
    rcases h.domain with hd | ⟨v, f, hv, hlt, -, hd⟩
    · exact .of_eq (by rw [hd])
    · exact henter h.enrolled hv hlt hd
  | registering v hp hd hh =>
    obtain ⟨-, -, b, hb, -⟩ := (m.domain e k).register_get v w
    exact .registered b (by rw [hd, hb])
  | advancing hp hd hh => exact .of_eq (by rw [hd]; rfl)
  | founding he hp hw hd hh => exact .founded (hd w).1 (hd w).2

namespace RecordChange

theorem wellFormed (h : RecordChange t e k w m m')
    (hw : ((m.domain e k).records.get w).readers.WellFormed) :
    ((m'.domain e k).records.get w).readers.WellFormed := by
  cases h with
  | registered b hr =>
    rw [hr]
    exact hw
  | entered id ht hlt hwk hr =>
    rw [hr]
    exact WorkerRecord.wellFormed_enter hw _ _
  | left i hlt hs hr =>
    rw [hr]
    exact (WorkerRecord.leave_spec hw i).1
  | founded hf hr =>
    rw [hr]
    exact wellFormed_empty

theorem active (h : RecordChange t e k w m m')
    (ha : ((m'.domain e k).records.get w).word.active ≠ 0) :
    ((m.domain e k).records.get w).word.active ≠ 0 ∨ (m.domain e k).workers ≠ 0 ∧
      (w = (m.task t (m.engine e).access.scheduler).worker ∨ w = m.seat t e k) := by
  cases h with
  | registered b hr =>
    rw [hr] at ha
    exact .inl ha
  | entered id ht hlt hwk hr => exact .inr ⟨Nat.ne_of_gt (Nat.zero_lt_of_lt hlt), .inl hwk⟩
  | left i hlt hs hr => exact .inr ⟨Nat.ne_of_gt (Nat.zero_lt_of_lt hlt), .inr hs⟩
  | founded hf hr => exact absurd hf ha

theorem names (h : RecordChange t e k w m m') (ht : Tasked m)
    (hw : ((m.domain e k).records.get w).readers.WellFormed) {id : Nat}
    (hid : ((m'.domain e k).records.get w).Names id) :
    ((m.domain e k).records.get w).Names id ∨ (m.domain e k).workers ≠ 0 ∧
      m.task? t (m.engine e).access.scheduler = some id := by
  cases h with
  | registered b hr =>
    rw [hr] at hid
    exact .inl hid
  | entered id' htask hlt hwk hr =>
    rw [hr] at hid
    refine (WorkerRecord.names_enter hw hid).imp_right fun hid => ?_
    rw [taskOfWord_of_le (ht.task?_le htask)] at hid
    obtain rfl := Option.some.inj hid
    exact ⟨Nat.ne_of_gt (Nat.zero_lt_of_lt hlt), htask⟩
  | left i hlt hs hr =>
    rw [hr] at hid
    exact .inl ((WorkerRecord.leave_spec hw i).2 id hid)
  | founded hf hr =>
    obtain ⟨i, hi⟩ := hid
    rw [hr, look_empty] at hi
    cases hi

end RecordChange

/-- Readers are on workers that exist, and so are the threads that will leave them; and who is named
as a reader has a task. -/
structure Seated (m : Machine) (e : Nat) (k : Kind) : Prop where
  housed : (m.domain e k).workers ≠ 0 →
    0 < (m.scheduler (m.engine e).access.scheduler).workers
  seats : ∀ u, m.seat u e k ≠ 0 → (m.domain e k).workers ≠ 0 ∧
    m.seat u e k < (m.scheduler (m.engine e).access.scheduler).workers
  active : ∀ w, ((m.domain e k).records.get w).word.active ≠ 0 → (m.domain e k).workers ≠ 0 ∧
    w < (m.scheduler (m.engine e).access.scheduler).workers
  wellFormed : ∀ w, ((m.domain e k).records.get w).readers.WellFormed
  named : ∀ w id, ((m.domain e k).records.get w).Names id → (m.domain e k).workers ≠ 0 ∧
    (m.scheduler (m.engine e).access.scheduler).Has id

namespace Seated

theorem new {workers : List Nat} {host : Nat} (h : Machine.new workers host = .ok m) :
    Seated m e k := by
  obtain ⟨cs, -, rfl⟩ := new_eq h
  have hd : (domain { schedulers := ⟨cs⟩, named := workers.length, hostWorkers := host } e k) = {} := by
    rw [domain, engine, Table.get_empty]
    cases k <;> rfl
  constructor
  · rw [hd]
    exact fun hw => absurd rfl hw
  · intro u hu
    refine absurd ?_ hu
    rw [seat, nests, thread, Table.get_empty]
    cases k <;> rfl
  · rw [hd]
    exact fun w hw => absurd (congrArg (fun r : WorkerRecord => r.word.active) (Table.get_empty w)) hw
  · rw [hd]
    exact fun w => wellFormed_empty
  · rw [hd]
    rintro w id ⟨i, hi⟩
    cases hi

theorem seat_lt (h : Seated m e k) (hw : (m.domain e k).workers ≠ 0) (u : Nat) :
    m.seat u e k < (m.scheduler (m.engine e).access.scheduler).workers := by
  by_cases h0 : m.seat u e k = 0
  · rw [h0]
    exact h.housed hw
  · exact (h.seats u h0).2

theorem keeps (h : Seated m e k) (hv : Visited m) (ha : Act m m') (hw : (m.domain e k).workers ≠ 0) :
    (m'.domain e k).workers ≠ 0 ∧ (m'.engine e).access = (m.engine e).access ∧
      (m'.scheduler (m'.engine e).access.scheduler).workers =
        (m.scheduler (m.engine e).access.scheduler).workers := by
  obtain ⟨t, hserv⟩ := ha.service
  obtain ⟨u, hsc⟩ := ha.sectionChange hv.nestsUnique e k
  have haccess := ha.access (lt_engines_size hw)
  refine ⟨?_, haccess, ?_⟩
  · rcases hsc.workers with hk | hk
    · rwa [hk]
    · exact absurd hk hw
  · rw [haccess]
    exact hserv.workers hv.tasked (h.housed hw)

theorem act (h : Seated m e k) (hr : Ranged m) (hp : Placed m) (hv : Visited m) (ha : Act m m') :
    Seated m' e k := by
  obtain ⟨t, hserv⟩ := ha.service
  obtain ⟨u, hsc⟩ := ha.sectionChange hv.nestsUnique e k
  obtain ⟨v, hre⟩ := ha.reseats hv.nestsUnique e k
  have htask (hw : (m.domain e k).workers ≠ 0) (v : Nat) :
      (m.task v (m.engine e).access.scheduler).worker <
        (m.scheduler (m.engine e).access.scheduler).workers :=
    (hr.inRange _ (h.housed hw)).task (hv.tasked.wellFormed _) _
  have hin {w : Nat} (hw : (m.domain e k).workers ≠ 0 ∧
      w < (m.scheduler (m.engine e).access.scheduler).workers) : (m'.domain e k).workers ≠ 0 ∧
      w < (m'.scheduler (m'.engine e).access.scheduler).workers := by
    obtain ⟨hk, -, heq⟩ := h.keeps hv ha hw.1
    exact ⟨hk, heq ▸ hw.2⟩
  have hhas {id : Nat} (hw : (m.domain e k).workers ≠ 0 ∧
      (m.scheduler (m.engine e).access.scheduler).Has id) : (m'.domain e k).workers ≠ 0 ∧
      (m'.scheduler (m'.engine e).access.scheduler).Has id := by
    obtain ⟨hk, heq, -⟩ := h.keeps hv ha hw.1
    rw [heq]
    exact ⟨hk, hserv.has hv.tasked hw.2⟩
  refine ⟨fun hw' => ?_, fun v hs => ?_, fun w hw => ?_,
    fun w => (hsc.record w).wellFormed (h.wellFormed w), fun w id hid => ?_⟩
  · by_cases hw : (m.domain e k).workers = 0
    · -- the engine has just been built
      rcases ha.workers e k with hk | ⟨hsch, hk⟩
      · exact absurd (hk.trans hw) hw'
      · rw [scheduler, hsch]
        exact hk.elim (hr.named _) id
    · rw [(h.keeps hv ha hw).2.2]
      exact h.housed hw
  · rcases hre v with hv | hv | ⟨hw, hv⟩
    · rw [hv] at hs ⊢
      exact hin (h.seats v hs)
    · exact absurd hv hs
    · rw [hv]
      exact hin ⟨hw, htask hw _⟩
  · rcases (hsc.record w).active hw with hw | ⟨hne, rfl | rfl⟩
    · exact hin (h.active w hw)
    · exact hin ⟨hne, htask hne u⟩
    · exact hin ⟨hne, h.seat_lt hne u⟩
  · rcases (hsc.record w).names hv.tasked (h.wellFormed w) hid with hid | ⟨hne, ht⟩
    · exact hhas (h.named w id hid)
    · exact hhas ⟨hne, hp.has u _ _ ht⟩

end Seated

/-- As long as there are fewer threads than slots, everybody is in place. -/
theorem Reachable.placed (h : Reachable m) (ht : m.threads.size < capacity) :
    Placed m ∧ ∀ e k, Seated m e k := by
  refine (h.act_induction
    (P := fun m => Ranged m ∧ (m.threads.size < capacity → Placed m ∧ ∀ e k, Seated m e k))
    (fun workers host m hm => ⟨.new hm, fun _ => ⟨.new hm, fun e k => .new hm⟩⟩)
    fun m m' hv ⟨hr, hm⟩ ha => ⟨hr.service hv.tasked ha.service.choose_spec, fun hlt => ?_⟩).2 ht
  have hlt' := Nat.lt_of_le_of_lt ha.changes.threads_le hlt
  obtain ⟨hp, hseat⟩ := hm hlt'
  exact ⟨hp.act hv.tasked hlt' ha, fun e k => (hseat e k).act hr hp hv ha⟩

theorem surveyReaders_ok {p : Access} (hw : (m.scheduler p.scheduler).tasks.WellFormed)
    {ids : List Nat} (h : ∀ id ∈ ids, (m.scheduler p.scheduler).Has id) :
    ∃ q, m.surveyReaders p ids = .ok q := by
  induction ids with
  | nil => exact ⟨_, rfl⟩
  | cons id rest ih =>
    obtain ⟨hc, hl⟩ := h id List.mem_cons_self
    obtain ⟨q, hq⟩ := ih fun id hid => h id (List.mem_cons_of_mem _ hid)
    have hget := get_eq hw hc hl
    have hprio : (m.scheduler p.scheduler).priorityOf id =
        .ok ((m.scheduler p.scheduler).tasks.look id).value.priority := by
      rw [Scheduler.priorityOf, hget]
      rfl
    obtain ⟨b, hb⟩ : ∃ b, m.isInhibited p id = .ok b := by
      unfold isInhibited Scheduler.reportsInhibited Scheduler.isInhibited
      rw [hget]
      split <;> exact ⟨_, rfl⟩
    rw [surveyReaders, hprio, hb, hq]
    exact ⟨_, rfl⟩

/-- As long as there are fewer threads than slots, no look of a waiter fails, whatever locks have
panicked. -/
theorem Reachable.not_lost (h : Reachable m) (ht : m.threads.size < capacity) : ¬m.Lost e k target := by
  rintro ⟨w, hb, hw⟩
  have hseat := (h.placed ht).2 e k
  have hblocks : ((m.domain e k).records.get w).word.blocks target = true := by
    have hw := List.find?_some (p := (m.domain e k).isBlocker target) hb
    exact (Bool.and_eq_true_iff.1 hw).2
  refine hw ⟨?_, surveyReaders_ok (h.visited.tasked.wellFormed _) fun id hid => ?_⟩
  · -- who blocks has readers
    refine (hseat.active w fun h0 => ?_).2
    simp [ReaderWord.blocks, h0] at hblocks
  · exact (hseat.named w id (WorkerRecord.names_of_mem_tasks (hseat.wellFormed w) hid)).2

end Machine

end GracePeriod
