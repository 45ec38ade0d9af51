import GracePeriod.Proofs.Move
import GracePeriod.Proofs.Section

namespace GracePeriod

namespace Domain

theorem register_get (d : Domain) (w v : Nat) :
    (d.register w).1.epoch = d.epoch ∧ (d.register w).1.workers = d.workers ∧
      ∃ b, (d.register w).1.records.get v = { d.records.get v with registered := b } ∧
        ((d.records.get v).registered = true → b = true) := by
  unfold register onRecord
  split
  · exact ⟨rfl, rfl, _, rfl, id⟩
  · rename_i r hr
    have hrec : d.records.get w = r := by
      unfold record at hr
      split at hr
      · exact Except.ok.inj hr
      · cases hr
    refine ⟨rfl, rfl, ?_⟩
    dsimp only
    rw [get_setRecord]
    split
    · rename_i hv
      exact ⟨true, by rw [hv, hrec], fun _ => rfl⟩
    · exact ⟨_, rfl, id⟩

theorem registerAll_get (d : Domain) (v : Nat) :
    d.registerAll.epoch = d.epoch ∧ d.registerAll.workers = d.workers ∧
      ∃ b, d.registerAll.records.get v = { d.records.get v with registered := b } := by
  have h (ws : List Nat) (d : Domain) :
      (ws.foldl (fun d w => (d.register w).1) d).epoch = d.epoch ∧
      (ws.foldl (fun d w => (d.register w).1) d).workers = d.workers ∧
      ∃ b, (ws.foldl (fun d w => (d.register w).1) d).records.get v =
        { d.records.get v with registered := b } := by
    induction ws generalizing d with
    | nil => exact ⟨rfl, rfl, _, rfl⟩
    | cons w ws ih =>
      obtain ⟨he, hw, b, hb, -⟩ := register_get d w v
      obtain ⟨he', hw', b', hb'⟩ := ih (d.register w).1
      exact ⟨he'.trans he, hw'.trans hw, b', by rw [List.foldl_cons, hb', hb]⟩
  exact h _ d

theorem readers_start (n : Nat) (seeds : List UInt32) (w : Nat) :
    ((start n seeds).records.get w).readers = {} := by
  by_cases hw : w < n
  · simp [start, Table.get, hw]
  · simp only [start, Table.get, List.getD, List.getElem?_map]
    rw [List.getElem?_eq_none (by simpa using hw)]
    rfl

end Domain

namespace Machine

variable {m m' : Machine} {t e : Nat} {k : Kind}

/-- What can happen to the sections of a domain in one move of thread `t`. -/
inductive SectionChange (t e : Nat) (k : Kind) (m m' : Machine) : Prop
  | still (h : Still e k m m')
  | opening (w i : Nat) (h : Opening t e k w i m m')
  | closing (w i : Nat) (h : Closing t e k w i m m')
  | stranding (h : Stranding t e k m m')
  | registering (w : Nat) (hp : ∀ u, m'.place u e k = m.place u e k)
      (hd : m'.domain e k = ((m.domain e k).register w).1) (hh : m'.history e k = m.history e k)
  | advancing (hp : ∀ u, m'.place u e k = m.place u e k)
      (hd : m'.domain e k = (m.domain e k).advance)
      (hh : m'.history e k = (t, .advanced ((m.domain e k).epoch + 1)) :: m.history e k)
  | founding (he : e = m.engines.size) (hp : ∀ u, m'.place u e k = m.place u e k)
      (hw : (m.domain e k).workers = 0)
      (hd : ∀ w, ((m'.domain e k).records.get w).word.active = 0 ∧
        ((m'.domain e k).records.get w).readers = {})
      (hh : m'.history e k = m.history e k)

theorem Still.of_eq {m' : Machine} (hn : ∀ u, m'.nests u = m.nests u)
    (hd : m'.domain e k = m.domain e k) (ht : m'.history e k = m.history e k) :
    Still e k m m' :=
  ⟨fun u => congrArg (·.place e k) (hn u), hd, [], by simp, ht⟩

theorem Still.modifyEngine (m : Machine) (e' : Nat) {f : Engine → Engine}
    (hf : ∀ x, (f x).domains = x.domains) : Still e k m (m.modifyEngine e' f) := by
  refine .of_eq (fun _ => rfl) ?_ rfl
  simp only [Machine.domain, Machine.engine, Machine.modifyEngine, Table.get_modify, Engine.domain]
  split
  · rename_i he
    rw [hf, he]
  · rfl

theorem Move.nests {scope : Scope} {m' : Machine} (h : Move scope t m m') :
    (∀ u, m'.nests u = m.nests u) ∨
      (∃ e k, m' = (m.openSection t e k).1) ∨ ∃ e k, m' = (m.closeSection t e k).1 := by
  cases h with
  | openSection e k => exact .inr (.inl ⟨e, k, rfl⟩)
  | closeSection e k => exact .inr (.inr ⟨e, k, rfl⟩)
  | control c | push f hf | stack fs hs =>
    exact .inl (fun u => part_modifyThread Thread.nests m t u fun _ => rfl)
  | enroll s => exact .inl (part_enroll Thread.nests (fun _ _ => rfl) m t s)
  | notify d => exact .inl (part_notify Thread.nests (fun _ _ => rfl) m d)
  | startEngine slot c p hc => exact .inl (part_startEngine Thread.nests (fun _ _ _ => rfl) m slot c p)
  | spawnTask name passes => exact .inl (part_spawnDrain Thread.nests _ _ _ _ rfl)
  | _ => exact .inl fun _ => rfl

theorem unique_enterRecord (hu : (m.nests t).Unique) :
    ((m.enterRecord t e k).1.nests t).Unique := by
  unfold enterRecord
  dsimp only
  split
  · exact hu
  · split
    · exact hu
    · rename_i i _
      show Nests.Unique (nests (setNests _ t _) t)
      rw [nests_setNests, if_pos rfl]
      exact Nests.unique_update hu (Nest.engine_setPlace k _ i) e

theorem unique_openSection (hu : (m.nests t).Unique) :
    ((m.openSection t e k).1.nests t).Unique := by
  have hd : ((m.deepen t e k).1.nests t).Unique := by
    unfold deepen
    dsimp only
    split
    · rw [nests_setNests, if_pos rfl]
      exact Nests.unique_ensure hu e
    · split
      · exact unique_enterRecord (unique_setDepth hu e k _)
      · exact unique_setDepth hu e k _
  unfold openSection
  dsimp only
  split
  · exact hd
  · exact hd

theorem unique_closeSection (hu : (m.nests t).Unique) :
    ((m.closeSection t e k).1.nests t).Unique := by
  rw [closeSection_eq]
  split
  · exact hu
  · rename_i i hi
    have hr := unique_rise hu k i
    split
    · unfold leaveRecord
      dsimp only
      split
      · exact hr
      · split
        · show Nests.Unique (nests (setNests _ t _) t)
          rw [nests_setNests, if_pos rfl]
          obtain ⟨hlt, -⟩ := List.getElem?_eq_some_iff.1 (getElem?_rise hu hi)
          exact Nests.unique_swapRemove hr hlt
        · exact hr
    · exact hr

theorem Move.unique {scope : Scope} {m' : Machine} (h : Move scope t m m')
    (hu : m.NestsUnique) : m'.NestsUnique := by
  intro u
  rcases h.nests with hn | ⟨e, k, rfl⟩ | ⟨e, k, rfl⟩
  · rw [hn]
    exact hu u
  · by_cases hut : u = t
    · rw [hut]
      exact unique_openSection (hu t)
    · rw [(Inside.openSection m t e k).nests_ne hut]
      exact hu u
  · by_cases hut : u = t
    · rw [hut]
      exact unique_closeSection (hu t)
    · rw [(Inside.closeSection m t e k).nests_ne hut]
      exact hu u

theorem startEngine_founding (m : Machine) (slot : Option Nat) {c : Config} {p : Access}
    (hc : c.StartsIdle p.workers) (e : Nat) (k : Kind) :
    SectionChange t e k m (m.startEngine slot c p).2 := by
  have hn := part_startEngine Thread.nests (fun _ _ _ => rfl) m slot c p
  by_cases he : e = m.engines.size
  · subst he
    refine .founding rfl (fun u => congrArg (Nests.place · _ k) (hn u)) ?_ (fun w => ?_) rfl
    · rw [domain, engine, Table.get_of_size_le (Nat.le_refl _)]
      cases k <;> rfl
    · have hi := hc k w
      have hr : (((Domain.startBoth p.workers c.seeds).get k).records.get w).readers = {} := by
        cases k <;> exact Domain.readers_start ..
      have hx : (m.startEngine slot c p).2.domain m.engines.size k =
          if c.autoRegister then ((Domain.startBoth p.workers c.seeds).get k).registerAll
          else (Domain.startBoth p.workers c.seeds).get k := by
        have hg : (m.startEngine slot c p).2.engine m.engines.size =
            (m.startEngine slot c p).2.engines.get m.engines.size := rfl
        rw [domain, hg]
        simp only [startEngine]
        rw [Table.get_push]
        refine (congrArg (Engine.domain · k) (if_pos rfl)).trans ?_
        cases c.autoRegister <;> cases k <;> rfl
      rw [hx]
      split
      · obtain ⟨-, -, b, hb⟩ :=
          Domain.registerAll_get ((Domain.startBoth p.workers c.seeds).get k) w
        rw [hb]
        exact ⟨hi, hr⟩
      · exact ⟨hi, hr⟩
  · refine .still (.of_eq hn ?_ rfl)
    exact congrArg (fun x : Engine => x.domain k) ((Table.get_push ..).trans (if_neg he))

theorem Move.sectionChange {scope : Scope} (h : Move scope t m m') (hu : m.NestsUnique)
    (e : Nat) (k : Kind) : SectionChange t e k m m' := by
  cases h with
  | openSection e' k' hs =>
    by_cases hk : e = e' ∧ k = k'
    · obtain ⟨rfl, rfl⟩ := hk
      rcases openSection_cases (e := e) (k := k) (hu t) hs with ⟨-, h⟩ | ⟨w, i, -, h⟩ | ⟨f, -, h⟩
      · exact .still h
      · exact .opening w i h
      · exact .stranding h
    · exact .still (openSection_ne (hu t) hk)
  | closeSection e' k' =>
    by_cases hk : e = e' ∧ k = k'
    · obtain ⟨rfl, rfl⟩ := hk
      rcases closeSection_cases (e := e) (k := k) (hu t) with h | ⟨w, i, -, h⟩
      · exact .still h
      · exact .closing w i h
    · exact .still (closeSection_ne (hu t) hk)
  | register e' k' w =>
    have hdom := domain_setDomain m e' e k' k (((m.engine e').domain k').register w).1
    by_cases hk : e = e' ∧ k = k'
    · obtain ⟨rfl, rfl⟩ := hk
      exact .registering w (fun _ => rfl) (hdom.trans (if_pos ⟨rfl, rfl⟩)) rfl
    · exact .still (.of_eq (fun _ => rfl) (hdom.trans (if_neg hk)) rfl)
  | advance e' k' =>
    by_cases hk : e = e' ∧ k = k'
    · obtain ⟨rfl, rfl⟩ := hk
      have hdom := domain_setDomain m e e k k ((m.engine e).domain k).advance
      exact .advancing (fun _ => rfl) (hdom.trans (if_pos ⟨rfl, rfl⟩)) history_mark_self
    · have hne : ¬(e' = e ∧ k' = k) := fun hc => hk ⟨hc.1.symm, hc.2.symm⟩
      exact .still ((Still.setDomain_ne m hne _).trans (.mark_ne _ _ hne _))
  | startEngine slot c p hc => exact startEngine_founding m slot hc e k
  | mark e' k' v hv =>
    exact .still (.mark m t e' k' (Mark.isStill_of_isSilent (Scope.isSilent_of_marks hv)))
  | enqueue e' k' c =>
    have hq : Still e k m (m.modifyEngine e' fun x => x.setQueue k' (x.queue k' ++ [c])) :=
      .modifyEngine m e' fun _ => rfl
    exact .still (hq.trans (.mark _ _ _ _ rfl))
  | detach e' k' hs => exact .still (.modifyEngine m e' fun _ => rfl)
  | handles e' n => exact .still (.modifyEngine m e' fun _ => rfl)
  | control c | push f hf | stack fs hs =>
    exact .still (.of_eq (fun u => part_modifyThread Thread.nests m t u fun _ => rfl) rfl rfl)
  | emit v hv => exact .still (.of_eq (fun _ => rfl) rfl (history_emit hv e k))
  | enroll s =>
    refine .still (.of_eq (part_enroll Thread.nests (fun _ _ => rfl) m t s) ?_ ?_)
    · rw [enroll_eq]
      rfl
    · rw [enroll_eq]
      rfl
  | notify d =>
    refine .still (.of_eq (part_notify Thread.nests (fun _ _ => rfl) m d) ?_ ?_)
    · rw [notify_eq]
      rfl
    · rw [notify_eq]
      rfl
  | spawnTask name passes =>
    exact .still (.of_eq (part_spawnDrain Thread.nests _ _ _ _ rfl) rfl rfl)
  | scheduler s f hf | addScheduler n | drain d f hf | tables slots keys task =>
    exact .still (.of_eq (fun _ => rfl) rfl rfl)

def Emits (scope : Scope) (t e : Nat) (k : Kind) (vs : History) : Prop :=
  ∀ p ∈ vs, p.1 = t ∧ (scope.marks e k p.2 = true ∨ p.2.isSilent = false)

variable {scope : Scope}

theorem history_append {vs : List (Nat × Event)} (h : m'.trace = vs ++ m.trace) (e : Nat)
    (k : Kind) : m'.history e k =
      vs.filterMap (fun p => (p.2.markFor e k).map (p.1, ·)) ++ m.history e k := by
  rw [history, h, List.filterMap_append]
  rfl

theorem Inside.marks (h : Inside t m m') (e : Nat) (k : Kind) :
    ∃ vs : History, m'.history e k = vs ++ m.history e k ∧
      ∀ p ∈ vs, p.1 = t ∧ p.2.isReading = true := by
  obtain ⟨vs, ht, hv⟩ := h.trace
  refine ⟨_, history_append ht e k, fun p hp => ?_⟩
  obtain ⟨q, hq, hp⟩ := List.mem_filterMap.1 hp
  obtain ⟨hqt, e', k', v, hqv, hs⟩ := hv q hq
  rw [hqv] at hp
  simp only [Event.markFor] at hp
  split at hp
  · obtain rfl := Option.some.inj hp
    exact ⟨hqt, hs⟩
  · cases hp

theorem Inside.history (h : Inside t m m') (scope : Scope) (e : Nat) (k : Kind) :
    ∃ vs, m'.history e k = vs ++ m.history e k ∧ Emits scope t e k vs := by
  obtain ⟨vs, hh, hv⟩ := h.marks e k
  exact ⟨vs, hh, fun p hp => ⟨(hv p hp).1, .inr (Mark.isSilent_of_isReading (hv p hp).2)⟩⟩

theorem history_mark (m : Machine) (t e' e : Nat) (k' k : Kind) (v : Mark) :
    (m.mark t e' k' v).history e k =
      if e' = e ∧ k' = k then (t, v) :: m.history e k else m.history e k := by
  split
  · rename_i h
    obtain ⟨rfl, rfl⟩ := h
    exact history_mark_self
  · rename_i h
    exact history_mark_ne h

theorem Move.history (h : Move scope t m m') (e : Nat) (k : Kind) :
    ∃ vs, m'.history e k = vs ++ m.history e k ∧ Emits scope t e k vs := by
  have hmark {n : Machine} {e' : Nat} {k' : Kind} {v : Mark} (hn : n.history e k = m.history e k)
      (hv : scope.marks e' k' v = true ∨ v.isSilent = false) :
      ∃ vs, (n.mark t e' k' v).history e k = vs ++ m.history e k ∧ Emits scope t e k vs := by
    rw [history_mark, hn]
    split
    · rename_i h
      obtain ⟨rfl, rfl⟩ := h
      refine ⟨[(t, v)], rfl, fun p hp => ?_⟩
      rw [List.mem_singleton.1 hp]
      exact ⟨rfl, hv⟩
    · exact ⟨[], rfl, nofun⟩
  cases h with
  | mark e' k' v hv => exact hmark rfl (.inl hv)
  | advance e' k' => exact hmark rfl (.inr rfl)
  | enqueue e' k' c => exact hmark rfl (.inr rfl)
  | openSection e' k' hs => exact (Inside.openSection m t e' k').history scope e k
  | closeSection e' k' => exact (Inside.closeSection m t e' k').history scope e k
  | emit v hv => exact ⟨[], history_emit hv e k, nofun⟩
  | enroll s =>
    rw [enroll_eq]
    exact ⟨[], rfl, nofun⟩
  | notify d =>
    rw [notify_eq]
    exact ⟨[], rfl, nofun⟩
  | _ => exact ⟨[], rfl, nofun⟩

theorem Moves.history (h : Moves scope t m m') (e : Nat) (k : Kind) :
    ∃ vs, m'.history e k = vs ++ m.history e k ∧ Emits scope t e k vs := by
  induction h with
  | refl => exact ⟨[], rfl, nofun⟩
  | tail _ hm ih =>
    obtain ⟨vs, hh, hv⟩ := ih
    obtain ⟨vs', hh', hv'⟩ := hm.history e k
    refine ⟨vs' ++ vs, by rw [hh', hh, List.append_assoc], fun p hp => ?_⟩
    exact (List.mem_append.1 hp).elim (hv' p) (hv p)

end Machine

end GracePeriod
