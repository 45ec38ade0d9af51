import GracePeriod.Proofs.StoppedDrains

namespace GracePeriod.Machine

variable {t u d e slot : Nat} {m m₀ m' m'' n : Machine} {k : Kind} {f : Frame} {top : Option Frame}

theorem Move.name {scope : Scope} (h : Move scope t m m') (hu : u < m.threads.size) :
    (m'.thread u).name = (m.thread u).name := by
  have hspawn (m : Machine) (hu : u < m.threads.size) (name : ThreadName) (systemName : String)
      (x : Drain) : (m.spawnDrain name systemName x).2.thread u = m.thread u :=
    (thread_spawnDrain ..).trans (if_neg (Nat.ne_of_lt hu))
  cases h with
  | control c | push f hf | stack fs hs => exact part_modifyThread Thread.name m t u fun _ => rfl
  | enroll s => exact part_enroll Thread.name (fun _ _ => rfl) m t s u
  | notify d => exact part_notify Thread.name (fun _ _ => rfl) m d u
  | openSection e k h => exact (Inside.openSection m t e k).part Thread.name (fun _ _ => rfl) u
  | closeSection e k => exact (Inside.closeSection m t e k).part Thread.name (fun _ _ => rfl) u
  | spawnTask name passes => exact congrArg Thread.name (hspawn m hu ..)
  | startEngine slot c p hc => exact congrArg Thread.name (thread_startEngine hu slot c p)
  | _ => rfl

theorem Leave.name (h : Leave t m m') : (m'.thread u).name = (m.thread u).name := by
  cases h with
  | idle _ | park _ => exact part_modifyThread Thread.name m t u fun _ => rfl
  | waitFor d =>
    exact (part_modifyThread Thread.name ((m.done t).modifyDrain d _) t u
      (f := fun x => { x with status := .waiting d }) fun _ => rfl).trans
        (part_modifyThread Thread.name m t u fun _ => rfl)
  | join v => exact part_join Thread.name (fun _ _ => rfl) m t v u
  | endThread p => exact part_endThread Thread.name (fun _ _ => rfl) (fun _ _ => rfl) m t p u

theorem External.name (h : External m m') (hu : u < m.threads.size) :
    (m'.thread u).name = (m.thread u).name := by
  have hwake (m : Machine) (t : Nat) := part_wake Thread.name (fun _ _ => rfl) m t u
  cases h with
  | actor _ i => exact congrArg Thread.name ((Table.get_push ..).trans (if_neg (Nat.ne_of_lt hu)))
  | resume h => exact hwake ..
  | @fault t _ h text =>
    exact (hwake (m.back t _) t).trans (part_modifyThread Thread.name m t u fun _ => rfl)
  | @instruct t _ h op =>
    exact (hwake (m.eval t none op) t).trans (part_modifyThread Thread.name m t u fun _ => rfl)
  | exit h => exact part_endThread Thread.name (fun _ _ => rfl) (fun _ _ => rfl) m _ none u

theorem Changes.name (h : Changes m m') (hu : u < m.threads.size) :
    (m'.thread u).name = (m.thread u).name := by
  induction h with
  | refl => rfl
  | tail h hc ih =>
    have hle := Nat.lt_of_lt_of_le hu (Changes.threads_le h)
    refine Eq.trans ?_ ih
    cases hc with
    | move ht hm => exact hm.name hle
    | leave ht hl => exact hl.name
    | pick hn hr => rfl
    | external he => exact he.name hle

theorem not_isLive (h : m.isLive u ≠ true) : m.Ended u := by
  unfold isLive at h
  split at h
  · exact ⟨_, ‹_›⟩
  · exact absurd rfl h

theorem Changes.isLive (h : Changes m m') (ho : Orderly m) (hu : u < m.threads.size)
    (hl : m'.isLive u = true) : m.isLive u = true := by
  by_contra hn
  obtain ⟨p, hp⟩ := not_isLive hn
  rw [Machine.isLive, h.ended ho hu hp] at hl
  cases hl

theorem External.drains (h : External m m') : m'.drains = m.drains := by
  cases h with
  | exit h => exact drains_endThread ..
  | _ => rfl

theorem External.stack (h : External m m') (ho : Orderly m) (u : Nat) :
    (m'.thread u).stack = (m.thread u).stack := by
  by_cases hu : (m.thread u).stack = []
  · rw [h.stack_eq_nil hu, hu]
  · exact (h.posture ho hu).1

theorem External.level (h : External m m') (ho : Orderly m) : Level m m' :=
  .of_eq (h.stack ho) h.alike.slots h.keepsEngines.engines

theorem External.keepsPlaces (h : External m m') : KeepsPlaces m m' :=
  .of_eq h.drains h.alike.slots h.keepsEngines.engines

theorem External.control (h : External m m') : (m'.thread u).control = (m.thread u).control ∨
    (∃ o, (m'.thread u).control = .back o) ∨ ∃ op, (m'.thread u).control = .eval none op := by
  have hwake (m : Machine) (t : Nat) := part_wake Thread.control (fun _ _ => rfl) m t u
  cases h with
  | actor _ i =>
    have ht : (m.spawn { name := .actor i, systemName := ThreadName.text (.actor i),
                         status := .idle }).2.thread u = if u = m.threads.size then
        { name := .actor i, systemName := ThreadName.text (.actor i), status := .idle }
        else m.thread u := Table.get_push ..
    rw [ht]
    split
    · exact .inr (.inl ⟨_, rfl⟩)
    · exact .inl rfl
  | @resume t _ h => exact .inl (hwake m t)
  | @fault t _ h text =>
    rw [hwake, Machine.back, thread_modifyThread]
    split
    · exact .inr (.inl ⟨_, rfl⟩)
    · exact .inl rfl
  | @instruct t _ h op =>
    rw [hwake, Machine.eval, thread_modifyThread]
    split
    · exact .inr (.inr ⟨_, rfl⟩)
    · exact .inl rfl
  | @exit t _ h => exact .inl (part_endThread Thread.control (fun _ _ => rfl) (fun _ _ => rfl) m t none u)

/-- Drain threads are named after the place of their engine in the table, and as long as
one of them has not ended, the table has no other engine there. -/
structure PlacesKept (m : Machine) : Prop where
  named : ∀ d e k s, m.Serves d e k → (m.engine e).slot = some s →
    (m.thread (m.drain d).thread).name = .drain (some s) k
  placed : ∀ d e k s, m.Serves d e k → m.isLive (m.drain d).thread = true →
    (m.engine e).slot = some s → (m.slots.get s).engine = e

theorem slotInUse_of_isLive {s : Nat} (hl : m.isLive u = true)
    (hn : (m.thread u).name = .drain (some s) k) : m.slotInUse s = true := by
  have hlive : (m.liveThread? (.drain (some s) k)).isSome = true := by
    refine List.find?_isSome.2 ⟨u, List.mem_range.2 (lt_size_of_isLive hl), ?_⟩
    simp [hn, hl]
  refine Bool.or_eq_true_iff.2 (.inr (List.any_eq_true.2 ⟨k, ?_, hlive⟩))
  cases k <;> decide

/-- Drain threads keep their names, and none comes back from its end. -/
def NamesKept (m m' : Machine) : Prop :=
  ∀ d e k, m.Serves d e k → (m'.thread (m.drain d).thread).name = (m.thread (m.drain d).thread).name ∧
    (m'.isLive (m.drain d).thread = true → m.isLive (m.drain d).thread = true)

theorem Changes.namesKept (h : Changes m m') (ho : Orderly m) (hs : DrainsAssigned m) : NamesKept m m' :=
  fun d e k hd => ⟨h.name (hs.thread d e k hd), h.isLive ho (hs.thread d e k hd)⟩

theorem PlacesKept.foundsNone (h : m.PlacesKept) (ht : FoundsNone m m') (hl : NamesKept m m') :
    m'.PlacesKept := by
  constructor
  · intro d e k s hd hslot
    have hd₀ := ht.serves d e k hd
    rw [(ht.kept.same d hd₀.lt_size).2, (hl d e k hd₀).1]
    exact h.named d e k s hd₀ ((ht.slot e).symm.trans hslot)
  · intro d e k s hd hlive hslot
    have hd₀ := ht.serves d e k hd
    rw [(ht.kept.same d hd₀.lt_size).2] at hlive
    rw [ht.places]
    exact h.placed d e k s hd₀ ((hl d e k hd₀).2 hlive) ((ht.slot e).symm.trans hslot)

theorem StepEffect.housed (h : StepEffect top t m₀ m') (hh : m₀.PlacesKept) (hl : NamesKept m₀ m')
    (hst : ∀ d e k, m₀.Serves d e k → e < m₀.engines.size) : m'.PlacesKept := by
  rcases h.foundsNone with ht | ⟨n, slot, c, p, hc, hfree, hq, -⟩
  · exact hh.foundsNone ht hl
  have hkept : Kept m₀ m' := hc.foundsNone.kept.trans ((kept_found n slot c p).trans hq.foundsNone.kept)
  have hslot (e : Nat) (hlt : e < m₀.engines.size) : (m'.engine e).slot = (m₀.engine e).slot := by
    have hne := Nat.ne_of_lt (Nat.lt_of_lt_of_le hlt hc.foundsNone.engines_le)
    rw [hq.slot, engine_found, (engine_startEngine n slot c p e).1, if_neg hne]
    exact hc.foundsNone.slot e
  have hnew : (m'.engine n.engines.size).slot = slot := by
    rw [hq.slot, engine_found, (engine_startEngine n slot c p _).1, if_pos rfl]
  constructor
  · intro d e k s hd he
    rcases serves_found.1 (hq.foundsNone.serves d e k hd) with hd | ⟨rfl, rfl⟩
    · have hd₀ := hc.foundsNone.serves d e k hd
      rw [(hkept.same d hd₀.lt_size).2, (hl d e k hd₀).1]
      exact hh.named d e k s hd₀ ((hslot e (hst d e k hd₀)).symm.trans he)
    · obtain rfl := hnew.symm.trans he
      rw [(hfree s rfl).2, hq.thread]
      exact named_startEngine n (some s) c p k
  · intro d e k s hd hlive he
    rw [hq.places]
    rcases serves_found.1 (hq.foundsNone.serves d e k hd) with hd | ⟨rfl, rfl⟩
    · have hd₀ := hc.foundsNone.serves d e k hd
      have he₀ := (hslot e (hst d e k hd₀)).symm.trans he
      rw [(hkept.same d hd₀.lt_size).2] at hlive
      have hlive₀ := (hl d e k hd₀).2 hlive
      have hplace := (hc.foundsNone.places s).trans (hh.placed d e k s hd₀ hlive₀ he₀)
      cases slot with
      | none => exact hplace
      | some s' =>
        show ((n.slots.set s' _).get s).engine = e
        rw [Table.get_set]
        split
        · rename_i hss
          obtain ⟨hln, hnn⟩ := PlainMoves.thread hc hlive₀
          have huse := slotInUse_of_isLive hln (hnn.trans (hh.named d e k s hd₀ he₀))
          rw [hss, (hfree s' rfl).1] at huse
          cases huse
        · exact hplace
    · obtain rfl := hnew.symm.trans he
      show ((n.slots.set s _).get s).engine = _
      rw [Table.get_set, if_pos rfl]

structure HandleInvariant (m : Machine) : Prop where
  solvent : ∀ e, m.handleCount e ≤ (m.engine e).handles
  usesOwnHandle : ∀ u, m.UsesOwnHandle u
  fit : ∀ u, m.Fit u
  housed : m.PlacesKept
  paired : m.Paired
  closed : ∀ d, m.isShut d = true → m.BeingStopped d

theorem HandleInvariant.finds (h : HandleInvariant m) (hc : m.FramesFit t) (hl : m.isLive t = true)
    {held : Option Nat}
    (hb : HeldByCallback held (m.thread t).stack) : m.Finds held := by
  have htable (slot e : Nat) (he : m.tableEngine slot = some e) :
      0 < (m.engine e).handles ∧ (m.slots.get slot).engine = e :=
    ⟨handles_pos_of_table (h.solvent e) he, (tableEngine_eq_some.1 he).2⟩
  intro slot e he
  cases held with
  | none => exact htable slot e he
  | some e' =>
    rw [resolve] at he
    split at he
    · rename_i hslot
      obtain rfl := Option.some.inj he
      obtain ⟨hr, k, cs, hbatch⟩ := hb e' rfl
      obtain ⟨d, hd, rfl⟩ := hc _ hbatch
      refine ⟨?_, h.housed.placed d e' k slot hd hl hslot⟩
      have hle := handleCount_le_of_mem hr e'
      have := h.solvent e'
      rw [Frame.handleCount, if_pos rfl] at hle
      omega
    · exact htable slot e he

theorem HandleInvariant.prepared (h : HandleInvariant m) (hc : m.FramesFit t) (hr : Rooted m)
    (hl : m.isLive t = true) :
    m.Prepared t where
  stack := (h.usesOwnHandle t).1
  control := (h.usesOwnHandle t).2
  finds held op hctl := h.finds hc hl ((h.usesOwnHandle t).2 held op hctl)
  bare := hr.bare
  tasks _ hd := h.fit t _ hd
  workers _ _ hd := (hc _ hd).2

theorem Starts.keepsPlaces (h : Starts t m top n) : KeepsPlaces m n := by
  cases h with
  | same => exact .refl m
  | pop hs => exact .modifyThread ..

theorem Starts.drains (h : Starts t m top n) : n.drains = m.drains := by
  cases h <;> rfl

theorem Starts.engines (h : Starts t m top n) : n.engines = m.engines := by
  cases h <;> rfl

theorem Starts.status (h : Starts t m top n) (u : Nat) :
    (n.thread u).status = (m.thread u).status := by
  cases h with
  | same => rfl
  | pop hs => exact part_modifyThread Thread.status m t u fun _ => rfl

theorem Starts.name (h : Starts t m top n) (u : Nat) : (n.thread u).name = (m.thread u).name := by
  cases h with
  | same => rfl
  | pop hs => exact part_modifyThread Thread.name m t u fun _ => rfl

theorem Starts.control (h : Starts t m top n) (u : Nat) :
    (n.thread u).control = (m.thread u).control := by
  cases h with
  | same => rfl
  | pop hs => exact part_modifyThread Thread.control m t u fun _ => rfl

theorem Starts.mem (h : Starts t m top n) (ht : top = some f) : f ∈ (m.thread t).stack := by
  cases h with
  | same => cases ht
  | pop hs =>
    obtain rfl := Option.some.inj ht
    rw [hs]
    exact List.mem_cons_self

theorem Starts.fit (h : Starts t m top n) (hf : m.Fit t) (hl : m.isLive t = true) : n.Fit t :=
  fun g hg => (hf g (h.mem_stack hg)).lasting h.keepsPlaces.foundsNone.lasting hl

theorem Starts.usesOwnHandle (h : Starts t m top n) (hu : m.UsesOwnHandle t) (hc : StepStart m t top) :
    n.UsesOwnHandle t := by
  cases h with
  | same => exact hu
  | @pop f rest hs =>
    obtain ⟨o, ho⟩ := hc.back (Option.some_ne_none f)
    have hb := hu.1
    rw [hs] at hb
    refine ⟨?_, fun held op hctl => ?_⟩
    · rw [stack_pop]
      exact hb.2
    · cases (hctl.symm.trans (control_pop ..)).trans ho

theorem StepEffect.lasting (h : StepEffect top t m₀ m')
    (hst : ∀ d e k, m₀.Serves d e k → e < m₀.engines.size) : Lasting m₀ m' := by
  rcases h.foundsNone with ht | ⟨n, slot, c, p, hn, -, hq, -⟩
  · exact ht.lasting
  · have hm : Lasting n (n.found slot c p) := lasting_found (fun d e k hd =>
      Nat.lt_of_lt_of_le (hst d e k (hn.foundsNone.serves d e k hd)) hn.foundsNone.engines_le) slot c p
    refine hn.foundsNone.lasting.trans (fun u hu => (PlainMoves.thread hn hu).1) ?_
    refine ⟨fun d hd => hq.foundsNone.lasting.bare d (hm.bare d hd), fun d u hu hd => ?_,
      fun d hd => hq.foundsNone.lasting.beingStopped d (hm.beingStopped d hd)⟩
    rw [hq.thread]
    exact hm.aims d u hu hd

theorem StepEffect.paired (h : StepEffect top t m₀ m') (hp : m₀.Paired) : m'.Paired := by
  rcases h.foundsNone with ht | ⟨n, slot, c, p, hn, -, hq, -⟩
  · exact hp.foundsNone ht
  · exact (paired_found (hp.foundsNone hn.foundsNone) slot c p).foundsNone hq.foundsNone

theorem HandleInvariant.external (h : HandleInvariant m) (ho : Orderly m) (hs : DrainsAssigned m)
    (he : External m m') :
    HandleInvariant m' := by
  have hlevel := he.level ho
  have hplaces := he.keepsPlaces
  have hc : Changes m m' := .single (.external he)
  have hhandles (e : Nat) : (m'.engine e).handles = (m.engine e).handles := hlevel.handles e
  refine ⟨fun e => ?_, fun u => ⟨?_, fun held op hctl => ?_⟩, fun u f hf => ?_,
    h.housed.foundsNone hplaces.foundsNone (hc.namesKept ho hs),
    h.paired.foundsNone hplaces.foundsNone, fun d hd => ?_⟩
  · have := hlevel.balanced e
    have := h.solvent e
    rw [hhandles] at *
    omega
  · rw [he.stack ho]
    exact (h.usesOwnHandle u).1
  · rw [he.stack ho]
    rcases he.control (u := u) with hctl' | ⟨o, hctl'⟩ | ⟨op', hctl'⟩
    · exact (h.usesOwnHandle u).2 held op (hctl'.symm.trans hctl)
    · cases hctl'.symm.trans hctl
    · cases hctl'.symm.trans hctl
      exact heldByCallback_none _
  · rw [he.stack ho] at hf
    refine (h.fit u f hf).lasting hplaces.foundsNone.lasting ?_
    by_contra hl
    obtain ⟨p, hp⟩ := not_isLive hl
    rw [ho.resting u (.inr ⟨p, hp⟩)] at hf
    cases hf
  · rw [isShut_of_drains he.drains] at hd
    exact hplaces.foundsNone.lasting.beingStopped d (h.closed d hd)

theorem HandleInvariant.starts (h : HandleInvariant m) (hn : Starts t m top n) (hl : m.isLive t = true)
    (hc : StepStart m t top) :
    n.isLive t = true ∧ n.UsesOwnHandle t ∧ n.Fit t ∧ (∀ f, top = some f → n.Fitting t f) ∧ n.Paired ∧
      ∀ e, n.handleCount e + topHandleCount e top ≤ (n.engine e).handles := by
  refine ⟨(isLive_of_status (hn.status t)).trans hl, hn.usesOwnHandle (h.usesOwnHandle t) hc,
    hn.fit (h.fit t) hl, fun f hf => ?_, h.paired.foundsNone hn.keepsPlaces.foundsNone, fun e => ?_⟩
  · exact (h.fit t f (hn.mem hf)).lasting hn.keepsPlaces.foundsNone.lasting hl
  · obtain ⟨hs, hh⟩ := handleCount_starts hn e
    rw [hs, hh]
    exact h.solvent e

theorem Unmoved.usesOwnHandle (h : Unmoved u m m') (hu : m.UsesOwnHandle u) : m'.UsesOwnHandle u := by
  cases h with
  | same hs hc => exact UsesOwnHandle.same hu hs (.inl hc)
  | started _ d hd ht hs hc =>
    refine ⟨?_, fun held op hctl => by cases hc.symm.trans hctl⟩
    rw [hs]
    exact ⟨heldByCallback_none _, trivial⟩

theorem Unmoved.fit (h : Unmoved u m m') (hf : m.Fit u) (hm : Lasting m m')
    (hl : (m.thread u).stack ≠ [] → m.isLive u = true) : m'.Fit u := by
  intro f hmem
  cases h with
  | same hs _ =>
    rw [hs] at hmem
    exact (hf f hmem).lasting hm (hl (List.ne_nil_of_mem hmem))
  | started _ d hd ht hs _ =>
    rw [hs, List.mem_singleton] at hmem
    rw [hmem]
    trivial

theorem HandleInvariant.advance (h : HandleInvariant m) (hr : Reachable m) (hb : m.BuildsIdle)
    (ht : m.turn = some t) : HandleInvariant (m.advance t) := by
  have ho := hr.visited.orderly
  have hst := hr.visited.drainsAssigned
  have hl := isLive_of_active (ho.turn t ht).1
  have hcs := advance_changes hb ht
  obtain ⟨top, n, hn, hc, he⟩ := (h.prepared (hr.framesFit t) hr.rooted hl).advance
  obtain ⟨hln, hun, hfn, htop, hpn, hsn⟩ := h.starts hn hl hc
  have hserves (d e : Nat) (k : Kind) (hd : n.Serves d e k) : e < n.engines.size := by
    rw [hn.engines]
    exact hst.engine d e k (hn.keepsPlaces.foundsNone.serves d e k hd)
  have hlast : Lasting m (m.advance t) :=
    hn.keepsPlaces.foundsNone.lasting.trans (fun u hu => (isLive_of_status (hn.status u)).trans hu)
      (he.lasting hserves)
  refine ⟨fun e => ?_, fun u => ?_, fun u => ?_, ?_, he.paired hpn, fun d hd => ?_⟩
  · have := he.balanced e
    have := hsn e
    omega
  · by_cases hu : u = t
    · rw [hu]
      refine he.usesOwnHandle hln hun fun hne => ?_
      rw [hn.control]
      exact hc.back hne
    · exact (advance_unmoved hb ht hu).usesOwnHandle (h.usesOwnHandle u)
  · by_cases hu : u = t
    · rw [hu]
      exact he.fit hln hserves hpn hsn htop hfn
    · refine (advance_unmoved hb ht hu).fit (h.fit u) hlast fun hne => ?_
      by_contra hdead
      obtain ⟨p, hp⟩ := not_isLive hdead
      exact hne (ho.resting u (.inr ⟨p, hp⟩))
  · have hling := hcs.namesKept ho hst
    refine he.housed (h.housed.foundsNone hn.keepsPlaces.foundsNone fun d e k _ => ⟨hn.name _, fun hl => ?_⟩)
      (fun d e k hd => ?_) hserves
    · rwa [isLive_of_status (hn.status _)] at hl
    · have hd' := hn.keepsPlaces.foundsNone.serves d e k hd
      rw [hn.keepsPlaces.thread, hn.name, isLive_of_status (hn.status _)]
      exact hling d e k hd'
  · rcases he.closes hpn hsn htop hd with hd | hd
    · rw [isShut_of_drains hn.drains] at hd
      exact hlast.beingStopped d (h.closed d hd)
    · exact hd

/-- Handles are in order in every reachable machine. -/
theorem Reachable.handleInvariant (h : Reachable m) : HandleInvariant m := by
  induction h with
  | new hm =>
    obtain ⟨cs, -, rfl⟩ := new_eq hm
    have hthread (ss : Table Scheduler) (i h : Nat) (u : Nat) :
        ({ schedulers := ss, named := i, hostWorkers := h } : Machine).thread u = default :=
      Table.get_empty u
    have hdrain (ss : Table Scheduler) (i h : Nat) (d : Nat) :
        ({ schedulers := ss, named := i, hostWorkers := h } : Machine).drain d = default :=
      Table.get_empty d
    have hno {d e : Nat} {k : Kind} {ss : Table Scheduler} {i h : Nat}
        (hd : ({ schedulers := ss, named := i, hostWorkers := h } : Machine).Serves d e k) : False := by
      rw [Serves, hdrain] at hd
      cases hd
    refine ⟨fun e => Nat.zero_le _, fun u => ⟨?_, fun held op hc => ?_⟩, fun u f hf => ?_,
      ⟨fun d e k s hd => (hno hd).elim, fun d e k s hd => (hno hd).elim⟩, fun e k hp => ?_,
      fun d hd => ?_⟩
    · rw [hthread]
      trivial
    · rw [hthread] at hc
      cases hc
    · rw [hthread] at hf
      cases hf
    · rw [engine, Table.get_empty] at hp
      cases hp
    · rw [isShut, hdrain] at hd
      cases hd
  | begin h s ih =>
    have hall := (begin_externals _ s).preserves (P := fun m => HandleInvariant m ∧ DrainsAssigned m)
      (fun n n' ho he hp => ⟨hp.1.external ho hp.2 he, hp.2.change (.external he)⟩)
      h.visited.orderly ⟨ih, h.visited.drainsAssigned⟩
    exact hall.1
  | step h hb hs ih =>
    rcases step_cases hs with ⟨t, ht, rfl⟩ | ⟨t, rest, hn, hr, rfl⟩
    · exact ih.advance h hb ht
    · exact ⟨ih.solvent, ih.usesOwnHandle, ih.fit, ⟨ih.housed.named, ih.housed.placed⟩, ih.paired, ih.closed⟩

theorem Reachable.stepEffect (h : Reachable m) (ht : m.turn = some t) :
    ∃ top n, Starts t m top n ∧ StepStart m t top ∧ StepEffect top t n (m.advance t) :=
  (h.handleInvariant.prepared (h.framesFit t) h.rooted
    (isLive_of_active (h.visited.orderly.turn t ht).1)).advance

end GracePeriod.Machine
