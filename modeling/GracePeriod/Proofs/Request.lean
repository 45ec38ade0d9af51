import GracePeriod.Proofs.Act
import GracePeriod.Proofs.Ledger

namespace GracePeriod.Machine

open History

variable {scope : Scope} {top : Option Frame} {m m' m'' : Machine} {t : Nat}

/-- Engines that can be found have their drain tasks, the bare task of the table serves no domain, and
every callback has asked for one pass over its domain. -/
structure Rooted (m : Machine) : Prop where
  serves : ∀ e k, m.Known e → m.Serves ((m.engine e).drains.get k) e k
  bare : ∀ d, m.bareTask = some d → d < m.drains.size ∧ (m.drain d).work.domain? = none
  requested : ∀ d e k, m.Serves d e k →
    (m.drain d).tickets.requested = (queued (m.history e k)).length
  unborn : ∀ e k, m.engines.size ≤ e → queued (m.history e k) = []

/-- Engines can be found as before and have the same drain tasks, with the same work. -/
structure Fixed (m m' : Machine) : Prop where
  slot : ∀ e, (m'.engine e).slot = (m.engine e).slot
  drains : ∀ e, (m'.engine e).drains = (m.engine e).drains
  engines : m.engines.size ≤ m'.engines.size
  slots : m'.slots = m.slots
  bareTask : m'.bareTask = m.bareTask
  size : m.drains.size ≤ m'.drains.size
  work : ∀ d, (m'.drain d).work = (m.drain d).work

namespace Fixed

theorem of_eq (he : m'.engines = m.engines) (hs : m'.slots = m.slots)
    (hb : m'.bareTask = m.bareTask) (hd : m'.drains = m.drains) : Fixed m m' := by
  have hengine (e : Nat) : m'.engine e = m.engine e := congrArg (Table.get · e) he
  refine ⟨fun e => by rw [hengine], fun e => by rw [hengine], by rw [he], hs, hb, by rw [hd],
    fun d => ?_⟩
  exact congrArg Drain.work (congrArg (Table.get · d) hd)

theorem trans (h : Fixed m m') (h' : Fixed m' m'') : Fixed m m'' where
  slot e := (h'.slot e).trans (h.slot e)
  drains e := (h'.drains e).trans (h.drains e)
  engines := h.engines.trans h'.engines
  slots := h'.slots.trans h.slots
  bareTask := h'.bareTask.trans h.bareTask
  size := h.size.trans h'.size
  work d := (h'.work d).trans (h.work d)

theorem modifyEngine (m : Machine) (e : Nat) {f : Engine → Engine}
    (hf : ∀ x, (f x).slot = x.slot ∧ (f x).drains = x.drains) : Fixed m (m.modifyEngine e f) where
  slot e' := part_modifyEngine Engine.slot m e e' fun x => (hf x).1
  drains e' := part_modifyEngine Engine.drains m e e' fun x => (hf x).2
  engines := Table.size_le_modify ..
  slots := rfl
  bareTask := rfl
  size := Nat.le_refl _
  work _ := rfl

theorem modifyDrain (m : Machine) (d : Nat) {f : Drain → Drain} (hf : ∀ x, (f x).work = x.work) :
    Fixed m (m.modifyDrain d f) where
  slot _ := rfl
  drains _ := rfl
  engines := Nat.le_refl _
  slots := rfl
  bareTask := rfl
  size := Table.size_le_modify ..
  work d' := part_modifyDrain Drain.work m d d' hf

theorem notify (m : Machine) (d : Nat) : Fixed m (m.notify d) := by
  refine (modifyDrain m d (f := fun x => { x with waiters := [] }) fun _ => rfl).trans ?_
  rw [notify_eq]
  exact .of_eq rfl rfl rfl rfl

theorem known {e : Nat} (h : Fixed m m') (hk : m'.Known e) : m.Known e :=
  hk.of_eq (h.slot e).symm h.slots.symm

theorem rooted (h : Fixed m m') (hr : Rooted m)
    (hq : ∀ d e k, m.Serves d e k →
      (m'.drain d).tickets.requested = (queued (m'.history e k)).length)
    (hu : ∀ e k, m.engines.size ≤ e → queued (m'.history e k) = []) : Rooted m' := by
  have hserves (d e : Nat) (k : Kind) (hd : m'.Serves d e k) : m.Serves d e k :=
    (h.work d).symm.trans hd
  constructor
  · intro e k hk
    rw [h.drains]
    exact (h.work _).trans (hr.serves e k (h.known hk))
  · intro d hd
    obtain ⟨hlt, hw⟩ := hr.bare d (h.bareTask.symm.trans hd)
    exact ⟨Nat.lt_of_lt_of_le hlt h.size, by rwa [h.work]⟩
  · exact fun d e k hd => hq d e k (hserves d e k hd)
  · exact fun e k he => hu e k (h.engines.trans he)

end Fixed

/-- Nor have passes been requested or callbacks enqueued. -/
structure Alike (m m' : Machine) : Prop extends Fixed m m' where
  requested : ∀ d, (m'.drain d).tickets.requested = (m.drain d).tickets.requested
  queued : ∀ e k, History.queued (m'.history e k) = History.queued (m.history e k)

namespace Alike

theorem of_eq (he : m'.engines = m.engines) (hs : m'.slots = m.slots)
    (hb : m'.bareTask = m.bareTask) (hd : m'.drains = m.drains)
    (hh : ∀ e k, m'.history e k = m.history e k) : Alike m m' :=
  ⟨.of_eq he hs hb hd, fun d => by rw [drain, hd, drain], fun e k => by rw [hh]⟩

theorem trans (h : Alike m m') (h' : Alike m' m'') : Alike m m'' :=
  ⟨h.toFixed.trans h'.toFixed, fun d => (h'.requested d).trans (h.requested d),
    fun e k => (h'.queued e k).trans (h.queued e k)⟩

theorem modifyEngine (m : Machine) (e : Nat) {f : Engine → Engine}
    (hf : ∀ x, (f x).slot = x.slot ∧ (f x).drains = x.drains) : Alike m (m.modifyEngine e f) :=
  ⟨.modifyEngine m e hf, fun _ => rfl, fun _ _ => rfl⟩

theorem modifyDrain (m : Machine) (d : Nat) {f : Drain → Drain}
    (hf : ∀ x, (f x).work = x.work ∧ (f x).tickets.requested = x.tickets.requested) :
    Alike m (m.modifyDrain d f) :=
  ⟨.modifyDrain m d fun x => (hf x).1,
    fun d' => part_modifyDrain (fun x => x.tickets.requested) m d d' fun x => (hf x).2,
    fun _ _ => rfl⟩

theorem notify (m : Machine) (d : Nat) : Alike m (m.notify d) := by
  refine ⟨.notify m d, part_drain_notify (fun x => x.tickets.requested) (fun _ _ => rfl) m d,
    fun e k => ?_⟩
  rw [notify_eq]
  rfl

theorem mark (m : Machine) (t e : Nat) (k : Kind) {v : Mark} (hv : ∀ c, v ≠ .queued c) :
    Alike m (m.mark t e k v) := by
  refine ⟨.of_eq rfl rfl rfl rfl, fun _ => rfl, fun e' k' => ?_⟩
  by_cases hk : e = e' ∧ k = k'
  · obtain ⟨rfl, rfl⟩ := hk
    rw [history_mark_self]
    cases v with
    | queued c => exact absurd rfl (hv c)
    | _ => rfl
  · rw [history_mark_ne hk]

theorem rooted (h : Alike m m') (hr : Rooted m) : Rooted m' := by
  refine h.toFixed.rooted hr (fun d e k hd => ?_) fun e k he => ?_
  · rw [h.requested, h.queued]
    exact hr.requested d e k hd
  · rw [h.queued]
    exact hr.unborn e k he

end Alike

theorem Inside.alike (h : Inside t m m') : Alike m m' := by
  have hdrains : m'.drains = m.drains := h.drains
  refine ⟨⟨fun e => ?_, fun e => ?_, h.engines_le, by rw [h.eq], by rw [h.eq], by rw [hdrains], fun d => ?_⟩,
    fun d => ?_, fun e k => ?_⟩
  · obtain ⟨ds, hd⟩ := h.engine e
    rw [hd]
  · obtain ⟨ds, hd⟩ := h.engine e
    rw [hd]
  · rw [drain, hdrains, drain]
  · rw [drain, hdrains, drain]
  · obtain ⟨vs, hh, -, hq⟩ := h.quiet e k
    rw [hh, queued_append, hq, List.append_nil]

theorem Leave.alike (h : Leave t m m') : Alike m m' := by
  have hfixed : m'.slots = m.slots ∧ m'.bareTask = m.bareTask := by
    cases h with
    | idle _ | park _ | waitFor d => exact ⟨rfl, rfl⟩
    | join u =>
      unfold Machine.join
      dsimp only
      split <;> exact ⟨rfl, rfl⟩
    | endThread p =>
      rw [endThread_eq, wakeAll_eq, bury_eq]
      exact ⟨rfl, rfl⟩
  have he (e : Nat) : m'.engine e = m.engine e := congrArg (Table.get · e) h.keepsEngines.engines
  refine ⟨⟨fun e => by rw [he], fun e => by rw [he], by rw [h.keepsEngines.engines], hfixed.1, hfixed.2,
    h.kept.size, h.work_eq⟩, fun d => by rw [h.tickets_eq], fun e k => ?_⟩
  rw [h.keepsEngines.history]

theorem External.alike (h : External m m') : Alike m m' := by
  cases h with
  | exit hi => exact (Leave.endThread m none).alike
  | _ => exact .of_eq rfl rfl rfl rfl fun _ _ => rfl

theorem requestPass_rooted (h : Rooted m) {d : Nat} (hd : (m.drain d).work.domain? = none) :
    Rooted (m.requestPass d) := by
  have hq : Rooted (m.modifyDrain d fun x => { x with tickets := x.tickets.request }) := by
    have hf : Fixed m (m.modifyDrain d fun x => { x with tickets := x.tickets.request }) :=
      .modifyDrain m d fun _ => rfl
    refine hf.rooted h (fun d' e k hs => ?_) h.unborn
    have hne : d' ≠ d := by
      rintro rfl
      rw [show (m.drain d').work = _ from hs] at hd
      cases hd
    rw [drain_modifyDrain, if_neg hne]
    exact h.requested d' e k hs
  exact (Alike.notify _ d).rooted hq

theorem enqueue_rooted (h : Rooted m) (hs : DrainsAssigned m) {e : Nat} (he : m.Known e) (k : Kind)
    (c : Callback) :
    Rooted (((m.modifyEngine e fun x => x.setQueue k (x.queue k ++ [c])).mark t e k
      (.queued c)).requestPass ((m.engine e).drains.get k)) := by
  have hserves := h.serves e k he
  let n := (m.modifyEngine e fun x => x.setQueue k (x.queue k ++ [c])).mark t e k (.queued c)
  have hn : Fixed m n := (Fixed.modifyEngine m e (f := fun x => x.setQueue k (x.queue k ++ [c]))
    fun _ => ⟨rfl, rfl⟩).trans (.of_eq rfl rfl rfl rfl)
  have hd := hn.trans (.modifyDrain n ((m.engine e).drains.get k)
    (f := fun x => { x with tickets := x.tickets.request }) fun _ => rfl)
  refine (Alike.notify _ _).rooted (hd.rooted h (fun d' e' k' hs' => ?_) fun e' k' he' => ?_)
  · rw [drain_modifyDrain]
    by_cases hk : e = e' ∧ k = k'
    · obtain ⟨rfl, rfl⟩ := hk
      rw [if_pos (hs.one hs' hserves)]
      refine Eq.trans (congrArg (· + 1) (h.requested d' e k hs')) ?_
      rw [show ((n.modifyDrain _ _).history e k) = (t, .queued c) :: m.history e k from
        history_mark_self, queued, List.length_append, List.length_singleton]
    · have hne : d' ≠ (m.engine e).drains.get k := by
        rintro rfl
        obtain ⟨rfl, rfl⟩ := Work.callbacks.inj (hserves.symm.trans hs')
        exact hk ⟨rfl, rfl⟩
      rw [if_neg hne]
      refine (h.requested d' e' k' hs').trans ?_
      exact congrArg (fun h => (queued h).length) (history_mark_ne hk).symm
  · have hk : ¬(e = e' ∧ k = k') := by
      rintro ⟨rfl, -⟩
      exact Nat.lt_irrefl _ (Nat.lt_of_lt_of_le (hs.engine _ e k hserves) he')
    exact (congrArg queued (history_mark_ne hk)).trans (h.unborn e' k' he')

theorem spawnDrain_requested (name : ThreadName) (systemName : String) {x : Drain}
    (h : ∀ d e k, m.Serves d e k →
      (m.drain d).tickets.requested = (queued (m.history e k)).length)
    (hx : ∀ e k, x.work = .callbacks e k → x.tickets.requested = 0 ∧ queued (m.history e k) = [])
    (d e : Nat) (k : Kind) (hd : (m.spawnDrain name systemName x).2.Serves d e k) :
    ((m.spawnDrain name systemName x).2.drain d).tickets.requested =
      (queued ((m.spawnDrain name systemName x).2.history e k)).length := by
  show _ = (queued (m.history e k)).length
  rw [drain_spawnDrain]
  rcases hd.of_spawnDrain with ⟨hdd, hw⟩ | ⟨hdd, hd⟩
  · obtain ⟨hz, hq⟩ := hx e k hw
    rw [if_pos hdd, hq]
    exact hz
  · rw [if_neg hdd]
    exact h d e k hd

theorem startEngine_rooted (h : Rooted m) (slot : Option Nat) (c : Config) (p : Access) :
    Rooted (m.startEngine slot c p).2 := by
  have hengine (e : Nat) : (m.startEngine slot c p).2.engine e =
      if e = m.engines.size then _ else m.engine e := Table.get_push ..
  have hkept := Kept.startEngine m slot c p
  constructor
  · intro e k hk
    by_cases he : e = m.engines.size
    · rw [hengine, if_pos he, he]
      have hlt : m.drains.size < (m.startFirst slot c).drains.size :=
        (Nat.lt_succ_self _).trans_eq (Table.size_push ..).symm
      cases k with
      | regular =>
        have h1 : (m.startSecond slot c).drain m.drains.size = (m.startFirst slot c).drain m.drains.size :=
          (Table.get_push ..).trans (if_neg (Nat.ne_of_lt hlt))
        have h2 : ((m.startFirst slot c).drain m.drains.size).work = .callbacks m.engines.size .regular :=
          congrArg Drain.work ((Table.get_push ..).trans (if_pos rfl))
        exact (congrArg Drain.work h1).trans h2
      | sleepable => exact congrArg Drain.work ((Table.get_push ..).trans (if_pos rfl))
    · have hold := (hengine e).trans (if_neg he)
      rw [hold]
      have hs := h.serves e k (hk.of_eq (congrArg Engine.slot hold).symm rfl)
      exact (hs.kept hkept).1
  · intro d hd
    obtain ⟨hlt, hw⟩ := h.bare d hd
    exact ⟨Nat.lt_of_lt_of_le hlt hkept.size, by rwa [(hkept.same d hlt).1]⟩
  · have hnew (k' : Kind) (e : Nat) (k : Kind)
        (hw : Work.callbacks m.engines.size k' = .callbacks e k) :
        (0 : Nat) = 0 ∧ queued (m.history e k) = [] := by
      obtain ⟨rfl, -⟩ := Work.callbacks.inj hw
      exact ⟨rfl, h.unborn _ k (Nat.le_refl _)⟩
    have h1 := spawnDrain_requested (.drain slot .regular) (c.threadName ++ "-" ++ Kind.regular.name)
      (x := { work := .callbacks m.engines.size .regular }) h.requested (hnew .regular)
    exact spawnDrain_requested (.drain slot .sleepable) (c.threadName ++ "-" ++ Kind.sleepable.name)
      (x := { work := .callbacks m.engines.size .sleepable }) h1 (hnew .sleepable)
  · intro e k he
    refine h.unborn e k (Nat.le_trans (Nat.le_succ _) ?_)
    exact (Table.size_push ..).symm.trans_le he

theorem spawnTask_rooted (h : Rooted m) (name : String) (passes : List String) :
    Rooted { (m.spawnDrain .bare name { work := .scripted passes, holders := 1 }).2 with
      bareTask := some m.drains.size } := by
  have hkept := Kept.spawnDrain m .bare name { work := .scripted passes, holders := 1 }
  refine ⟨fun e k hk => ?_, fun d hd => ?_, ?_, h.unborn⟩
  · exact ((h.serves e k hk).kept hkept).1
  · obtain rfl := Option.some.inj hd
    refine ⟨(Nat.lt_succ_self _).trans_eq (Table.size_push ..).symm, ?_⟩
    exact congrArg (fun x : Drain => x.work.domain?) ((drain_spawnDrain m ..).trans (if_pos rfl))
  · exact spawnDrain_requested .bare name h.requested nofun

theorem Action.rooted (hd : Action scope t m m') (hs : DrainsAssigned m) (h : Rooted m) : Rooted m' := by
  have hrest {m' : Machine} (ha : Alike m m') : Rooted m' := ha.rooted h
  cases hd with
  | mark e k v hv hb =>
    refine hrest (.mark m t e k ?_)
    rintro c rfl
    cases hv
  | enroll s =>
    rw [enroll_eq]
    exact hrest (.of_eq rfl rfl rfl rfl fun _ _ => rfl)
  | emit v hv => exact hrest (.of_eq rfl rfl rfl rfl (history_emit hv))
  | handles e n => exact hrest (.modifyEngine m e fun _ => ⟨rfl, rfl⟩)
  | register e k w => exact hrest (.modifyEngine m e fun _ => ⟨rfl, rfl⟩)
  | detach e k hsc => exact hrest (.modifyEngine m e fun _ => ⟨rfl, rfl⟩)
  | advance e k hw =>
    have ha : Alike m (m.setDomain e k ((m.engine e).domain k).advance) :=
      .modifyEngine m e fun _ => ⟨rfl, rfl⟩
    exact hrest (ha.trans (.mark _ t e k nofun))
  | count d f hf =>
    exact hrest (.modifyDrain m d fun x => ⟨(hf x).1, congrArg Tickets.requested (hf x).2.2.2⟩)
  | close d =>
    exact hrest ((Alike.modifyDrain m d (f := fun x => { x with tickets := x.tickets.close })
      fun _ => ⟨rfl, rfl⟩).trans (.notify _ d))
  | complete d n hn =>
    exact hrest ((Alike.modifyDrain m d (f := fun x => { x with tickets := x.tickets.complete n })
      fun _ => ⟨rfl, rfl⟩).trans (.notify _ d))
  | request d hd =>
    refine requestPass_rooted h ?_
    rcases hd with hd | hd
    · exact (h.bare d hd).2
    · exact hd
  | slots slots hk =>
    refine ⟨fun e k hke => h.serves e k ?_, h.bare, h.requested, h.unborn⟩
    rcases hke with hke | ⟨s, hke⟩
    · exact .inl hke
    · exact hk s e hke
  | dropTask => exact ⟨h.serves, nofun, h.requested, h.unborn⟩
  | openSection e k ht => exact hrest (Inside.openSection m t e k).alike
  | closeSection e k => exact hrest (Inside.closeSection m t e k).alike
  | enqueue e k c hk => exact enqueue_rooted h hs hk k c
  | startEngine slot c p hc hp => exact startEngine_rooted h slot c p
  | spawnTask name passes => exact spawnTask_rooted h name passes
  | _ => exact hrest (.of_eq rfl rfl rfl rfl fun _ _ => rfl)

theorem Actions.rooted (hd : Actions scope t m m') (ht : m.turn = some t) (hv : Visited m)
    (h : Rooted m) : Rooted m' := by
  induction hd with
  | refl => exact h
  | tail hd hx ih => exact hx.rooted (Actions.visited hd ht hv).2.drainsAssigned ih

theorem Starts.alike {n : Machine} (h : Starts t m top n) : Alike m n := by
  cases h <;> exact .of_eq rfl rfl rfl rfl fun _ _ => rfl

theorem Act.rooted (ha : Act m m') (hv : Visited m) (h : Rooted m) : Rooted m' := by
  have hsame {m' : Machine} (ha : Alike m m') : Rooted m' := ha.rooted h
  cases ha with
  | action ht hd => exact hd.rooted hv.drainsAssigned h
  | stack ht fs | pick hn hr => exact hsame (.of_eq rfl rfl rfl rfl fun _ _ => rfl)
  | @barrier t _ ht e k v hb =>
    refine hsame (.mark m t e k ?_)
    rintro c rfl
    cases hb
  | leave ht hl => exact hsame hl.alike
  | external he => exact hsame he.alike

theorem Reachable.rooted (h : Reachable m) : Rooted m := by
  refine h.act_induction (fun workers host m hm => ?_) fun _ _ hv hr ha => ha.rooted hv hr
  obtain ⟨cs, -, rfl⟩ := new_eq hm
  refine ⟨fun e k hk => ?_, nofun, fun d e k hd => ?_, fun _ _ _ => rfl⟩
  · rcases hk with hk | ⟨s, hk⟩
    · rw [engine, Table.get_empty] at hk
      exact absurd rfl hk
    · rw [tableEngine, Table.get_empty] at hk
      cases hk
  · rw [Serves, drain, Table.get_empty] at hd
    cases hd

end GracePeriod.Machine
