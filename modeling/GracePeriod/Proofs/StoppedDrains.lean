import GracePeriod.Proofs.HandleUse

namespace GracePeriod.Machine

variable {t u d e slot : Nat} {m m₀ m' m'' : Machine} {k : Kind} {f : Frame} {top : Option Frame}

theorem engine_startEngine (m : Machine) (slot : Option Nat) (c : Config) (p : Access) (e : Nat) :
    ((m.startEngine slot c p).2.engine e).slot =
        (if e = m.engines.size then slot else (m.engine e).slot) ∧
      ((m.startEngine slot c p).2.engine e).drains =
        if e = m.engines.size then ⟨m.drains.size, m.drains.size + 1⟩ else (m.engine e).drains := by
  have he : (m.startEngine slot c p).2.engine e = if e = m.engines.size then _ else m.engine e :=
    Table.get_push ..
  rw [he]
  split
  · exact ⟨rfl, congrArg (PerKind.mk _) (Table.size_push ..)⟩
  · exact ⟨rfl, rfl⟩

theorem drain_startEngine (m : Machine) (slot : Option Nat) (c : Config) (p : Access) (d : Nat) :
    (m.startEngine slot c p).2.drain d =
      if d = m.drains.size + 1 then
        { work := .callbacks m.engines.size .sleepable, thread := m.threads.size + 1,
          waiters := [m.threads.size + 1] }
      else if d = m.drains.size then
        { work := .callbacks m.engines.size .regular, thread := m.threads.size,
          waiters := [m.threads.size] }
      else m.drain d := by
  have hd : (m.startFirst slot c).drains.size = m.drains.size + 1 := Table.size_push ..
  have ht : (m.startFirst slot c).threads.size = m.threads.size + 1 := Table.size_push ..
  have h2 := drain_spawnDrain (m.startFirst slot c) (.drain slot .sleepable)
    (c.threadName ++ "-" ++ Kind.sleepable.name) { work := .callbacks m.engines.size .sleepable } d
  rw [hd, ht] at h2
  refine h2.trans ?_
  split
  · rfl
  · exact drain_spawnDrain m _ _ _ d

theorem serves_startEngine {slot : Option Nat} {c : Config} {p : Access} :
    (m.startEngine slot c p).2.Serves d e k ↔ m.Serves d e k ∨
      e = m.engines.size ∧ d = (⟨m.drains.size, m.drains.size + 1⟩ : PerKind Nat).get k := by
  have hold (h : m.Serves d e k) : d ≠ m.drains.size ∧ d ≠ m.drains.size + 1 := by
    have := h.lt_size
    omega
  rw [Serves, drain_startEngine]
  by_cases h1 : d = m.drains.size + 1
  · rw [if_pos h1]
    constructor
    · intro h
      obtain ⟨rfl, rfl⟩ := Work.callbacks.inj h
      exact .inr ⟨rfl, h1⟩
    · rintro (h | ⟨rfl, hd⟩)
      · exact absurd h1 (hold h).2
      · cases k with
        | regular => exact absurd (h1.symm.trans hd) (Nat.succ_ne_self _)
        | sleepable => rfl
  · rw [if_neg h1]
    by_cases h2 : d = m.drains.size
    · rw [if_pos h2]
      constructor
      · intro h
        obtain ⟨rfl, rfl⟩ := Work.callbacks.inj h
        exact .inr ⟨rfl, h2⟩
      · rintro (h | ⟨rfl, hd⟩)
        · exact absurd h2 (hold h).1
        · cases k with
          | regular => rfl
          | sleepable => exact absurd hd h1
    · rw [if_neg h2]
      refine ⟨.inl, ?_⟩
      rintro (h | ⟨-, hd⟩)
      · exact h
      · cases k with
        | regular => exact absurd hd h2
        | sleepable => exact absurd hd h1

theorem named_startEngine (m : Machine) (slot : Option Nat) (c : Config) (p : Access) (k : Kind) :
    ((m.startEngine slot c p).2.thread
        ((m.startEngine slot c p).2.drain
          ((⟨m.drains.size, m.drains.size + 1⟩ : PerKind Nat).get k)).thread).name =
      .drain slot k := by
  have ht : (m.startFirst slot c).threads.size = m.threads.size + 1 := Table.size_push ..
  have h2 := thread_spawnDrain (m.startFirst slot c) (.drain slot .sleepable)
    (c.threadName ++ "-" ++ Kind.sleepable.name) { work := .callbacks m.engines.size .sleepable }
  rw [ht] at h2
  cases k with
  | regular =>
    have h1 : (m.startFirst slot c).thread m.threads.size = _ :=
      (thread_spawnDrain ..).trans (if_pos rfl)
    have hd : ((m.startEngine slot c p).2.drain m.drains.size).thread = m.threads.size :=
      congrArg Drain.thread ((drain_startEngine ..).trans
        ((if_neg (Nat.succ_ne_self _).symm).trans (if_pos rfl)))
    show ((m.startEngine slot c p).2.thread
      ((m.startEngine slot c p).2.drain m.drains.size).thread).name = _
    rw [hd]
    exact congrArg Thread.name
      (((h2 m.threads.size).trans (if_neg (Nat.succ_ne_self _).symm)).trans h1)
  | sleepable =>
    have hd : ((m.startEngine slot c p).2.drain (m.drains.size + 1)).thread = m.threads.size + 1 :=
      congrArg Drain.thread ((drain_startEngine ..).trans (if_pos rfl))
    show ((m.startEngine slot c p).2.thread
      ((m.startEngine slot c p).2.drain (m.drains.size + 1)).thread).name = _
    rw [hd]
    exact congrArg Thread.name ((h2 (m.threads.size + 1)).trans (if_pos rfl))

/-- Drain task `d` is being stopped: its domain, if any, is that of an engine without handles. -/
def BeingStopped (m : Machine) (d : Nat) : Prop :=
  d < m.drains.size ∧ ∀ e k, m.Serves d e k → (m.engine e).handles = 0

/-- A thread does not wait for its own drain task, the tasks of the table that it uses serve no
domain, and those that it stops are those of engines without handles. -/
def Fitting (m : Machine) (u : Nat) : Frame → Prop
  | .await d _ => (m.drain d).thread ≠ u
  | .releaseTask d => m.Bare d
  | .shutdown ds _ => ∀ d ∈ ds, m.BeingStopped d
  | .joined d ds _ => m.BeingStopped d ∧ ∀ d ∈ ds, m.BeingStopped d
  | _ => True

/-- What frames say about drain tasks stays true. -/
structure Lasting (m m' : Machine) : Prop where
  bare : ∀ d, m.Bare d → m'.Bare d
  aims : ∀ d u, m.isLive u = true → (m.drain d).thread ≠ u → (m'.drain d).thread ≠ u
  beingStopped : ∀ d, m.BeingStopped d → m'.BeingStopped d

theorem Fitting.lasting (h : m.Fitting u f) (hm : Lasting m m') (hu : m.isLive u = true) :
    m'.Fitting u f := by
  cases f with
  | await d ticket => exact hm.aims d u hu h
  | releaseTask d => exact hm.bare d h
  | shutdown ds saved => exact fun d hd => hm.beingStopped d (h d hd)
  | joined d ds saved => exact ⟨hm.beingStopped d h.1, fun d hd => hm.beingStopped d (h.2 d hd)⟩
  | _ => trivial

theorem Bare.kept (h : m.Bare d) (hk : Kept m m') : m'.Bare d :=
  ⟨Nat.lt_of_lt_of_le h.1 hk.size, by rw [(hk.same d h.1).1]; exact h.2⟩

theorem Bare.beingStopped (h : m.Bare d) : m.BeingStopped d := by
  refine ⟨h.1, fun e k hs => ?_⟩
  have hd := h.2
  rw [show (m.drain d).work = .callbacks e k from hs] at hd
  cases hd

theorem Lasting.trans (h : Lasting m m') (hl : ∀ u, m.isLive u = true → m'.isLive u = true)
    (h' : Lasting m' m'') : Lasting m m'' where
  bare d hd := h'.bare d (h.bare d hd)
  aims d u hu hd := h'.aims d u (hl u hu) (h.aims d u hu hd)
  beingStopped d hd := h'.beingStopped d (h.beingStopped d hd)

theorem FoundsNone.lasting (h : FoundsNone m m') : Lasting m m' where
  bare d hd := hd.kept h.kept
  aims := h.aims
  beingStopped d hd := by
    refine ⟨Nat.lt_of_lt_of_le hd.1 h.kept.size, fun e k hs => Nat.eq_zero_of_not_pos fun hp => ?_⟩
    exact Nat.ne_of_gt (h.alive e hp) (hd.2 e k (h.serves d e k hs))

theorem kept_found (m : Machine) (slot : Option Nat) (c : Config) (p : Access) :
    Kept m (m.found slot c p) := (Kept.startEngine m slot c p).trans (.of_drains rfl)

theorem drain_found (m : Machine) (slot : Option Nat) (c : Config) (p : Access) (d : Nat) :
    (m.found slot c p).drain d = (m.startEngine slot c p).2.drain d := rfl

theorem serves_found {slot : Option Nat} {c : Config} {p : Access} :
    (m.found slot c p).Serves d e k ↔ m.Serves d e k ∨
      e = m.engines.size ∧ d = (⟨m.drains.size, m.drains.size + 1⟩ : PerKind Nat).get k := by
  rw [Serves, drain_found]
  exact serves_startEngine

theorem engine_found (m : Machine) (slot : Option Nat) (c : Config) (p : Access) (e : Nat) :
    (m.found slot c p).engine e = (m.startEngine slot c p).2.engine e := rfl

theorem lasting_found (h : ∀ d e k, m.Serves d e k → e < m.engines.size) (slot : Option Nat)
    (c : Config) (p : Access) : Lasting m (m.found slot c p) := by
  have hk := kept_found m slot c p
  refine ⟨fun d hd => hd.kept hk, fun d u hu hd => ?_, fun d hd => ?_⟩
  · have hlt := lt_size_of_isLive hu
    rw [drain_found, drain_startEngine]
    split
    · exact Nat.ne_of_gt (hlt.trans (Nat.lt_succ_self _))
    · split
      · exact Nat.ne_of_gt hlt
      · exact hd
  · refine ⟨Nat.lt_of_lt_of_le hd.1 hk.size, fun e k hs => ?_⟩
    have hlt := hd.1
    rcases serves_found.1 hs with hs | ⟨-, hnew⟩
    · rw [engine_found, handles_startEngine, if_neg (Nat.ne_of_lt (h d e k hs))]
      exact hd.2 e k hs
    · cases k <;> simp only [PerKind.get] at hnew <;> omega

/-- An engine that has a handle has its drain tasks. -/
def Paired (m : Machine) : Prop :=
  ∀ e k, 0 < (m.engine e).handles → m.Serves ((m.engine e).drains.get k) e k

theorem Paired.foundsNone (h : m.Paired) (ht : FoundsNone m m') : m'.Paired := by
  intro e k hp
  rw [ht.drains]
  exact ((h e k (ht.alive e hp)).kept ht.kept).1

theorem paired_found (h : m.Paired) (slot : Option Nat) (c : Config) (p : Access) :
    (m.found slot c p).Paired := by
  intro e k hp
  rw [engine_found, handles_startEngine] at hp
  rw [serves_found, engine_found, (engine_startEngine m slot c p e).2]
  by_cases he : e = m.engines.size
  · rw [if_pos he]
    exact .inr ⟨he, rfl⟩
  · rw [if_neg he] at hp ⊢
    exact .inl (h e k hp)

theorem Paired.beingStopped (h : m.Paired) (hp : 0 < (m.engine e).handles) (hf : KeepsPlaces m m')
    (hz : (m'.engine e).handles = 0) : ∀ d ∈ (m.engine e).drains.toList, m'.BeingStopped d := by
  intro d hd
  obtain ⟨k, -, rfl⟩ := List.mem_map.1 (PerKind.toList_eq_map _ ▸ hd)
  have hs := h e k hp
  refine ⟨Nat.lt_of_lt_of_le hs.lt_size hf.size, fun e' k' hs' => ?_⟩
  obtain ⟨rfl, -⟩ := Work.callbacks.inj (hs.symm.trans (hf.foundsNone.serves _ e' k' hs'))
  exact hz

theorem status_back (m : Machine) (t : Nat) (o : Outcome) (u : Nat) :
    ((m.back t o).thread u).status = (m.thread u).status :=
  part_modifyThread Thread.status m t u fun _ => rfl

def Fit (m : Machine) (u : Nat) : Prop := ∀ f ∈ (m.thread u).stack, m.Fitting u f

theorem Pushes.fitting (h : m.Pushes t f) : m.Fitting t f := by
  rcases h with h | ⟨e, rfl⟩ | ⟨d, i, rfl⟩ | ⟨e, k, cs, rfl⟩
  · cases f <;> first | exact h | exact h.elim
  all_goals trivial

namespace Fit

theorem lasting (h : m.Fit u) (hm : Lasting m m') (hu : m.isLive u = true)
    (hs : (m'.thread u).stack = (m.thread u).stack) : m'.Fit u := by
  intro f hf
  rw [hs] at hf
  exact (h f hf).lasting hm hu

theorem found {slot : Option Nat} {c : Config} {p : Access} (h : m.Fit t) (hl : m.isLive t = true)
    (hst : ∀ d e k, m.Serves d e k → e < m.engines.size) (hq : KeepsPlaces (m.found slot c p) m')
    (hs : (m'.thread t).stack = (m.thread t).stack) : m'.Fit t := by
  have hm : Lasting m (m.found slot c p) := lasting_found hst slot c p
  have hm' : Lasting m m' := by
    refine ⟨fun d hd => hq.foundsNone.lasting.bare d (hm.bare d hd), fun d u hu hd => ?_,
      fun d hd => hq.foundsNone.lasting.beingStopped d (hm.beingStopped d hd)⟩
    rw [hq.thread]
    exact hm.aims d u hu hd
  exact h.lasting hm' hl hs

theorem plainMove (h : m.Fit t) (hc : PlainMove t m m') (hl : m.isLive t = true) : m'.Fit t := by
  have hm := hc.foundsNone.lasting
  intro f hf
  cases hc.own hl with
  | same hs _ =>
    rw [hs] at hf
    exact (h f hf).lasting hm hl
  | push g hg hs _ =>
    rw [hs, List.mem_cons] at hf
    rcases hf with rfl | hf
    · exact hg.fitting.lasting hm hl
    · exact (h f hf).lasting hm hl
  | next g op hg _ hs _ =>
    rw [hs, List.mem_cons] at hf
    rcases hf with rfl | hf
    · cases f <;> trivial
    · exact (h f hf).lasting hm hl

theorem plainMoves (h : m.Fit t) (hc : PlainMoves t m m') (hl : m.isLive t = true) : m'.Fit t := by
  induction hc with
  | refl => exact h
  | tail hcs hc ih => exact ih.plainMove hc (PlainMoves.thread hcs hl).1

theorem keepsPlaces (h : m.Fit t) (hm : KeepsPlaces m m') (hl : m.isLive t = true) (hv : Level m m') :
    m'.Fit t :=
  h.lasting hm.foundsNone.lasting hl (hv.stack t)

theorem push (h : m.Fit t) (hl : m.isLive t = true) (hg : m.Fitting t f) : (m.push t f).Fit t := by
  have hm := (KeepsPlaces.push m t f).foundsNone.lasting
  intro g hf
  rw [stack_push, List.mem_cons] at hf
  rcases hf with rfl | hf
  · exact hg.lasting hm hl
  · exact (h g hf).lasting hm hl

theorem back (h : m.Fit t) (hl : m.isLive t = true) (o : Outcome) : (m.back t o).Fit t :=
  h.keepsPlaces (.back ..) hl (.back ..)

theorem emit (h : m.Fit t) (hl : m.isLive t = true) (v : Event) : (m.emit t v).Fit t :=
  h.keepsPlaces (.emit ..) hl (.emit ..)

theorem waitFor (h : m.Fit t) (hl : m.isLive t = true) (d : Nat) : (m.waitFor t d).Fit t :=
  h.keepsPlaces (.waitFor ..) hl (.waitFor ..)

theorem keepsStacks (h : m.Fit t) (hl : m.isLive t = true) (hc : KeepsStacks t m m') : m'.Fit t :=
  h.keepsPlaces (.keepsStacks hc) hl hc.level

theorem isLive_push (hl : m.isLive t = true) (f : Frame) : (m.push t f).isLive t = true :=
  (isLive_of_status (status_push ..)).trans hl

theorem isLive_back (hl : m.isLive t = true) (o : Outcome) : (m.back t o).isLive t = true :=
  (isLive_of_status (status_back m t o t)).trans hl

theorem isLive_keepsStacks (hl : m.isLive t = true) (hc : KeepsStacks t m m') : m'.isLive t = true :=
  (isLive_of_status (hc.status t)).trans hl

theorem isLive_news (hl : m.isLive t = true) (d : Nat) (f : Drain → Drain) :
    ((m.modifyDrain d f).notify d).isLive t = true := by
  have ht := thread_notify (m.modifyDrain d f) d t
  split at ht
  · exact isLive_of_active (congrArg Thread.status ht)
  · exact (isLive_of_status (congrArg Thread.status ht)).trans hl

theorem shutdown (h : m.Fit t) (hl : m.isLive t = true) {ds : List Nat} (hd : ∀ d ∈ ds, m.BeingStopped d)
    (saved : Outcome) : (m.shutdown t ds saved).Fit t := by
  cases ds with
  | nil => exact h.back hl saved
  | cons d ds =>
    let n := (m.modifyDrain d fun x => { x with tickets := x.tickets.close }).notify d
    have hplaces : KeepsPlaces m n := .news m d fun _ => ⟨rfl, rfl⟩
    have hn : n.Fit t := h.keepsPlaces hplaces hl ((Level.modifyDrain ..).trans (.notify ..))
    have hln : n.isLive t = true := isLive_news hl d _
    have hdn : n.BeingStopped d ∧ ∀ d' ∈ ds, n.BeingStopped d' :=
      ⟨hplaces.foundsNone.lasting.beingStopped d (hd d List.mem_cons_self),
        fun d' hd' => hplaces.foundsNone.lasting.beingStopped d' (hd d' (List.mem_cons_of_mem _ hd'))⟩
    unfold Machine.shutdown
    dsimp only
    split
    · exact (hn.push (f := .shutdown ds saved) hln hdn.2).back (isLive_push hln _) _
    · have hj := (hn.push (f := .joined d ds saved) hln hdn).back (isLive_push hln _) (.ok .unit)
      exact hj.keepsPlaces (.join ..) (isLive_back (isLive_push hln _) _) (.join ..)

theorem releaseHandle (h : m.Fit t) (hl : m.isLive t = true) (hp : m.Paired)
    (he : 0 < (m.engine e).handles) (o : Outcome) : (m.releaseHandle t e o).Fit t := by
  let n := m.modifyEngine e fun x => { x with handles := (m.engine e).handles - 1 }
  have hplaces : KeepsPlaces m n :=
    .modifyEngine m e (fun _ => ⟨rfl, rfl⟩) fun hp => Nat.lt_of_lt_of_le hp (Nat.sub_le ..)
  have hn : n.Fit t := h.lasting hplaces.foundsNone.lasting hl rfl
  unfold Machine.releaseHandle
  dsimp only
  split
  · rename_i hz
    have hz' : (n.engine e).handles = 0 :=
      (congrArg Engine.handles ((engine_modifyEngine ..).trans (if_pos rfl))).trans hz
    refine Fit.shutdown (hn.emit hl _) hl ?_ o
    show ∀ d ∈ (n.engine e).drains.toList, n.BeingStopped d
    rw [hplaces.drains]
    exact hp.beingStopped he hplaces hz'
  · exact hn.back hl o

theorem endThread (m : Machine) (t : Nat) (p : Option Payload) : (m.endThread t p).Fit t := by
  intro f hf
  rw [stack_endThread] at hf
  cases hf

theorem batchMoves (h : m.Fit t) (ht : BatchMoves t m m') (hl : m.isLive t = true) : m'.Fit t := by
  have hm := ht.keepsPlaces.foundsNone.lasting
  obtain ⟨fs, hs, hfs⟩ := ht.stack
  intro f hmem
  rw [hs, List.mem_append] at hmem
  rcases hmem with hmem | hmem
  · have hf := hfs f hmem
    cases f <;> trivial
  · exact (h f hmem).lasting hm hl

end Fit

theorem StepEffect.fit (h : StepEffect top t m₀ m') (hl : m₀.isLive t = true)
    (hst : ∀ d e k, m₀.Serves d e k → e < m₀.engines.size) (hp : m₀.Paired)
    (hs : ∀ e, m₀.handleCount e + topHandleCount e top ≤ (m₀.engine e).handles)
    (ht : ∀ f, top = some f → m₀.Fitting t f) (hf : m₀.Fit t) : m'.Fit t := by
  have hmoves {n : Machine} (h : PlainMoves t m₀ n) : n.Fit t ∧ n.isLive t = true :=
    ⟨hf.plainMoves h hl, (h.thread hl).1⟩
  have hservants {n : Machine} (h : PlainMoves t m₀ n) d e k (hd : n.Serves d e k) : e < n.engines.size :=
    Nat.lt_of_lt_of_le (hst d e k (h.foundsNone.serves d e k hd)) h.foundsNone.engines_le
  cases h with
  | plainMoves h => exact (hmoves h).1
  | idle h hs => exact (hmoves h).1.keepsPlaces (.stop ..) (hmoves h).2 (.stop ..)
  | park h p =>
    obtain ⟨hn, hl⟩ := hmoves h
    exact (hn.back hl _).keepsPlaces (.stop ..) (Fit.isLive_back hl _) (.stop ..)
  | await d ticket htop =>
    exact (hf.push (f := .await d ticket) hl (ht _ htop)).waitFor (Fit.isLive_push hl _) d
  | raw h e k hr hn h' =>
    obtain ⟨hfn, hl⟩ := hmoves h
    have hc := KeepsStacks.crossing hn
    exact (hfn.keepsStacks hl hc).plainMoves h' (Fit.isLive_keepsStacks hl hc)
  | refused h e k f hf =>
    obtain ⟨hfn, hl⟩ := hmoves h
    exact hfn.keepsStacks hl (.refused ..)
  | guard h e k ho h' =>
    obtain ⟨hfn, hl⟩ := hmoves h
    have hln := Fit.isLive_keepsStacks hl (.readLock _ t e k)
    exact ((hfn.keepsStacks hl (.readLock ..)).push (f := .leave e k) hln trivial).plainMoves h'
      (Fit.isLive_push hln _)
  | leave e k o ht => exact hf.keepsStacks hl (.leave ..)
  | release e o htop => exact hf.releaseHandle hl hp (handles_pos_of_release (hs e) htop) o
  | @dropHandle n h slot e i o hslot hi =>
    obtain ⟨hfn, hl⟩ := hmoves h
    have hset := KeepsPlaces.setSlot n (tableEngine_eq_some.1 hslot).2 i
    exact Fit.releaseHandle (hfn.lasting hset.foundsNone.lasting hl rfl) hl
      ((hp.foundsNone h.foundsNone).foundsNone hset.foundsNone) (h.handles_pos (hs e) hslot) o
  | @built n n' h slot c p o hs h' =>
    refine (hmoves h).1.found (hmoves h).2 (hservants h) (.built h'.toKeepsStacks o)
      ((stack_back ..).trans ?_)
    refine (h'.toKeepsStacks.stack t).trans ?_
    exact congrArg Thread.stack (thread_startEngine (lt_size_of_isLive (hmoves h).2) _ c p)
  | @builtDefault n n' h c p o h' =>
    obtain ⟨hn, hlive⟩ := hmoves h
    have hthread := thread_startEngine (lt_size_of_isLive hlive) none c p
    have hq : KeepsPlaces (n.found none c p) n' := .keepsStacks h'.toKeepsStacks
    refine Fit.releaseHandle (hn.found hlive (hservants h) hq ?_) ?_
      ((paired_found (hp.foundsNone h.foundsNone) none c p).foundsNone hq.foundsNone) ?_ o
    · exact (h'.toKeepsStacks.stack t).trans (congrArg Thread.stack hthread)
    · exact (isLive_of_status ((h'.toKeepsStacks.status t).trans (congrArg Thread.status hthread))).trans
        hlive
    · rw [h'.toKeepsStacks.level.handles, handles_startEngine, if_pos rfl]
      exact Nat.one_pos
  | @batch n h e k cs ht =>
    exact (hf.keepsStacks hl h.toKeepsStacks).batchMoves (.runBatch ..)
      (Fit.isLive_keepsStacks hl h.toKeepsStacks)
  | discard e k cs p ht => exact hf.batchMoves (.discardBatch ..) hl
  | rest h d ticket ht hd =>
    obtain ⟨hfn, hl⟩ := hmoves h
    exact (hfn.push (f := .worker d none) hl trivial).waitFor (Fit.isLive_push hl _) d
  | @retire n h d ticket ht hd hc => exact .endThread n t none
  | die d ticket p ht hc => exact .endThread m₀ t _
  | releaseTask h d o hd =>
    obtain ⟨hfn, hl⟩ := hmoves h
    refine hfn.shutdown hl (fun d' hd' => ?_) o
    rw [List.mem_singleton.1 hd']
    exact Bare.beingStopped hd
  | shutdown ds saved htop => exact hf.shutdown hl (ht _ htop) saved
  | joined d ds saved htop =>
    obtain ⟨n, hq, heq⟩ := resumeJoined_eq m₀ t d ds saved
    have hln := Fit.isLive_keepsStacks hl hq.toKeepsStacks
    have hd : ∀ d ∈ ds, n.BeingStopped d := fun d hd =>
      (KeepsPlaces.keepsStacks hq.toKeepsStacks).foundsNone.lasting.beingStopped d ((ht _ htop).2 d hd)
    rw [heq]
    exact ((hf.keepsStacks hl hq.toKeepsStacks).push (f := .shutdown ds saved) hln hd).back
      (Fit.isLive_push hln _) _

def isShut (m : Machine) (d : Nat) : Bool := (m.drain d).tickets.shutdown

theorem isShut_of_drains (h : m'.drains = m.drains) (d : Nat) : m'.isShut d = m.isShut d := by
  rw [isShut, drain, h, isShut, drain]

theorem isShut_modifyDrain (m : Machine) (d d' : Nat) {f : Drain → Drain}
    (hf : ∀ x, (f x).tickets.shutdown = x.tickets.shutdown) :
    (m.modifyDrain d f).isShut d' = m.isShut d' :=
  part_modifyDrain (fun x => x.tickets.shutdown) m d d' hf

theorem isShut_notify (m : Machine) (d d' : Nat) : (m.notify d).isShut d' = m.isShut d' :=
  part_drain_notify (fun x => x.tickets.shutdown) (fun _ _ => rfl) m d d'

theorem PlainMove.isShut (h : PlainMove t m m') (hs : m'.isShut d = true) : m.isShut d = true := by
  cases h with
  | keepsNests h => rwa [isShut_of_drains h.drains] at hs
  | count d' f hf =>
    rwa [isShut_modifyDrain m d' d fun x => congrArg Tickets.shutdown (hf x).2.2.2] at hs
  | request d' hd =>
    rw [requestPass, isShut_notify] at hs
    rwa [isShut_modifyDrain m d' d (f := fun x => { x with tickets := x.tickets.request }) fun _ => rfl]
      at hs
  | complete d' n _ =>
    rw [isShut_notify] at hs
    rwa [isShut_modifyDrain m d' d (f := fun x => { x with tickets := x.tickets.complete n }) fun _ => rfl]
      at hs
  | enqueue e k c hp =>
    unfold Machine.enqueue requestPass at hs
    dsimp only at hs
    rw [isShut_notify, isShut_modifyDrain _ _ d (f := fun x => { x with tickets := x.tickets.request })
      fun _ => rfl] at hs
    split at hs <;> exact hs
  | spawnTask name passes =>
    have hd := drain_spawnDrain m .bare name { work := .scripted passes, holders := 1 } d
    have hs' : ((m.spawnDrain .bare name { work := .scripted passes, holders := 1 }).2.drain
      d).tickets.shutdown = true := hs
    rw [hd] at hs'
    split at hs'
    · cases hs'
    · exact hs'
  | _ => exact hs

theorem PlainMoves.isShut (h : PlainMoves t m m') (hs : m'.isShut d = true) : m.isShut d = true := by
  induction h with
  | refl => exact hs
  | tail _ hc ih => exact ih (hc.isShut hs)

theorem drains_join (m : Machine) (t u : Nat) : (m.join t u).drains = m.drains := by
  unfold Machine.join
  dsimp only
  split <;> rfl

theorem drains_shutdown (m : Machine) (t : Nat) (d : Nat) (ds : List Nat) (saved : Outcome) :
    (m.shutdown t (d :: ds) saved).drains =
      ((m.modifyDrain d fun x => { x with tickets := x.tickets.close }).notify d).drains := by
  unfold Machine.shutdown
  dsimp only
  split
  · rfl
  · exact drains_join ..

theorem isShut_shutdown {ds : List Nat} {saved : Outcome} (hd : ∀ d ∈ ds, m.BeingStopped d)
    (hs : (m.shutdown t ds saved).isShut d = true) :
    m.isShut d = true ∨ (m.shutdown t ds saved).BeingStopped d := by
  cases ds with
  | nil => exact .inl hs
  | cons d' ds =>
    by_cases heq : d = d'
    · exact .inr ((KeepsPlaces.shutdown ..).foundsNone.lasting.beingStopped d
        (hd d (List.mem_cons.2 (.inl heq))))
    · rw [isShut_of_drains (drains_shutdown ..), isShut_notify, isShut, drain_modifyDrain,
        if_neg heq] at hs
      exact .inl hs

theorem isShut_releaseHandle {o : Outcome} (hp : m.Paired) (he : 0 < (m.engine e).handles)
    (hs : (m.releaseHandle t e o).isShut d = true) :
    m.isShut d = true ∨ (m.releaseHandle t e o).BeingStopped d := by
  let n := m.modifyEngine e fun x => { x with handles := (m.engine e).handles - 1 }
  have hplaces : KeepsPlaces m n :=
    .modifyEngine m e (fun _ => ⟨rfl, rfl⟩) fun hp => Nat.lt_of_lt_of_le hp (Nat.sub_le ..)
  unfold Machine.releaseHandle at hs ⊢
  dsimp only at hs ⊢
  split at hs
  · rename_i hz
    rw [if_pos hz]
    have hz' : (n.engine e).handles = 0 :=
      (congrArg Engine.handles ((engine_modifyEngine ..).trans (if_pos rfl))).trans hz
    have hd := hp.beingStopped he hplaces hz'
    rw [← hplaces.drains] at hd
    exact isShut_shutdown (m := n.log t (.engineStopping (n.engine e).pending)) hd hs
  · exact .inl hs

theorem isShut_waitFor (m : Machine) (t d d' : Nat) : (m.waitFor t d).isShut d' = m.isShut d' :=
  isShut_modifyDrain (m.done t) d d' (f := fun x => { x with waiters := x.waiters ++ [t] }) fun _ => rfl

theorem isShut_found (slot : Option Nat) (c : Config) (p : Access)
    (h : (m.startEngine slot c p).2.isShut d = true) : m.isShut d = true := by
  rw [isShut, drain_startEngine] at h
  split at h
  · cases h
  · split at h
    · cases h
    · exact h

/-- Drain tasks are shut only where the engine has no handle. -/
theorem StepEffect.closes (h : StepEffect top t m₀ m') (hp : m₀.Paired)
    (hs : ∀ e, m₀.handleCount e + topHandleCount e top ≤ (m₀.engine e).handles)
    (ht : ∀ f, top = some f → m₀.Fitting t f) (hd : m'.isShut d = true) :
    m₀.isShut d = true ∨ m'.BeingStopped d := by
  have hsame {n : Machine} (h : PlainMoves t m₀ n) (hn : m'.drains = n.drains) : m₀.isShut d = true :=
    h.isShut ((isShut_of_drains hn d).symm.trans hd)
  cases h with
  | plainMoves h => exact .inl (hsame h rfl)
  | idle h _ | park h _ => exact .inl (hsame h rfl)
  | await d' ticket _ => exact .inl ((isShut_waitFor _ t d' d).symm.trans hd)
  | raw h e k _ hn h' =>
    exact .inl (h.isShut ((isShut_of_drains (KeepsStacks.crossing hn).drains d).symm.trans (h'.isShut hd)))
  | refused h e k _ _ => exact .inl (hsame h (KeepsStacks.refused ..).drains)
  | @guard m _ h e k _ h' =>
    exact .inl (h.isShut
      ((isShut_of_drains (KeepsStacks.readLock m t e k).drains d).symm.trans (h'.isShut hd)))
  | leave e k o _ => exact .inl (hsame .refl (KeepsStacks.leave ..).drains)
  | release e o htop => exact isShut_releaseHandle hp (handles_pos_of_release (hs e) htop) hd
  | @dropHandle n h slot e i o hslot hi =>
    have hset := KeepsPlaces.setSlot n (tableEngine_eq_some.1 hslot).2 i
    exact (isShut_releaseHandle ((hp.foundsNone h.foundsNone).foundsNone hset.foundsNone)
      (h.handles_pos (hs e) hslot) hd).imp_left h.isShut
  | @built n n' h slot c p o _ h' =>
    refine .inl (h.isShut (isShut_found (some slot) c p ?_))
    exact (isShut_of_drains h'.drains d).symm.trans hd
  | @builtDefault n n' h c p o h' =>
    have hq : KeepsPlaces (n.found none c p) n' := .keepsStacks h'.toKeepsStacks
    refine (isShut_releaseHandle
      ((paired_found (hp.foundsNone h.foundsNone) none c p).foundsNone hq.foundsNone)
      (handles_newborn h'.toKeepsStacks) hd).imp_left fun hn => h.isShut (isShut_found none c p ?_)
    exact (isShut_of_drains h'.drains d).symm.trans hn
  | @batch n h e k cs _ => exact .inl (hsame (.single (.keepsNests h)) (BatchMoves.runBatch ..).tables.1)
  | discard e k cs p _ => exact .inl (hsame .refl (BatchMoves.discardBatch ..).tables.1)
  | rest h d' ticket _ _ => exact .inl (h.isShut ((isShut_waitFor _ t d' d).symm.trans hd))
  | retire h _ _ _ _ _ => exact .inl (hsame h (drains_endThread ..))
  | die _ _ _ _ _ => exact .inl (hsame .refl (drains_endThread ..))
  | releaseTask h d' o hb =>
    refine (isShut_shutdown (fun d'' hd'' => ?_) hd).imp_left h.isShut
    rw [List.mem_singleton.1 hd'']
    exact Bare.beingStopped hb
  | shutdown ds saved htop => exact isShut_shutdown (ht _ htop) hd
  | joined d' ds saved _ =>
    obtain ⟨n, hq, heq⟩ := resumeJoined_eq m₀ t d' ds saved
    rw [heq] at hsame
    exact .inl (hsame (.single (.keepsNests hq)) rfl)

end GracePeriod.Machine
