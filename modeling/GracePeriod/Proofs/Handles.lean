import Mathlib.Algebra.BigOperators.Group.Finset.Basic
import Mathlib.Algebra.BigOperators.Group.Finset.Piecewise
import Mathlib.Algebra.Order.BigOperators.Group.Finset
import GracePeriod.Proofs.Request
import GracePeriod.Proofs.BatchMoves

namespace GracePeriod

namespace Table

variable {α : Type} [Inhabited α] {f : α → Nat} {s s' : Table α}

def total (f : α → Nat) (s : Table α) : Nat := ∑ i ∈ Finset.range s.size, f (s.get i)

theorem total_eq_sum (hf : f default = 0) {n : Nat} (h : s.size ≤ n) :
    s.total f = ∑ i ∈ Finset.range n, f (s.get i) := by
  refine Finset.sum_subset (Finset.range_mono h) fun i _ hi => ?_
  rw [get_of_size_le (Nat.not_lt.1 fun hl => hi (Finset.mem_range.2 hl)), hf]

theorem total_congr (hf : f default = 0) (h : ∀ i, f (s'.get i) = f (s.get i)) :
    s'.total f = s.total f := by
  rw [total_eq_sum hf (Nat.le_max_left s'.size s.size), total_eq_sum hf (Nat.le_max_right s'.size s.size)]
  exact Finset.sum_congr rfl fun i _ => h i

theorem total_change (hf : f default = 0) {i : Nat}
    (h : ∀ j, j ≠ i → f (s'.get j) = f (s.get j)) :
    s'.total f + f (s.get i) = s.total f + f (s'.get i) := by
  let n := max (max s'.size s.size) (i + 1)
  have hi : i ∈ Finset.range n := Finset.mem_range.2 (by omega)
  rw [total_eq_sum (s := s') hf (n := n) (by omega), total_eq_sum (s := s) hf (n := n) (by omega),
    ← Finset.add_sum_erase _ _ hi, ← Finset.add_sum_erase _ _ hi]
  have hrest : ∑ j ∈ (Finset.range n).erase i, f (s'.get j) =
      ∑ j ∈ (Finset.range n).erase i, f (s.get j) :=
    Finset.sum_congr rfl fun j hj => h j (Finset.ne_of_mem_erase hj)
  omega

theorem le_total (hf : f default = 0) (s : Table α) (i : Nat) : f (s.get i) ≤ s.total f := by
  by_cases hi : i < s.size
  · exact Finset.single_le_sum (f := fun i => f (s.get i)) (fun _ _ => Nat.zero_le _)
      (Finset.mem_range.2 hi)
  · rw [get_of_size_le (Nat.not_lt.1 hi), hf]
    exact Nat.zero_le _

end Table

def holders (cs : List Callback) : Nat := cs.countP Callback.holdsHandle

/-- How many handles on engine `e` the frame stands for. -/
def Frame.handleCount (e : Nat) : Frame → Nat
  | .release e' => if e' = e then 1 else 0
  | .batch e' _ cs | .detached e' _ cs => if e' = e then holders cs else 0
  | _ => 0

def handleCounts (e : Nat) (fs : List Frame) : Nat := (fs.map (Frame.handleCount e)).sum

theorem handleCounts_cons (e : Nat) (f : Frame) (fs : List Frame) :
    handleCounts e (f :: fs) = f.handleCount e + handleCounts e fs := rfl

theorem handleCount_le_handleCounts {e : Nat} {f : Frame} {fs : List Frame} (h : f ∈ fs) :
    f.handleCount e ≤ handleCounts e fs := List.le_sum_of_mem (List.mem_map_of_mem h)

def Slot.handleCount (e : Nat) (s : Slot) : Nat := if s.engine = e then s.handles else 0

namespace Machine

variable {t : Nat} {m m' m'' : Machine} {e : Nat} {k : Kind}

def handleCount (m : Machine) (e : Nat) : Nat :=
  m.slots.total (Slot.handleCount e) + m.threads.total (fun x => handleCounts e x.stack) +
    (holders ((m.engine e).queue .regular) + holders ((m.engine e).queue .sleepable))

theorem slotHandleCount_default (e : Nat) : Slot.handleCount e default = 0 := ite_self 0

theorem handleCounts_default (e : Nat) : handleCounts e (default : Thread).stack = 0 := rfl

theorem handleCount_le_of_mem {f : Frame} (h : f ∈ (m.thread t).stack) (e : Nat) :
    f.handleCount e ≤ m.handleCount e := by
  have hs : handleCounts e (m.thread t).stack ≤ m.threads.total fun x => handleCounts e x.stack :=
    Table.le_total (f := fun x : Thread => handleCounts e x.stack) (handleCounts_default e) m.threads t
  have := handleCount_le_handleCounts (e := e) h
  unfold handleCount
  omega

theorem handles_le_handleCount (m : Machine) (slot : Nat) :
    (m.slots.get slot).handles ≤ m.handleCount (m.slots.get slot).engine := by
  have hs := Table.le_total (slotHandleCount_default (m.slots.get slot).engine) m.slots slot
  rw [Slot.handleCount, if_pos rfl] at hs
  unfold handleCount
  omega

/-- The engine counts as many handles more as there are more. -/
def Balanced (m m' : Machine) : Prop :=
  ∀ e, m'.handleCount e + (m.engine e).handles ≤ m.handleCount e + (m'.engine e).handles

theorem Balanced.refl (m : Machine) : Balanced m m := fun _ => Nat.le_refl _

theorem Balanced.trans (h : Balanced m m') (h' : Balanced m' m'') : Balanced m m'' := by
  intro e
  have := h e
  have := h' e
  omega

theorem handleCount_change (m m' : Machine) {t : Nat}
    (hs : ∀ u, u ≠ t → (m'.thread u).stack = (m.thread u).stack)
    (ht : ∀ s, m'.slots.get s = m.slots.get s)
    (he : ∀ e, ∃ ds, m'.engine e = { m.engine e with domains := ds }) (e : Nat) :
    m'.handleCount e + handleCounts e (m.thread t).stack = m.handleCount e + handleCounts e
      (m'.thread t).stack := by
  have hslots : m'.slots.total (Slot.handleCount e) = m.slots.total (Slot.handleCount e) :=
    Table.total_congr (slotHandleCount_default e) fun s => by rw [ht]
  have hstacks : (m'.threads.total fun x => handleCounts e x.stack) + handleCounts e (m.thread t).stack =
      (m.threads.total fun x => handleCounts e x.stack) + handleCounts e (m'.thread t).stack :=
    Table.total_change (f := fun x : Thread => handleCounts e x.stack) (handleCounts_default e)
      fun u hu => congrArg (handleCounts e) (hs u hu)
  obtain ⟨ds, hd⟩ := he e
  have hq (k : Kind) : (m'.engine e).queue k = (m.engine e).queue k := by rw [hd]; rfl
  unfold handleCount
  rw [hslots, hq, hq]
  omega

/-- Stacks, slots and engines are the same, up to domains. -/
structure Level (m m' : Machine) : Prop where
  stack : ∀ u, (m'.thread u).stack = (m.thread u).stack
  slots : ∀ s, m'.slots.get s = m.slots.get s
  engine : ∀ e, ∃ ds, m'.engine e = { m.engine e with domains := ds }

namespace Level

theorem of_eq (hs : ∀ u, (m'.thread u).stack = (m.thread u).stack) (ht : m'.slots = m.slots)
    (he : m'.engines = m.engines) : Level m m' := by
  refine ⟨hs, fun s => by rw [ht], fun e => ⟨(m.engine e).domains, ?_⟩⟩
  rw [Machine.engine, he, Machine.engine]

theorem trans (h : Level m m') (h' : Level m' m'') : Level m m'' := by
  refine ⟨fun u => (h'.stack u).trans (h.stack u), fun s => (h'.slots s).trans (h.slots s),
    fun e => ?_⟩
  obtain ⟨ds, hd⟩ := h.engine e
  obtain ⟨ds', hd'⟩ := h'.engine e
  exact ⟨ds', by rw [hd', hd]⟩

theorem handles (h : Level m m') (e : Nat) : (m'.engine e).handles = (m.engine e).handles := by
  obtain ⟨ds, hd⟩ := h.engine e
  rw [hd]

theorem handleCount (h : Level m m') (e : Nat) : m'.handleCount e = m.handleCount e := by
  have hs := handleCount_change m m' (t := 0) (fun u _ => h.stack u) h.slots h.engine e
  rw [h.stack] at hs
  omega

theorem balanced (h : Level m m') : Balanced m m' := by
  intro e
  rw [h.handleCount, h.handles]

theorem modifyDrain (m : Machine) (d : Nat) (f : Drain → Drain) : Level m (m.modifyDrain d f) :=
  .of_eq (fun _ => rfl) rfl rfl

theorem notify (m : Machine) (d : Nat) : Level m (m.notify d) := by
  refine .of_eq (part_notify Thread.stack (fun _ _ => rfl) m d) ?_ ?_ <;> rw [notify_eq]

theorem stop (m : Machine) (t : Nat) (s : Status) : Level m (m.stop t s) :=
  .of_eq (stack_stop m t s) rfl rfl

theorem emit (m : Machine) (t : Nat) (v : Event) : Level m (m.emit t v) := .of_eq (fun _ => rfl) rfl rfl

theorem back (m : Machine) (t : Nat) (o : Outcome) : Level m (m.back t o) :=
  .of_eq (stack_back m t o) rfl rfl

theorem waitFor (m : Machine) (t d : Nat) : Level m (m.waitFor t d) :=
  ((back ..).trans (modifyDrain _ d _)).trans (stop ..)

theorem join (m : Machine) (t u : Nat) : Level m (m.join t u) := by
  refine .of_eq (part_join Thread.stack (fun _ _ => rfl) m t u) ?_ ?_ <;> unfold Machine.join <;>
    dsimp only <;> split <;> rfl

theorem spawnTask (m : Machine) (name : String) (passes : List String) (b : Option Nat) (e : Nat) :
    ({ (m.spawnDrain .bare name { work := .scripted passes, holders := 1 }).2 with
      bareTask := b } : Machine).handleCount e = m.handleCount e := by
  have ht : ((m.spawnDrain .bare name { work := .scripted passes, holders := 1 }).2.threads.total
      fun x => handleCounts e x.stack) = m.threads.total fun x => handleCounts e x.stack :=
    Table.total_congr (handleCounts_default e) fun u =>
      part_spawnDrain (fun x => handleCounts e x.stack) m _ _ _ rfl u
  unfold Machine.handleCount
  exact congrArg (_ + · + _) ht

end Level

theorem KeepsStacks.level (h : KeepsStacks t m m') : Level m m' := ⟨h.stack, h.slots, h.engine⟩

theorem handleCount_pop (m : Machine) (t : Nat) (fs : List Frame) (e : Nat) :
    (m.modifyThread t fun x => { x with stack := fs }).handleCount e + handleCounts e (m.thread t).stack =
      m.handleCount e + handleCounts e fs := by
  have h := handleCount_change m (m.modifyThread t fun x => { x with stack := fs }) (t := t)
    (fun u hu => congrArg Thread.stack (thread_modifyThread_ne m _ hu)) (fun _ => rfl)
    (fun e => ⟨(m.engine e).domains, rfl⟩) e
  rwa [stack_pop] at h

theorem handleCount_push (m : Machine) (t : Nat) (f : Frame) (e : Nat) :
    (m.push t f).handleCount e = m.handleCount e + f.handleCount e := by
  have h := handleCount_change m (m.push t f) (t := t)
    (fun u hu => congrArg Thread.stack (thread_modifyThread_ne m _ hu)) (fun _ => rfl)
    (fun e => ⟨(m.engine e).domains, rfl⟩) e
  rw [stack_push, handleCounts_cons] at h
  omega

theorem handles_push (m : Machine) (t : Nat) (f : Frame) (e : Nat) :
    ((m.push t f).engine e).handles = (m.engine e).handles := rfl

theorem Balanced.push (m : Machine) (t : Nat) {f : Frame} (hf : ∀ e, f.handleCount e = 0) :
    Balanced m (m.push t f) := by
  intro e
  rw [handleCount_push, hf, handles_push]
  exact Nat.le_refl _

theorem handleCount_retain (m : Machine) (e e' : Nat) : (m.retain e').handleCount e = m.handleCount e := by
  have hq (k : Kind) : ((m.retain e').engine e).queue k = (m.engine e).queue k :=
    congrArg (PerKind.get · k) (part_modifyEngine Engine.queues m e' e fun _ => rfl)
  unfold handleCount
  rw [hq, hq]
  rfl

theorem handleCount_setQueue (m : Machine) (e e' : Nat) (k : Kind) (f : Engine → List Callback) :
    (m.modifyEngine e' fun x => x.setQueue k (f x)).handleCount e +
        (if e' = e then holders ((m.engine e').queue k) else 0) =
      m.handleCount e + if e' = e then holders (f (m.engine e')) else 0 := by
  have he := engine_modifyEngine m e' e fun x => x.setQueue k (f x)
  by_cases h : e' = e
  · subst h
    rw [if_pos rfl] at he
    have hq (j : Kind) : ((m.modifyEngine e' fun x => x.setQueue k (f x)).engine e').queue j =
        if j = k then f (m.engine e') else (m.engine e').queue j := by
      rw [he]
      exact PerKind.get_set ..
    rw [if_pos rfl, if_pos rfl, handleCount, handleCount, hq, hq]
    show m.slots.total _ + m.threads.total _ + _ + _ = _
    cases k <;> simp <;> omega
  · rw [if_neg (Ne.symm h)] at he
    rw [if_neg h, if_neg h, handleCount, he]
    rfl

theorem handles_setQueue (m : Machine) (e e' : Nat) (k : Kind) (f : Engine → List Callback) :
    ((m.modifyEngine e' fun x => x.setQueue k (f x)).engine e).handles = (m.engine e).handles :=
  part_modifyEngine Engine.handles m e' e fun _ => rfl

theorem handleCount_append (m : Machine) (e e' : Nat) (k : Kind) (c : Callback) :
    (m.modifyEngine e' fun x => x.setQueue k (x.queue k ++ [c])).handleCount e =
      m.handleCount e + if e' = e then holders [c] else 0 := by
  have h := handleCount_setQueue m e e' k fun x => x.queue k ++ [c]
  have hc : holders ((m.engine e').queue k ++ [c]) = holders ((m.engine e').queue k) + holders [c] :=
    List.countP_append ..
  rw [hc] at h
  split at h <;> split <;> omega

theorem handles_retain_if (m : Machine) (e e' : Nat) (c : Callback) :
    ((if c.holdsHandle then m.retain e' else m).engine e).handles =
      (m.engine e).handles + if e' = e then holders [c] else 0 := by
  have hc : holders [c] = if c.holdsHandle then 1 else 0 := List.countP_singleton ..
  rw [hc]
  split
  · rw [handles_retain]
    simp only [eq_comm]
  · simp

theorem Allows.handleCount {f : Frame} (h : m.Allows t f) (e : Nat) : f.handleCount e = 0 := by
  cases f <;> first | rfl | exact h.elim

theorem requestPass_level (m : Machine) (d : Nat) : Level m (m.requestPass d) :=
  (Level.modifyDrain ..).trans (.notify ..)

theorem Balanced.enqueue (m : Machine) (t e : Nat) (k : Kind) (c : Callback) :
    Balanced m (m.enqueue t e k c) := by
  intro e'
  let n := if c.holdsHandle then m.retain e else m
  have hs : n.handleCount e' = m.handleCount e' := by
    simp only [n]
    split
    · exact handleCount_retain ..
    · rfl
  have hl : Level (n.modifyEngine e fun x => x.setQueue k (x.queue k ++ [c])) (m.enqueue t e k c) :=
    (Level.emit ..).trans (requestPass_level ..)
  rw [hl.handleCount, hl.handles, handleCount_append, hs, handles_setQueue n, handles_retain_if]
  omega

theorem Balanced.visit (m : Machine) (t e : Nat) : Balanced m ((m.retain e).push t (.release e)) := by
  intro e'
  rw [handleCount_push, handleCount_retain, handles_push, handles_retain, Frame.handleCount]
  simp only [eq_comm (a := e)]
  omega

theorem handleCount_setSlot (m : Machine) (slot : Nat) (x : Slot) (e : Nat) :
    ({ m with slots := m.slots.set slot x } : Machine).handleCount e + (m.slots.get slot).handleCount e =
      m.handleCount e + x.handleCount e := by
  have h : (m.slots.set slot x).total (Slot.handleCount e) + (m.slots.get slot).handleCount e =
      m.slots.total (Slot.handleCount e) + ((m.slots.set slot x).get slot).handleCount e :=
    Table.total_change (slotHandleCount_default e) fun j hj => congrArg (Slot.handleCount e)
      (Table.get_set_ne _ hj x)
  rw [Table.get_set_self] at h
  have hl : ({ m with slots := m.slots.set slot x } : Machine).handleCount e =
      (m.slots.set slot x).total (Slot.handleCount e) + (m.threads.total fun x => handleCounts e x.stack) +
        (holders ((m.engine e).queue .regular) + holders ((m.engine e).queue .sleepable)) := rfl
  rw [hl, handleCount]
  omega

theorem Balanced.clone (m : Machine) {e slot n : Nat} (hs : (m.slots.get slot).engine = e)
    (hn : n = (m.slots.get slot).handles + 1) :
    Balanced m { m.retain e with slots := m.slots.set slot { engine := e, handles := n } } := by
  intro e'
  have h := handleCount_setSlot (m.retain e) slot { engine := e, handles := n } e'
  rw [handleCount_retain] at h
  have hh := handles_retain m e e'
  have hslot : (m.slots.get slot).handleCount e' = if e = e' then (m.slots.get slot).handles else 0 := by
    rw [Slot.handleCount, hs]
  change _ + (m.slots.get slot).handleCount e' = _ at h
  rw [hslot, Slot.handleCount] at h
  change _ ≤ _ + ((m.retain e).engine e').handles
  dsimp only at h ⊢
  change (handleCount { m.retain e with slots := m.slots.set slot { engine := e, handles := n } } e') +
    _ = _ at h
  dsimp only at h
  by_cases he : e = e'
  · rw [if_pos he, if_pos he] at h
    rw [if_pos he.symm] at hh
    omega
  · rw [if_neg he, if_neg he] at h
    rw [if_neg (Ne.symm he)] at hh
    omega

theorem Balanced.detach (m : Machine) (t e : Nat) (k : Kind) :
    Balanced m ((m.modifyEngine e fun x => x.setQueue k []).push t
      (.detached e k ((m.engine e).queue k))) := by
  intro e'
  have h := handleCount_setQueue m e' e k fun _ => []
  rw [show holders [] = 0 from rfl, ite_self] at h
  rw [handleCount_push, handles_push, handles_setQueue m e' e k fun _ => [], Frame.handleCount]
  omega

theorem PlainMove.balanced (h : PlainMove t m m') : Balanced m m' := by
  cases h with
  | keepsNests h => exact h.toKeepsStacks.level.balanced
  | push f hf => exact .push m t hf.handleCount
  | next f op hf hb =>
    have hs : ∀ e, f.handleCount e = 0 := fun e => by cases f <;> first | rfl | cases hf
    exact (Balanced.push m t hs).trans (Level.of_eq (fun u => Orderly.stack_setControl ..) rfl rfl).balanced
  | count d f hf => exact (Level.modifyDrain ..).balanced
  | request d hd => exact (requestPass_level ..).balanced
  | complete d n _ => exact ((Level.modifyDrain ..).trans (.notify ..)).balanced
  | enqueue e k c hp => exact .enqueue m t e k c
  | visit e hp => exact .visit m t e
  | clone e slot n hp hs hn => exact .clone m hs hn
  | loop d ticket => exact .push m t fun _ => rfl
  | detach e k => exact .detach m t e k
  | spawnTask name passes =>
    intro e
    rw [Level.spawnTask]
    exact Nat.le_refl _
  | dropTask => exact (Level.of_eq (fun _ => rfl) rfl rfl).balanced

theorem PlainMoves.balanced (h : PlainMoves t m m') : Balanced m m' := by
  induction h with
  | refl => exact .refl m
  | tail _ hc ih => exact ih.trans hc.balanced

/-- What the frame stands for goes to who runs it. -/
def topHandleCount (e : Nat) (top : Option Frame) : Nat := top.elim 0 (Frame.handleCount e)

theorem handleCount_starts {top : Option Frame} {n : Machine} (h : Starts t m top n) (e : Nat) :
    n.handleCount e + topHandleCount e top = m.handleCount e ∧
      (n.engine e).handles = (m.engine e).handles := by
  cases h with
  | same => exact ⟨rfl, rfl⟩
  | @pop f rest hs =>
    have h := handleCount_pop m t rest e
    rw [hs, handleCounts_cons] at h
    refine ⟨?_, rfl⟩
    show _ + f.handleCount e = _
    omega

theorem handles_pos_of_release {top : Option Frame}
    (hs : m.handleCount e + topHandleCount e top ≤ (m.engine e).handles) (ht : top = some (.release e)) :
    0 < (m.engine e).handles := by
  rw [ht] at hs
  simp only [topHandleCount, Option.elim, Frame.handleCount, if_true] at hs
  omega

theorem Balanced.endThread (m : Machine) (t : Nat) (p : Option Payload) :
    Balanced m (m.endThread t p) := by
  intro e
  have hl : Leave t m (m.endThread t p) := .endThread m p
  have hengine (e : Nat) : (m.endThread t p).engine e = m.engine e :=
    congrArg (Table.get · e) hl.keepsEngines.engines
  have hslots : (m.endThread t p).slots = m.slots := hl.alike.slots
  have h := handleCount_change m (m.endThread t p) (t := t)
    (fun u hu => hl.part_ne Thread.stack (fun _ _ => rfl) hu) (fun s => by rw [hslots])
    (fun e => ⟨(m.engine e).domains, hengine e⟩) e
  rw [stack_endThread] at h
  rw [hengine]
  simp only [handleCounts, List.map_nil, List.sum_nil] at h
  omega

theorem Balanced.shutdown (m : Machine) (t : Nat) (ds : List Nat) (saved : Outcome) :
    Balanced m (m.shutdown t ds saved) := by
  cases ds with
  | nil => exact (Level.back ..).balanced
  | cons d ds =>
    have hc : Level m ((m.modifyDrain d fun x => { x with tickets := x.tickets.close }).notify d) :=
      (Level.modifyDrain ..).trans (.notify ..)
    unfold Machine.shutdown
    dsimp only
    split
    · exact hc.balanced.trans ((Balanced.push _ t fun _ => rfl).trans (Level.back ..).balanced)
    · exact hc.balanced.trans ((Balanced.push _ t fun _ => rfl).trans
        ((Level.back ..).trans (.join ..)).balanced)

theorem handleCount_releaseHandle (m : Machine) (t e : Nat) (o : Outcome) (e' : Nat) :
    (m.releaseHandle t e o).handleCount e' + (m.engine e').handles ≤
      m.handleCount e' + (if e = e' then 1 else 0) + ((m.releaseHandle t e o).engine e').handles := by
  let n := m.modifyEngine e fun x => { x with handles := (m.engine e).handles - 1 }
  have hs : n.handleCount e' = m.handleCount e' := by
    have hq (k : Kind) : (n.engine e').queue k = (m.engine e').queue k :=
      congrArg (PerKind.get · k) (part_modifyEngine Engine.queues m e e' fun _ => rfl)
    unfold handleCount
    rw [hq, hq]
    rfl
  have hh : (n.engine e').handles =
      if e = e' then (m.engine e').handles - 1 else (m.engine e').handles := by
    refine (congrArg Engine.handles (engine_modifyEngine ..)).trans ?_
    by_cases he : e' = e
    · rw [if_pos he, if_pos he.symm, he]
    · rw [if_neg he, if_neg (Ne.symm he)]
  have hb : Balanced n (m.releaseHandle t e o) := by
    unfold Machine.releaseHandle
    dsimp only
    split
    · exact (Level.emit ..).balanced.trans (.shutdown _ t _ o)
    · exact (Level.back ..).balanced
  have := hb e'
  rw [hs, hh] at this
  split at this <;> split <;> omega

theorem handleCount_runBatch (m : Machine) (t e : Nat) (k : Kind) (cs : List Callback) (e' : Nat) :
    (m.runBatch t e k cs).handleCount e' + (m.engine e').handles ≤
      m.handleCount e' + (if e = e' then holders cs else 0) + ((m.runBatch t e k cs).engine e').handles := by
  cases cs with
  | nil =>
    have := (Level.back m t (.ok .unit)).balanced e'
    show (m.back t _).handleCount e' + _ ≤ _ + _ + ((m.back t _).engine e').handles
    omega
  | cons c cs =>
    have hbody (n : Machine) (held : Option Nat) (ops : List Op) :
        Balanced n (n.runCallbackBody t held ops) := by
      cases ops with
      | nil => exact (Level.back ..).balanced
      | cons op rest =>
        exact (Balanced.push n t fun _ => rfl).trans
          (Level.of_eq (fun u => Orderly.stack_setControl ..) rfl rfl).balanced
    have hrun (n : Machine) : (n.runCallback t e c).handleCount e' + (n.engine e').handles ≤
        n.handleCount e' + (if e = e' then holders [c] else 0) +
          ((n.runCallback t e c).engine e').handles := by
      cases c with
      | destroy size id =>
        have hb : Balanced n (n.runCallback t e (.destroy size id)) := by
          unfold Machine.runCallback
          dsimp only
          split <;> exact ((Level.emit ..).trans (.back ..)).balanced
        have := hb e'
        omega
      | call id hold body =>
        cases hold with
        | false =>
          have := ((Level.emit n t (.callback id)).balanced.trans (hbody _ none body)) e'
          show (runCallbackBody _ t none body).handleCount e' + _ ≤
            _ + _ + ((runCallbackBody _ t none body).engine e').handles
          omega
        | true =>
          have h1 := hbody ((n.emit t (.callback id)).push t (.release e)) (some e) body e'
          rw [handleCount_push, handles_push, (Level.emit ..).handleCount, (Level.emit ..).handles] at h1
          exact h1
    let n := (m.mark t e k (.callbackStarted c)).push t (.batch e k cs)
    have hn : n.handleCount e' = m.handleCount e' + if e = e' then holders cs else 0 :=
      (handleCount_push ..).trans (congrArg (· + _) (Level.handleCount (Level.emit ..) e'))
    have hc : holders (c :: cs) = holders cs + holders [c] := by
      rw [← List.singleton_append, holders, List.countP_append, Nat.add_comm]
      rfl
    have := hrun n
    rw [hn, hc, show (n.engine e').handles = (m.engine e').handles from rfl] at *
    show (n.runCallback t e c).handleCount e' + _ ≤ _ + _ + ((n.runCallback t e c).engine e').handles
    split at this <;> split <;> omega

theorem handleCount_discardBatch (m : Machine) (t e : Nat) (cs : List Callback) (o : Outcome) (e' : Nat) :
    (m.discardBatch t e cs o).handleCount e' = m.handleCount e' + if e = e' then holders cs else 0 := by
  have hfold (l : List Callback) (n : Machine) :
      (l.foldl (fun m _ => m.push t (.release e)) n).handleCount e' =
        n.handleCount e' + if e = e' then l.length else 0 := by
    induction l generalizing n with
    | nil => simp
    | cons c l ih =>
      rw [List.foldl_cons, ih, handleCount_push, Frame.handleCount, List.length_cons]
      split <;> omega
  unfold discardBatch
  rw [(Level.back ..).handleCount, hfold, holders, List.countP_eq_length_filter]

theorem handles_startEngine (m : Machine) (slot : Option Nat) (c : Config) (p : Access) (e : Nat) :
    ((m.startEngine slot c p).2.engine e).handles =
      if e = m.engines.size then 1 else (m.engine e).handles := by
  have he : (m.startEngine slot c p).2.engine e = if e = m.engines.size then _ else m.engine e :=
    Table.get_push ..
  rw [he]
  split <;> rfl

theorem queue_startEngine (m : Machine) (slot : Option Nat) (c : Config) (p : Access) (e : Nat)
    (k : Kind) : ((m.startEngine slot c p).2.engine e).queue k = (m.engine e).queue k := by
  have he : (m.startEngine slot c p).2.engine e = if e = m.engines.size then _ else m.engine e :=
    Table.get_push ..
  rw [he]
  split
  · rename_i hs
    rw [hs, engine, Table.get_of_size_le (Nat.le_refl _)]
    rfl
  · rfl

theorem handleCount_startEngine (m : Machine) (slot : Option Nat) (c : Config) (p : Access) (e : Nat) :
    (m.startEngine slot c p).2.handleCount e = m.handleCount e := by
  have ht : ((m.startEngine slot c p).2.threads.total fun x => handleCounts e x.stack) =
      m.threads.total fun x => handleCounts e x.stack :=
    Table.total_congr (handleCounts_default e) fun u =>
      part_startEngine (fun x => handleCounts e x.stack) (fun _ _ _ => rfl) m slot c p u
  unfold handleCount
  rw [ht, queue_startEngine, queue_startEngine]
  rfl

theorem handles_unborn (m : Machine) : (m.engine m.engines.size).handles = 0 := by
  rw [engine, Table.get_of_size_le (Nat.le_refl _)]
  rfl

theorem handles_newborn {slot : Option Nat} {c : Config} {p : Access}
    (h : KeepsStacks t (m.startEngine slot c p).2 m') : 0 < (m'.engine m.engines.size).handles := by
  rw [h.level.handles, handles_startEngine, if_pos rfl]
  exact Nat.one_pos

theorem tableEngine_eq_some {slot e : Nat} : m.tableEngine slot = some e ↔
    0 < (m.slots.get slot).handles ∧ (m.slots.get slot).engine = e := by
  unfold tableEngine
  dsimp only
  split
  · simp_all
  · simp_all [Nat.pos_iff_ne_zero]

theorem Balanced.dropHandle {slot e : Nat} (hs : m.tableEngine slot = some e) (t : Nat) (o : Outcome) :
    Balanced m (releaseHandle
      { m with slots := m.slots.set slot { engine := e, handles := (m.slots.get slot).handles - 1 } }
      t e o) := by
  intro e'
  obtain ⟨hpos, he⟩ := tableEngine_eq_some.1 hs
  let x : Slot := { engine := e, handles := (m.slots.get slot).handles - 1 }
  let n : Machine := { m with slots := m.slots.set slot x }
  have hslot : n.handleCount e' + (m.slots.get slot).handleCount e' = m.handleCount e' + x.handleCount e' :=
    handleCount_setSlot ..
  have hr : (n.releaseHandle t e o).handleCount e' + (m.engine e').handles ≤ _ :=
    handleCount_releaseHandle n t e o e'
  rw [Slot.handleCount, he] at hslot
  change _ = _ + (if e = e' then (m.slots.get slot).handles - 1 else 0) at hslot
  show (n.releaseHandle t e o).handleCount e' + _ ≤ _ + ((n.releaseHandle t e o).engine e').handles
  by_cases hee : e = e'
  · rw [if_pos hee] at hr hslot
    rw [if_pos hee] at hslot
    omega
  · rw [if_neg hee] at hr hslot
    rw [if_neg hee] at hslot
    omega

theorem handleCount_newborn {slot : Option Nat} {c : Config} {p : Access}
    (h : KeepsStacks t (m.startEngine slot c p).2 m') (e : Nat) :
    m'.handleCount e + (if m.engines.size = e then 1 else 0) + (m.engine e).handles =
      m.handleCount e + (m'.engine e).handles := by
  rw [h.level.handleCount, h.level.handles, handleCount_startEngine, handles_startEngine]
  by_cases he : e = m.engines.size
  · rw [he, if_pos rfl, if_pos rfl, handles_unborn]
  · rw [if_neg he, if_neg (Ne.symm he), Nat.add_zero]

theorem Balanced.built {slot : Nat} {c : Config} {p : Access} (hs : m.slotInUse slot = false)
    (h : KeepsStacks t (m.startEngine (some slot) c p).2 m') (o : Outcome) :
    Balanced m
      ({ m' with slots := m'.slots.set slot { engine := m.engines.size, handles := 1 } }.back t o) := by
  intro e
  have hnew := handleCount_newborn h e
  have hslot := handleCount_setSlot m' slot { engine := m.engines.size, handles := 1 } e
  have hfree : (m.slots.get slot).handles = 0 := by
    have := (Bool.or_eq_false_iff.1 hs).1
    simpa using this
  have hold : (m'.slots.get slot).handleCount e = 0 := by
    rw [h.level.slots, Slot.handleCount]
    show (if _ then (m.slots.get slot).handles else 0) = 0
    rw [hfree, ite_self]
  rw [hold, Slot.handleCount] at hslot
  rw [(Level.back ..).handleCount, (Level.back ..).handles]
  show _ ≤ _ + (m'.engine e).handles
  dsimp only at hslot
  omega

theorem Balanced.builtDefault {c : Config} {p : Access}
    (h : KeepsStacks t (m.startEngine none c p).2 m') (o : Outcome) :
    Balanced m (m'.releaseHandle t m.engines.size o) := by
  intro e
  have hnew := handleCount_newborn h e
  have hr := handleCount_releaseHandle m' t m.engines.size o e
  omega

/-- The engine loses no more handles than there are fewer. -/
theorem StepEffect.balanced {top : Option Frame} {m₀ : Machine} (h : StepEffect top t m₀ m') (e : Nat) :
    m'.handleCount e + (m₀.engine e).handles ≤
      m₀.handleCount e + topHandleCount e top + (m'.engine e).handles := by
  have hall {m' : Machine} (hb : Balanced m₀ m') :
      m'.handleCount e + (m₀.engine e).handles ≤ m₀.handleCount e + topHandleCount e top
        + (m'.engine e).handles := by
    have := hb e
    omega
  cases h with
  | plainMoves h => exact hall h.balanced
  | idle h hs => exact hall (h.balanced.trans (Level.stop ..).balanced)
  | park h p => exact hall (h.balanced.trans ((Level.back ..).trans (.stop ..)).balanced)
  | await d ticket ht =>
    exact hall ((Balanced.push m₀ t fun _ => rfl).trans (Level.waitFor ..).balanced)
  | raw h e' k hr hn h' =>
    exact hall ((h.balanced.trans (KeepsStacks.crossing hn).level.balanced).trans h'.balanced)
  | refused h e' k f hf => exact hall (h.balanced.trans (KeepsStacks.refused ..).level.balanced)
  | guard h e' k ho h' =>
    exact hall ((h.balanced.trans ((KeepsStacks.readLock ..).level.balanced.trans
      (.push _ t fun _ => rfl))).trans h'.balanced)
  | leave e' k o ht => exact hall (KeepsStacks.leave ..).level.balanced
  | release e' o ht =>
    rw [ht]
    exact handleCount_releaseHandle m₀ t e' o e
  | dropHandle h slot e' i o hs hi =>
    subst hi
    exact hall (h.balanced.trans (.dropHandle hs t o))
  | built h slot c p o hs h' => exact hall (h.balanced.trans (.built hs h'.toKeepsStacks o))
  | builtDefault h c p o h' => exact hall (h.balanced.trans (.builtDefault h'.toKeepsStacks o))
  | @batch n h e' k cs ht =>
    have hq := h.toKeepsStacks.level
    have hr := handleCount_runBatch n t e' k cs e
    have htop : topHandleCount e top = if e' = e then holders cs else 0 := by
      rcases ht with rfl | rfl <;> rfl
    rw [hq.handleCount, hq.handles] at hr
    rw [htop]
    exact hr
  | discard e' k cs p ht =>
    rw [handleCount_discardBatch, (BatchMoves.discardBatch ..).handles, ht]
    exact Nat.le_refl _
  | rest h d ticket ht hd =>
    exact hall (h.balanced.trans ((Balanced.push _ t fun _ => rfl).trans (Level.waitFor ..).balanced))
  | retire h d ticket ht hd hc => exact hall (h.balanced.trans (.endThread _ t none))
  | die d ticket p ht hc => exact hall (.endThread m₀ t _)
  | releaseTask h d o hd => exact hall (h.balanced.trans (.shutdown _ t _ o))
  | shutdown ds saved ht => exact hall (.shutdown m₀ t ds saved)
  | joined d ds saved ht =>
    obtain ⟨n, hq, heq⟩ := resumeJoined_eq m₀ t d ds saved
    rw [heq]
    exact hall (hq.toKeepsStacks.level.balanced.trans
      ((Balanced.push n t fun _ => rfl).trans (Level.back ..).balanced))

end Machine

end GracePeriod
