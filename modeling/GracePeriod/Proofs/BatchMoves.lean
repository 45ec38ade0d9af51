import GracePeriod.Proofs.StepEffects

namespace GracePeriod

/-- Frames that belong to a batch: the rest of it, the operations of a callback, and its handle. -/
def Frame.isOfBatch : Frame → Bool
  | .batch .. | .callbackBody .. | .release _ => true
  | _ => false

namespace Machine

variable {t : Nat} {m m₀ m' : Machine}

inductive BatchMove (t : Nat) : Machine → Machine → Prop
  | emit (m : Machine) (v : Event) : BatchMove t m (m.emit t v)
  | push (m : Machine) {f : Frame} (hf : f.isOfBatch = true) : BatchMove t m (m.push t f)
  | back (m : Machine) (o : Outcome) : BatchMove t m (m.back t o)
  | eval (m : Machine) (held : Option Nat) (op : Op) : BatchMove t m (m.eval t held op)

abbrev BatchMoves (t : Nat) : Machine → Machine → Prop := Relation.ReflTransGen (BatchMove t)

namespace BatchMoves

theorem runCallbackBody (h : BatchMoves t m₀ m) (held : Option Nat) (ops : List Op) :
    BatchMoves t m₀ (m.runCallbackBody t held ops) := by
  cases ops with
  | nil => exact h.tail (.back ..)
  | cons op rest => exact (h.tail (.push m rfl)).tail (.eval ..)

theorem runCallback (h : BatchMoves t m₀ m) (e : Nat) (c : Callback) :
    BatchMoves t m₀ (m.runCallback t e c) := by
  cases c with
  | destroy size id =>
    unfold Machine.runCallback
    dsimp only
    split <;> exact (h.tail (.emit ..)).tail (.back ..)
  | call id hold body =>
    have he : BatchMoves t m₀ (m.emit t (.callback id)) := h.tail (.emit ..)
    unfold Machine.runCallback
    dsimp only
    split
    · exact runCallbackBody (he.tail (.push _ rfl)) _ body
    · exact he.runCallbackBody none body

theorem runBatch (m : Machine) (t e : Nat) (k : Kind) (cs : List Callback) :
    BatchMoves t m (m.runBatch t e k cs) := by
  cases cs with
  | nil => exact .single (.back ..)
  | cons c cs =>
    have hm : BatchMoves t m (m.mark t e k (.callbackStarted c)) := .single (.emit ..)
    exact runCallback (hm.tail (.push _ rfl)) e c

theorem discardBatch (m : Machine) (t e : Nat) (cs : List Callback) (o : Outcome) :
    BatchMoves t m (m.discardBatch t e cs o) := by
  have hfold (l : List Callback) (n : Machine) (h : BatchMoves t m n) :
      BatchMoves t m (l.foldl (fun m _ => m.push t (.release e)) n) := by
    induction l generalizing n with
    | nil => exact h
    | cons c l ih => exact ih _ (h.tail (.push n rfl))
  exact (hfold _ m .refl).tail (.back ..)

theorem tables (h : BatchMoves t m m') :
    m'.drains = m.drains ∧ m'.engines = m.engines ∧ m'.slots = m.slots := by
  induction h with
  | refl => exact ⟨rfl, rfl, rfl⟩
  | tail _ hx ih => cases hx <;> exact ih

theorem schedulers (h : BatchMoves t m m') : m'.schedulers = m.schedulers := by
  induction h with
  | refl => rfl
  | tail _ hx ih => cases hx <;> exact ih

theorem handles (h : BatchMoves t m m') (e : Nat) : (m'.engine e).handles = (m.engine e).handles :=
  congrArg (fun es => (Table.get es e).handles) h.tables.2.1

theorem part {β : Type} (p : Thread → β) (hp : ∀ x c fs, p { x with control := c, stack := fs } = p x)
    (h : BatchMoves t m m') (u : Nat) : p (m'.thread u) = p (m.thread u) := by
  induction h with
  | refl => rfl
  | @tail n _ _ hx ih =>
    refine Eq.trans ?_ ih
    cases hx with
    | emit v => rfl
    | push _ => exact part_modifyThread p n t u fun x => hp x x.control _
    | back o | eval held op => exact part_modifyThread p n t u fun x => hp x _ x.stack

theorem status (h : BatchMoves t m m') (u : Nat) : (m'.thread u).status = (m.thread u).status :=
  h.part Thread.status (fun _ _ _ => rfl) u

theorem nests (h : BatchMoves t m m') (u : Nat) : m'.nests u = m.nests u :=
  h.part Thread.nests (fun _ _ _ => rfl) u

theorem stack (h : BatchMoves t m m') :
    ∃ fs, (m'.thread t).stack = fs ++ (m.thread t).stack ∧ ∀ f ∈ fs, f.isOfBatch = true := by
  induction h with
  | refl => exact ⟨[], rfl, nofun⟩
  | @tail n _ _ hx ih =>
    obtain ⟨fs, hs, hf⟩ := ih
    cases hx with
    | emit v => exact ⟨fs, hs, hf⟩
    | @push f hfb =>
      refine ⟨f :: fs, ?_, List.forall_mem_cons.2 ⟨hfb, hf⟩⟩
      rw [stack_push, hs, List.cons_append]
    | back o => exact ⟨fs, (stack_back ..).trans hs, hf⟩
    | eval held op => exact ⟨fs, (Orderly.stack_setControl ..).trans hs, hf⟩

end BatchMoves

end Machine

end GracePeriod
