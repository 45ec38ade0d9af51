import GracePeriod.Proofs.ThreadFrames

namespace GracePeriod.Machine

/-- What happens at once, in a turn or from outside. -/
inductive Act : Machine → Machine → Prop
  | action {scope : Scope} {t : Nat} {m m' : Machine} (ht : m.turn = some t) (h : Action scope t m m') :
      Act m m'
  | stack {t : Nat} {m : Machine} (ht : m.turn = some t) (fs : List Frame) :
      Act m (m.modifyThread t fun x => { x with stack := fs })
  | barrier {t : Nat} {m : Machine} (ht : m.turn = some t) (e : Nat) (k : Kind) {v : Mark}
      (hv : v.isBarrier = true) : Act m (m.mark t e k v)
  | leave {t : Nat} {m m' : Machine} (ht : m.turn = some t) (h : Leave t m m') : Act m m'
  | pick {t : Nat} {rest : List Nat} {m : Machine} (hn : m.turn = none) (hr : m.ready = t :: rest) :
      Act m { m with turn := some t, ready := rest }
  | external {m m' : Machine} (h : External m m') : Act m m'

variable {scope : Scope} {m m' : Machine} {t : Nat}

theorem Action.turn (h : Action scope t m m') (ht : m.turn = some t) : m'.turn = some t :=
  ((Moves.mono h.moves).changes ht).2

theorem Act.changes (h : Act m m') : Changes m m' := by
  cases h with
  | action ht h => exact ((Moves.mono h.moves).changes ht).1
  | stack ht fs => exact .single (.move ht (.stack m fs rfl))
  | barrier ht e k hv =>
    refine .single (.move ht (.mark m e k _ (Scope.marks_of_isNeutral .all e k ?_)))
    rename_i v
    cases v <;> first | rfl | cases hv
  | leave ht h => exact .single (.leave ht h)
  | pick hn hr => exact .single (.pick hn hr)
  | external h => exact .single (.external h)

theorem Visited.act (h : Visited m) (ha : Act m m') : Visited m' := by
  obtain ⟨m₀, h₀, hc⟩ := h
  exact ⟨m₀, h₀, hc.trans ha.changes⟩

theorem Starts.visited {top : Option Frame} {n : Machine} (h : Starts t m top n)
    (ht : m.turn = some t) (hv : Visited m) : n.turn = some t ∧ Visited n := by
  cases h with
  | same => exact ⟨ht, hv⟩
  | pop hs => exact ⟨ht, hv.act (.stack ht _)⟩

theorem Actions.visited (hd : Actions scope t m m') (ht : m.turn = some t) (hv : Visited m) :
    m'.turn = some t ∧ Visited m' := by
  induction hd with
  | refl => exact ⟨ht, hv⟩
  | tail _ hx ih => exact ⟨hx.turn ih.1, ih.2.act (.action ih.1 hx)⟩

theorem Visited.call (hv : Visited m) (ht : m.turn = some t) (e : Nat) :
    Visited (((m.push t .attempt).retain e).push t (.release e)) := by
  have hd : Actions .plain t m (m.push t .attempt) := Actions.pushPlain .refl rfl rfl
  exact (((hd.retain e).pushPlain rfl rfl).visited ht hv).2

/-- What survives everything that thread `t` does in its turn survives the turn. -/
theorem Reachable.advance_induction {P : Machine → Prop} (h : Reachable m) (hb : m.BuildsIdle)
    (ht : m.turn = some t)
    (action : ∀ scope n n', Visited n → n.turn = some t → Action scope t n n' → P n → P n')
    (stack : ∀ n fs, Visited n → n.turn = some t → P n →
      P (n.modifyThread t fun x => { x with stack := fs }))
    (mark : ∀ n e k v, v.isBarrier = true → Visited n → n.turn = some t → P n → P (n.mark t e k v))
    (leave : ∀ n n', Visited n → n.turn = some t → Leave t n n' → P n → P n') (hm : P m) :
    P (m.advance t) := by
  have hstack {n : Machine} (fs : List Frame) (hn : n.turn = some t ∧ Visited n ∧ P n) :
      (n.modifyThread t fun x => { x with stack := fs }).turn = some t ∧
        Visited (n.modifyThread t fun x => { x with stack := fs }) ∧
          P (n.modifyThread t fun x => { x with stack := fs }) :=
    ⟨hn.1, hn.2.1.act (.stack hn.1 fs), stack n fs hn.2.1 hn.1 hn.2.2⟩
  obtain ⟨scope, top, n, -, hn, hc⟩ := advance_mayPush hb ht (h.framesFit t)
  have hstart : n.turn = some t ∧ Visited n ∧ P n := by
    cases hn with
    | same => exact ⟨ht, h.visited, hm⟩
    | pop hst => exact hstack _ ⟨ht, h.visited, hm⟩
  exact hc.preserves (P := fun n => n.turn = some t ∧ Visited n ∧ P n) (Q := P)
    (fun _ n n' _ hd hn => ⟨hd.turn hn.1, hn.2.1.act (.action hn.1 hd), action _ n n' hn.2.1 hn.1 hd hn.2.2⟩)
    (fun n f _ hn => hstack (f :: (n.thread t).stack) hn)
    (fun n e k v hv hn =>
      ⟨hn.1, hn.2.1.act (.barrier hn.1 e k hv), mark n e k v hv hn.2.1 hn.1 hn.2.2⟩)
    (fun n hn => hn.2.2) (fun n n' hl hn => leave n n' hn.2.1 hn.1 hl hn.2.2) hstart

theorem Visited.begin_preserves {P : Machine → Prop} (h : Visited m) (s : Script.Step)
    (hP : ∀ n n', Visited n → External n n' → P n → P n') (hm : P m) : P (m.begin s).1 := by
  have hall {n : Machine} (hn : Externals m n) : Visited n ∧ P n := by
    induction hn with
    | refl => exact ⟨h, hm⟩
    | tail _ he ih => exact ⟨ih.1.act (.external he), hP _ _ ih.1 he ih.2⟩
  exact (hall (begin_externals m s)).2

/-- What holds of every new machine and survives every act holds of every reachable machine. -/
theorem Reachable.act_induction {P : Machine → Prop}
    (hnew : ∀ workers host m, Machine.new workers host = .ok m → P m)
    (hact : ∀ m m', Visited m → P m → Act m m' → P m') (h : Reachable m) : P m := by
  induction h with
  | new hm => exact hnew _ _ _ hm
  | begin h s ih =>
    exact h.visited.begin_preserves s (fun _ _ hv he hp => hact _ _ hv hp (.external he)) ih
  | @step m _ h hb hs ih =>
    rcases step_cases hs with ⟨t, ht, rfl⟩ | ⟨t, rest, hn, hr, rfl⟩
    · exact h.advance_induction hb ht (fun _ n n' hv ht hd hn => hact n n' hv hn (.action ht hd))
        (fun n fs hv ht hn => hact _ _ hv hn (.stack ht fs))
        (fun n e k v hb hv ht hn => hact _ _ hv hn (.barrier ht e k hb))
        (fun n n' hv ht hl hn => hact n n' hv hn (.leave ht hl)) ih
    · exact hact _ _ h.visited ih (.pick hn hr)

end GracePeriod.Machine
