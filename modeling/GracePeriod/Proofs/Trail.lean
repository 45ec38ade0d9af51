import GracePeriod.Proofs.Act

namespace GracePeriod.Machine

variable {m₀ m m' : Machine} {p q : Machine → Bool} {steps later : List (Machine × Machine)}
  {t : Nat}

/-- A run from `m₀` as long as `p` holds, with its steps, the last one first. -/
inductive Trail (p : Machine → Bool) (m₀ : Machine) : Machine → List (Machine × Machine) → Prop
  | refl : Trail p m₀ m₀ []
  | begin {m : Machine} {steps : List (Machine × Machine)} (h : Trail p m₀ m steps)
      (hp : p m = true) (s : Script.Step) : Trail p m₀ (m.begin s).1 steps
  | step {m m' : Machine} {steps : List (Machine × Machine)} (h : Trail p m₀ m steps)
      (hp : p m = true) (hb : m.BuildsIdle) (hs : m.step = some m') :
      Trail p m₀ m' ((m, m') :: steps)

/-- A run under no condition. -/
abbrev FreeTrail : Machine → Machine → List (Machine × Machine) → Prop := Trail fun _ => true

namespace Trail

theorem reachable (h : Trail p m₀ m steps) (h₀ : Reachable m₀) : Reachable m := by
  induction h with
  | refl => exact h₀
  | begin _ _ s ih => exact ih.begin s
  | step _ _ hb hs ih => exact ih.step hb hs

theorem eq_of_false (h : Trail p m₀ m steps) (hp : p m₀ = false) : m = m₀ := by
  induction h with
  | refl => rfl
  | begin _ hm _ ih | step _ hm _ _ ih =>
    rw [ih, hp] at hm
    cases hm

theorem append (h : FreeTrail m₀ m steps) (h' : Trail p m m' later) :
    FreeTrail m₀ m' (later ++ steps) := by
  induction h' with
  | refl => exact h
  | begin _ _ s ih => exact ih.begin rfl s
  | step _ _ hb hs ih => exact ih.step rfl hb hs

theorem wakeOnly (h : Trail p m₀ m steps) (hp : p m = true)
    (ht : m.threads.indices.filter m.isParked = [t]) : Trail p m₀ (m.wake t) steps := by
  have hw := h.begin hp .resumeAll
  rwa [begin_resumeAll ht] at hw

theorem throwOnly (h : Trail p m₀ m steps) (hp : p m = true)
    (ht : m.threads.indices.filter m.isParked = [t]) (text : String) :
    Trail p m₀ ((m.back t (.error (.text text))).wake t) steps := by
  have hw := h.begin hp (.resume (m.thread t).name.text (some text))
  rwa [begin_resume ht] at hw

end Trail

/-- As long as thread `t` has more on its stack than `rest`. -/
def above (t : Nat) (rest : List Frame) (m : Machine) : Bool :=
  decide (rest.length < (m.thread t).stack.length)

/-- A call is under way, with `P`, until it is over, with `Q`. -/
theorem Trail.underway {P Q : List (Machine × Machine) → Machine → Prop} {rest : List Frame}
    (h : Trail (above t rest) m₀ m steps) (hr : Reachable m₀)
    (hover : ∀ ls n, Q ls n → (n.thread t).stack = rest)
    (hbegin : ∀ ls n s, Reachable n → P ls n → P ls (n.begin s).1)
    (hstep : ∀ ls n n', Reachable n → n.BuildsIdle → n.step = some n' → P ls n →
      P ((n, n') :: ls) n' ∨ Q ((n, n') :: ls) n') (h₀ : P [] m₀) : P steps m ∨ Q steps m := by
  have hback {ls : List (Machine × Machine)} {n : Machine} (hp : above t rest n = true)
      (hn : P ls n ∨ Q ls n) : P ls n := by
    refine hn.resolve_right fun hq => ?_
    have hlt := of_decide_eq_true hp
    rw [hover ls n hq] at hlt
    exact absurd hlt (Nat.lt_irrefl _)
  induction h with
  | refl => exact .inl h₀
  | begin h hp s ih => exact .inl (hbegin _ _ s (h.reachable hr) (hback hp ih))
  | step h hp hb hs ih => exact hstep _ _ _ (h.reachable hr) hb hs (hback hp ih)

/-- The steps that `run` makes, the last one first. -/
def trailRun : Nat → Machine → List (Machine × Machine)
  | 0, _ => []
  | fuel + 1, m =>
    match m.step with
    | none => []
    | some m' => trailRun fuel m' ++ [(m, m')]

def runsWithin (p : Machine → Bool) : Nat → Machine → Bool
  | 0, _ => true
  | fuel + 1, m =>
    match m.step with
    | none => true
    | some m' => p m && m.buildsPlain && runsWithin p fuel m'

theorem Trail.run (h : Trail p m₀ m steps) {fuel : Nat} (hr : runsWithin p fuel m = true) :
    Trail p m₀ (m.run fuel) (trailRun fuel m ++ steps) := by
  induction fuel generalizing m steps with
  | zero => exact h
  | succ fuel ih =>
    rw [runsWithin] at hr
    rw [Machine.run, trailRun]
    cases hs : m.step with
    | none => exact h
    | some n =>
      rw [hs] at hr
      dsimp only at hr
      rw [Bool.and_eq_true, Bool.and_eq_true] at hr
      obtain ⟨⟨hp, hb⟩, hr⟩ := hr
      have hn := ih (h.step hp (buildsIdle_of_buildsPlain hb) hs) hr
      rwa [List.append_cons] at hn

/-- The machine after some steps of a script, and the steps that it has made. -/
def follow (m : Machine) : List Script.Step → Machine × List (Machine × Machine)
  | [] => (m, [])
  | s :: rest =>
    let q := follow (m.perform s).1 rest
    (q.1, q.2 ++ trailRun stepLimit (m.begin s).1)

def followsPlain (m : Machine) : List Script.Step → Bool
  | [] => true
  | s :: rest => runsWithin (fun _ => true) stepLimit (m.begin s).1 && followsPlain (m.perform s).1 rest

theorem Trail.follow (h : FreeTrail m₀ m steps) (script : List Script.Step)
    (hr : m.followsPlain script = true) :
    FreeTrail m₀ (m.follow script).1 ((m.follow script).2 ++ steps) := by
  induction script generalizing m steps with
  | nil => exact h
  | cons s rest ih =>
    rw [followsPlain, Bool.and_eq_true] at hr
    have hn := ih ((h.begin rfl s).run hr.1) hr.2
    rwa [← List.append_assoc] at hn

end GracePeriod.Machine
