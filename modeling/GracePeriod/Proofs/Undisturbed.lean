import GracePeriod.Proofs.Grace

namespace GracePeriod.Machine

variable {m m' : Machine} {t u e : Nat} {k : Kind}

/-- The step resumes the thread with a panic. -/
def Hits (m : Machine) (s : Script.Step) (t : Nat) : Prop :=
  ∃ who text, s = .resume who (some text) ∧
    m.parkedThreads.find? (fun t => (m.thread t).name.text = who) = some t

/-- A machine that scripts can bring about, at any point of a run in which no thread has been
resumed with a panic while it waited for a grace period of the domain. -/
inductive Undisturbed (e : Nat) (k : Kind) : Machine → Prop
  | new {workers : List Nat} {host : Nat} {m : Machine} (h : Machine.new workers host = .ok m) :
      Undisturbed e k m
  | begin {m : Machine} (h : Undisturbed e k m) (s : Script.Step)
      (hs : ∀ t, m.Hits s t → ¬Waiting m t e k) : Undisturbed e k (m.begin s).1
  | step {m m' : Machine} (h : Undisturbed e k m) (hb : m.BuildsIdle) (hs : m.step = some m') :
      Undisturbed e k m'

theorem Undisturbed.reachable (h : Undisturbed e k m) : Reachable m := by
  induction h with
  | new hm => exact .new hm
  | begin _ s _ ih => exact ih.begin s
  | step _ hb hs ih => exact ih.step hb hs

theorem Undisturbed.perform (h : Undisturbed e k m) (i : Nat) (op : Op)
    (hr : runsPlain stepLimit (m.begin (.act i op)).1 = true) :
    Undisturbed e k (m.perform (.act i op)).1 := by
  have hb : Undisturbed e k (m.begin (.act i op)).1 :=
    h.begin _ fun t ⟨who, text, hs, _⟩ => nomatch hs
  exact run_induction (fun _ _ h hb hs => h.step hb hs) hr hb

theorem thread_actor (m : Machine) (i : Nat) (hu : (m.thread u).stack ≠ []) :
    (m.actor i).2.thread u = m.thread u := by
  unfold actor
  dsimp only
  split
  · rfl
  · refine (Table.get_push ..).trans (if_neg ?_)
    rintro rfl
    exact hu (congrArg Thread.stack (thread_of_size_le (Nat.le_refl _)))

theorem begin_control (ho : Orderly m) (s : Script.Step) (hu : (m.thread u).stack ≠ []) :
    ((m.begin s).1.thread u).control = (m.thread u).control ∨ m.Hits s u := by
  have hwake (m : Machine) (t : Nat) := part_wake Thread.control (fun _ _ => rfl) m t u
  have hidle {i : Nat} (h : (m.actor i).2.isIdle (m.actor i).1 = true) : u ≠ (m.actor i).1 := by
    have ho' : Orderly (m.actor i).2 := Externals.preserves (P := Orderly)
      (fun _ _ ho he _ => ho.external he) (m.actor_externals i) ho ho
    intro hc
    have hnil := ho'.resting _ (.inl (Orderly.status_of_isIdle h))
    rw [← hc, thread_actor m i hu] at hnil
    exact hu hnil
  cases s with
  | resume who panic =>
    simp only [begin]
    split
    · exact .inl rfl
    · rename_i t ht
      cases panic with
      | none => exact .inl (hwake m t)
      | some text =>
        by_cases hut : u = t
        · exact .inr ⟨who, text, rfl, hut ▸ ht⟩
        · exact .inl ((hwake _ t).trans (congrArg Thread.control (thread_modifyThread_ne m _ hut)))
  | resumeAll =>
    refine .inl ((congrArg Thread.control (thread_wakeAll m m.parkedThreads u)).trans ?_)
    split <;> rfl
  | exit i =>
    simp only [begin]
    split
    · rename_i hi
      have hl : Leave (m.actor i).1 (m.actor i).2 ((m.actor i).2.endThread (m.actor i).1 none) :=
        .endThread _ none
      exact .inl ((hl.part_ne Thread.control (fun _ _ => rfl) (hidle hi)).trans
        (congrArg Thread.control (thread_actor m i hu)))
    · exact .inl rfl
  | act i op =>
    simp only [begin]
    split
    · rename_i hi
      have he : ((m.actor i).2.eval (m.actor i).1 none op).thread u = (m.actor i).2.thread u :=
        thread_modifyThread_ne _ _ (hidle hi)
      exact .inl ((hwake ..).trans (congrArg Thread.control (he.trans (thread_actor m i hu))))
    · exact .inl rfl

theorem begin_stack (ho : Orderly m) (s : Script.Step) :
    ((m.begin s).1.thread u).stack = (m.thread u).stack := by
  refine Externals.preserves (P := fun n => (n.thread u).stack = (m.thread u).stack)
    (fun n n' ho he hn => ?_) (begin_externals m s) ho rfl
  by_cases hu : (n.thread u).stack = []
  · rw [← hn, hu, he.stack_eq_nil hu]
  · exact (he.posture ho hu).1.trans hn

theorem waiting_of_stack (h : (m'.thread u).stack = (m.thread u).stack) :
    Waiting m' u e k ↔ Waiting m u e k := by
  unfold Waiting
  rw [h]

theorem Waiting.stack_ne_nil (h : Waiting m u e k) : (m.thread u).stack ≠ [] := by
  obtain ⟨c, target, hf⟩ := h
  exact List.ne_nil_of_mem hf

theorem Waiting.lt_size (h : Waiting m u e k) : u < m.threads.size := by
  refine Nat.lt_of_not_le fun hle => h.stack_ne_nil ?_
  rw [thread_of_size_le hle]
  rfl

theorem Unmoved.waiting (h : Unmoved u m m') : Waiting m' u e k ↔ Waiting m u e k := by
  cases h with
  | same hs hc => exact waiting_of_stack hs
  | started hu d hd ht hs hc =>
    refine iff_of_false ?_ fun hw => absurd hw.lt_size (Nat.not_lt.2 hu)
    rintro ⟨c, target, hf⟩
    rw [hs, List.mem_singleton] at hf
    cases hf

theorem Unmoved.proceeds (h : Unmoved u m m') (hp : Proceeds m u) : Proceeds m' u := by
  obtain ⟨r, hp⟩ := hp
  cases h with
  | same hs hc => exact ⟨r, hc.trans hp⟩
  | started hu d hd ht hs hc => exact ⟨_, hc⟩

/-- Waiters that are spared go on with results. -/
theorem Undisturbed.proceeds (h : Undisturbed e k m) : ∀ u, Waiting m u e k → Proceeds m u := by
  induction h with
  | new hm =>
    obtain ⟨cs, -, rfl⟩ := new_eq hm
    exact fun u hw => absurd (congrArg Thread.stack (Table.get_empty u)) hw.stack_ne_nil
  | @begin m h s hs ih =>
    intro u hw
    have ho := h.reachable.visited.orderly
    have hw' := (waiting_of_stack (begin_stack ho s)).1 hw
    rcases begin_control ho s hw'.stack_ne_nil with hc | hc
    · obtain ⟨r, hr⟩ := ih u hw'
      exact ⟨r, hc.trans hr⟩
    · exact absurd hw' (hs u hc)
  | @step m _ h hb hs ih =>
    rcases step_cases hs with ⟨t, ht, rfl⟩ | ⟨t, rest, hn, hr, rfl⟩
    · intro u hw
      by_cases hu : u = t
      · subst hu
        have hr := h.reachable
        cases (advance_graceState hb ht (hr.visited.orderly.lt_size ht) (hr.graceState u)).2 e k with
        | quiet hq hw' hc => exact hc hw (ih u (hw'.1 hw))
        | launched target vs hv hh hn _ hc => exact hc
        | returned target pre _ _ _ hn => exact absurd hw hn
        | broken _ hn => exact absurd hw hn
      · have hun := advance_unmoved hb ht hu
        exact hun.proceeds (ih u (hun.waiting.1 hw))
    · exact ih

end GracePeriod.Machine
