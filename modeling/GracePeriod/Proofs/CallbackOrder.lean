import GracePeriod.Proofs.Stage

namespace GracePeriod

open History

/-- The callbacks of a domain that the thread has still to run when it comes back to the frame. -/
def Frame.batchOf (e : Nat) (k : Kind) : Frame → List Callback
  | .detached e' k' cs | .batch e' k' cs => if e' = e ∧ k' = k then cs else []
  | _ => []

theorem Frame.batchOf_eq_nil {f : Frame} (h : f.isPass = false) (e : Nat) (k : Kind) :
    f.batchOf e k = [] := by
  cases f <;> first | rfl | cases h

namespace Machine

variable {m : Machine} {t d e : Nat} {k : Kind} {fs : List Frame} {batch : List Callback}

def drainThread (m : Machine) (e : Nat) (k : Kind) : Nat :=
  (m.drain ((m.engine e).drains.get k)).thread

/-- The rest of the batch in progress, which has not started yet. -/
def inHand (m : Machine) (e : Nat) (k : Kind) : List Callback :=
  (m.thread (m.drainThread e k)).stack.flatMap (·.batchOf e k)

/-- The thread that runs the callbacks of a domain has died from a panic, or it is about to: its pass
has panicked, the batch has been thrown away, and only the handles of its callbacks are still given
up. -/
def PassPanicked (m : Machine) (e : Nat) (k : Kind) : Prop :=
  (∃ p, (m.thread (m.drainThread e k)).status = .ended (some p)) ∨
    ∃ ticket, Unwinding m (m.drainThread e k) [.worker ((m.engine e).drains.get k) ticket]

theorem flatMap_batchOf (h : ∀ f ∈ fs, f.isPass = false) (e : Nat) (k : Kind)
    (base : List Frame) : (fs ++ base).flatMap (·.batchOf e k) = base.flatMap (·.batchOf e k) := by
  have hnil : fs.flatMap (·.batchOf e k) = [] :=
    List.flatMap_eq_nil_iff.2 fun f hf => f.batchOf_eq_nil (h f hf) e k
  rw [List.flatMap_append, hnil]
  rfl

theorem inHand_of_unserved (hc : ∀ u, m.FramesFit u) (hd : ∀ d, ¬m.Serves d e k) :
    m.inHand e k = [] := by
  refine List.flatMap_eq_nil_iff.2 fun f hf => ?_
  have hfits := hc _ f hf
  have hother {e' : Nat} {k' : Kind} (h : ∃ d, m.Serves d e' k' ∧ (m.drain d).thread = m.drainThread e k)
      (cs : List Callback) : (if e' = e ∧ k' = k then cs else []) = [] := by
    refine if_neg ?_
    rintro ⟨rfl, rfl⟩
    obtain ⟨d, hs, -⟩ := h
    exact hd d hs
  cases f with
  | detached e' k' cs | batch e' k' cs => exact hother hfits cs
  | _ => rfl

/-- No callback is lost but by a panic. -/
theorem Stage.inHand (h : Stage t d e k m) (hd : (m.engine e).drains.get k = d)
    (ht : (m.drain d).thread = t) (hp : ¬PassPanicked m e k) : Holds m e k none (m.inHand e k) := by
  have hthread : m.drainThread e k = t := by rw [drainThread, hd, ht]
  have hstack {fs : List Frame} (hs : (m.thread t).stack = fs) :
      m.inHand e k = fs.flatMap (·.batchOf e k) := by rw [Machine.inHand, hthread, hs]
  have hown (cs : List Callback) : (if e = e ∧ k = k then cs else []) = cs := if_pos ⟨rfl, rfl⟩
  cases h with
  | rest ticket o hs hc hh hf =>
    rw [hstack hs]
    exact hh.drop
  | waiting wakes c target pre batch ticket o hs hw hc hh hf hg hq =>
    have hw' (f : Frame) (hf : f ∈ wakes) : f.isPass = false := by
      have := hw f hf
      cases f <;> first | rfl | cases this
    rw [hstack hs, flatMap_batchOf hw']
    simpa [Frame.batchOf] using hh.drop
  | landed batch ticket o hs hc hh hf hr =>
    rw [hstack hs]
    simpa [Frame.batchOf] using hh.drop
  | running above batch ticket hs ha hh hf hr =>
    rw [hstack hs, flatMap_batchOf ha]
    simpa [Frame.batchOf] using hh.drop
  | beingStopped lost ticket hu hh hf =>
    refine absurd (.inr ⟨ticket, ?_⟩) hp
    rw [hthread, hd]
    exact hu
  | gone lost p hs he hh hf hl =>
    cases p with
    | none =>
      rw [hstack hs]
      rwa [hl rfl] at hh
    | some p =>
      refine absurd (.inl ⟨p, ?_⟩) hp
      rw [hthread]
      exact he

theorem inHand_of_unwinding {ticket : Option Nat}
    (h : Unwinding m (m.drainThread e k) [.worker d ticket]) : m.inHand e k = [] := by
  obtain ⟨fs, o, hs, -, hu⟩ := h
  have hnil : fs.flatMap (·.batchOf e k) = [] := by
    clear hs
    induction fs generalizing o with
    | nil => rfl
    | cons f fs ih =>
      cases f with
      | release _ | shutdown _ _ | joined _ _ _ => exact ih _ hu
      | _ => exact hu.elim
  rw [inHand, hs, List.flatMap_append, hnil]
  rfl

/-- What has started is a prefix of what has been enqueued; and as long as no pass has panicked, what
follows it is the rest of the batch in progress and then the queue, whose length is what
`pending` answers. -/
theorem callbacks_in_order (h : Reachable m) (e : Nat) (k : Kind) :
    started (m.history e k) <+: queued (m.history e k) ∧
      (¬PassPanicked m e k → queued (m.history e k) =
        started (m.history e k) ++ m.inHand e k ++ m.queue e k) ∧
      ∀ t, m.callHandle t e (.pending k) = m.back t (.ok (.number (m.queue e k).length)) := by
  have hl := (h.ledger e k).1
  refine ⟨hl.prefixes.2, fun hp => ?_, fun _ => rfl⟩
  cases hl with
  | unserved hd hh hf =>
    rw [inHand_of_unserved h.framesFit hd]
    exact hh.queued
  | served d hd hs =>
    exact (hs.inHand (h.visited.drainsAssigned.named d e k hd) rfl hp).queued

/-- While the drain thread stands at a gate in the second of three callbacks, the last reader leaves
and a fourth callback is enqueued. -/
def batchRunning : Machine :=
  let m := (sample.perform (.act 0 (.handle 0 (.readLock .regular)))).1
  let m := (m.perform (.act 1 (.handle 0 (.deferDrop .regular 7 4)))).1
  let m := (m.perform (.act 1 (.call 0 false .regular 1 false [.gate]))).1
  let m := (m.perform (.act 1 (.call 0 false .regular 2 false []))).1
  let m := (m.perform (.act 0 (.handle 0 (.readUnlock .regular)))).1
  let m := (m.wake 1).settle
  (m.perform (.act 1 (.handle 0 (.deferDrop .regular 8 4)))).1

theorem reachable_batchRunning : Reachable batchRunning := by
  have h := reachable_sample.perform (.act 0 (.handle 0 (.readLock .regular))) (by decide +kernel)
  have h := h.perform (.act 1 (.handle 0 (.deferDrop .regular 7 4))) (by decide +kernel)
  have h := h.perform (.act 1 (.call 0 false .regular 1 false [.gate])) (by decide +kernel)
  have h := h.perform (.act 1 (.call 0 false .regular 2 false [])) (by decide +kernel)
  have h := h.perform (.act 0 (.handle 0 (.readUnlock .regular))) (by decide +kernel)
  have h := h.resumeOnly (t := 1) (by decide +kernel) (by decide +kernel)
  exact h.perform _ (by decide +kernel)

theorem batch_in_order : Reachable batchRunning ∧ ¬PassPanicked batchRunning 0 .regular ∧
    started (batchRunning.history 0 .regular) = [.destroy 4 (some 7), .call 1 false [.gate]] ∧
    queued (batchRunning.history 0 .regular) =
      [.destroy 4 (some 7), .call 1 false [.gate]] ++ [.call 2 false []] ++
        [.destroy 4 (some 8)] := by
  have hh : batchRunning.history 0 .regular = [(3, .queued (.destroy 4 (some 8))),
      (1, .callbackStarted (.call 1 false [.gate])), (1, .synchronizeReturned), (1, .advanced 1),
      (1, .synchronizeCalled), (1, .callbackEnded), (1, .callbackStarted (.destroy 4 (some 7))),
      (1, .synchronizeReturned), (0, .closed 0 0), (3, .queued (.call 2 false [])),
      (3, .queued (.call 1 false [.gate])), (1, .advanced 0), (1, .synchronizeCalled),
      (3, .queued (.destroy 4 (some 7))), (0, .opened 0 0)] := rfl
  have hs : started (batchRunning.history 0 .regular) =
      [.destroy 4 (some 7), .call 1 false [.gate]] := by
    rw [hh]
    rfl
  have hi : batchRunning.inHand 0 .regular = [.call 2 false []] := rfl
  have hq : batchRunning.queue 0 .regular = [.destroy 4 (some 8)] := rfl
  have hp : ¬PassPanicked batchRunning 0 .regular := by
    rintro (⟨p, hp⟩ | ⟨ticket, hu⟩)
    · have hg : (batchRunning.thread (batchRunning.drainThread 0 .regular)).status =
        .parked .gate := rfl
      rw [hg] at hp
      cases hp
    · rw [inHand_of_unwinding hu] at hi
      cases hi
  have hall := (callbacks_in_order reachable_batchRunning 0 .regular).2.1 hp
  rw [hs, hi, hq] at hall
  exact ⟨reachable_batchRunning, hp, hs, hall⟩

end Machine

end GracePeriod
