import GracePeriod.Proofs.Actions
import GracePeriod.Proofs.SectionMoves

namespace GracePeriod

def Mark.isGrace : Mark → Bool
  | .synchronizeCalled | .advanced _ | .synchronizeReturned | .synchronizePanicked => true
  | _ => false

/-- A kind of marks that actions of a scope do not make. -/
structure Scope.Spares (scope : Scope) (q : Mark → Bool) : Prop where
  marks : ∀ e k v, scope.marks e k v = true → v.isBarrier = false → q v = false
  reading : ∀ v, v.isReading = true → q v = false
  advanced : scope.waits = true → ∀ target, q (.advanced target) = false
  queued : ∀ c, q (.queued c) = false

theorem Scope.spares_isBarrier (scope : Scope) : scope.Spares Mark.isBarrier := by
  refine ⟨fun _ _ _ _ hb => hb, fun v hv => ?_, fun _ _ => rfl, fun _ => rfl⟩
  cases v <;> first | rfl | cases hv

theorem Scope.spares_isGrace {scope : Scope} (hs : scope.waits = false) :
    scope.Spares Mark.isGrace := by
  refine ⟨fun e k v hv _ => ?_, fun v hv => ?_, fun hw => ?_, fun _ => rfl⟩
  · cases v with
    | synchronizeCalled | synchronizeReturned | synchronizePanicked => exact hv.symm.trans hs
    | advanced => cases hv
    | _ => rfl
  · cases v <;> first | rfl | cases hv
  · exact nomatch hw.symm.trans hs

namespace Machine

variable {scope : Scope} {q : Mark → Bool} {m m' m'' : Machine} {t e : Nat} {k : Kind}

/-- Nothing of kind `q` has happened to the domain. -/
def Unmarked (q : Mark → Bool) (e : Nat) (k : Kind) (m m' : Machine) : Prop :=
  ∃ vs, m'.history e k = vs ++ m.history e k ∧ ∀ p ∈ vs, q p.2 = false

namespace Unmarked

theorem of_eq (h : m'.history e k = m.history e k) : Unmarked q e k m m' := ⟨[], h, nofun⟩

theorem trans (h : Unmarked q e k m m') (h' : Unmarked q e k m' m'') : Unmarked q e k m m'' := by
  obtain ⟨vs, hh, hv⟩ := h
  obtain ⟨vs', hh', hv'⟩ := h'
  refine ⟨vs' ++ vs, by rw [hh', hh, List.append_assoc], fun p hp => ?_⟩
  exact (List.mem_append.1 hp).elim (hv' p) (hv p)

theorem mark (m : Machine) (t e' : Nat) (k' : Kind) {v : Mark} (hv : q v = false) :
    Unmarked q e k m (m.mark t e' k' v) := by
  rw [Unmarked, history_mark]
  split
  · refine ⟨[(t, v)], rfl, fun p hp => ?_⟩
    rw [List.mem_singleton.1 hp]
    exact hv
  · exact ⟨[], rfl, nofun⟩

theorem notify (m : Machine) (d : Nat) : Unmarked q e k m (m.notify d) := by
  rw [notify_eq]
  exact .of_eq rfl

theorem inside (h : Inside t m m') (hq : ∀ v, v.isReading = true → q v = false) :
    Unmarked q e k m m' := by
  obtain ⟨vs, hh, hv⟩ := h.marks e k
  exact ⟨vs, hh, fun p hp => hq _ (hv p hp).2⟩

end Unmarked

theorem Action.unmarked (h : Action scope t m m') (hq : scope.Spares q) (e : Nat) (k : Kind) :
    Unmarked q e k m m' := by
  cases h with
  | mark e' k' v hv hb => exact .mark m t e' k' (hq.marks e' k' v hv hb)
  | advance e' k' hw => exact .mark (m.setDomain e' k' _) t e' k' (hq.advanced hw _)
  | emit v hv => exact .of_eq (history_emit hv e k)
  | enroll s =>
    rw [enroll_eq]
    exact .of_eq rfl
  | request d hd =>
    exact .notify (m.modifyDrain d fun x => { x with tickets := x.tickets.request }) d
  | close d => exact .notify (m.modifyDrain d fun x => { x with tickets := x.tickets.close }) d
  | complete d n hn =>
    exact .notify (m.modifyDrain d fun x => { x with tickets := x.tickets.complete n }) d
  | enqueue e' k' c hk =>
    let n := (m.modifyEngine e' fun x => x.setQueue k' (x.queue k' ++ [c])).mark t e' k' (.queued c)
    have hn : Unmarked q e k m n := .mark (m.modifyEngine e' _) t e' k' (hq.queued c)
    exact hn.trans (.notify (n.modifyDrain _ fun x => { x with tickets := x.tickets.request }) _)
  | openSection e' k' hs => exact .inside (Inside.openSection m t e' k') hq.reading
  | closeSection e' k' => exact .inside (Inside.closeSection m t e' k') hq.reading
  | _ => exact .of_eq rfl

theorem Actions.unmarked (h : Actions scope t m m') (hq : scope.Spares q) (e : Nat) (k : Kind) :
    Unmarked q e k m m' := by
  induction h with
  | refl => exact .of_eq rfl
  | tail _ hd ih => exact ih.trans (hd.unmarked hq e k)

end Machine

end GracePeriod
