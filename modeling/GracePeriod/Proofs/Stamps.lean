namespace GracePeriod

/-- A moment in the history of a drain task. -/
inductive Stamp
  | requested
  | started (ticket : Nat)
  /-- Normally, not with a panic. -/
  | returned (ticket : Nat)
  deriving DecidableEq

namespace Stamp

def isRequest : Stamp → Bool
  | requested => true
  | _ => false

def ticket? : Stamp → Option Nat
  | started n => some n
  | _ => none

end Stamp

def requests (log : List Stamp) : Nat := log.countP Stamp.isRequest

def tickets (log : List Stamp) : List Nat := log.filterMap Stamp.ticket?

section Logs

variable {log late mid early : List Stamp} {r c n : Nat} {s : Option Nat}

theorem requests_append (a b : List Stamp) : requests (a ++ b) = requests a + requests b :=
  List.countP_append

theorem requests_cons (x : Stamp) (log : List Stamp) :
    requests (x :: log) = requests log + x.isRequest.toNat := by
  rw [requests, List.countP_cons, requests]
  cases x.isRequest <;> rfl

theorem tickets_append (a b : List Stamp) : tickets (a ++ b) = tickets a ++ tickets b :=
  List.filterMap_append

@[simp] theorem tickets_requested (i : Nat) (log : List Stamp) :
    tickets (List.replicate i .requested ++ log) = tickets log := by
  rw [tickets_append, tickets, List.filterMap_replicate_of_none rfl, List.nil_append]

@[simp] theorem tickets_started (n : Nat) (log : List Stamp) :
    tickets (.started n :: log) = n :: tickets log := rfl

@[simp] theorem tickets_returned (s : Option Nat) (log : List Stamp) :
    tickets (s.toList.map .returned ++ log) = tickets log := by
  cases s <;> rfl

/-- A regular log, the newest stamp first, with the number of requests, the ticket up to which they
have been served, and the ticket of the pass that has started last unless it has returned. -/
inductive Book : List Stamp → Nat → Nat → Option Nat → Prop
  | nil : Book [] 0 0 none
  | request {log : List Stamp} {r c : Nat} {s : Option Nat} (h : Book log r c s) :
      Book (.requested :: log) (r + 1) c s
  | start {log : List Stamp} {r c : Nat} (h : Book log r c none) (hr : r ≠ c) :
      Book (.started r :: log) r c (some r)
  | rest {log : List Stamp} {r c : Nat} (h : Book log r c (some r)) :
      Book (.returned r :: log) r r none
  /-- What has been requested during a pass is served by the next one, which starts at once. -/
  | again {log : List Stamp} {r c n : Nat} (h : Book log r c (some n)) (hr : r ≠ n) :
      Book (.started r :: .returned n :: log) r n (some r)

namespace Book

theorem requests_add (h : Book log r c s) (b : Bool) :
    Book (List.replicate b.toNat .requested ++ log) (r + b.toNat) c s := by
  cases b with
  | true => exact h.request
  | false => exact h

theorem settles (h : Book log r c s) (hr : r = s.getD c) :
    Book (s.toList.map .returned ++ log) r (s.getD c) none := by
  cases s with
  | none => exact h
  | some n =>
    obtain rfl : r = n := hr
    exact h.rest

theorem serves (h : Book log r c s) (hr : r ≠ s.getD c) :
    Book (.started r :: (s.toList.map .returned ++ log)) r (s.getD c) (some r) := by
  cases s with
  | none => exact h.start hr
  | some n => exact h.again hr

theorem requests_eq (h : Book log r c s) : requests log = r := by
  induction h with
  | nil => rfl
  | request _ ih | start _ _ ih | rest _ ih | again _ _ ih => simp [requests_cons, Stamp.isRequest, ih]

theorem bounds (h : Book log r c s) : c ≤ r ∧ ∀ n, s = some n → c < n ∧ n ≤ r := by
  induction h with
  | nil => exact ⟨Nat.le_refl _, nofun⟩
  | request _ ih => exact ⟨by omega, fun n hn => ⟨(ih.2 n hn).1, Nat.le_succ_of_le (ih.2 n hn).2⟩⟩
  | start _ hr ih => exact ⟨ih.1, fun n hn => by cases hn; omega⟩
  | rest _ ih => exact ⟨Nat.le_refl _, nofun⟩
  | @again _ r c n _ hr ih =>
    have := ih.2 n rfl
    exact ⟨this.2, fun n' hn => by cases hn; omega⟩

theorem ticket_le (h : Book log r c s) : ∀ x ∈ tickets log, x ≤ s.getD c := by
  induction h with
  | nil => exact nofun
  | request _ ih => exact ih
  | @start log r c h hr ih =>
    have := h.bounds.1
    intro x hx
    rcases List.mem_cons.1 hx with rfl | hx
    · exact Nat.le_refl _
    · exact Nat.le_trans (ih x hx) this
  | rest _ ih => exact ih
  | @again log r c n h hr ih =>
    have := h.bounds.2 n rfl
    intro x hx
    rcases List.mem_cons.1 hx with rfl | hx
    · exact Nat.le_refl _
    · exact Nat.le_trans (ih x hx) this.2

theorem increasing (h : Book log r c s) : (tickets log).Pairwise (· > ·) := by
  induction h with
  | nil => exact .nil
  | request _ ih | rest _ ih => exact ih
  | @start log r c h hr ih =>
    have := h.bounds.1
    exact .cons (fun x hx => Nat.lt_of_le_of_lt (h.ticket_le x hx) (by dsimp only [Option.getD]; omega)) ih
  | @again log r c n h hr ih =>
    have := h.bounds.2 n rfl
    exact .cons (fun x hx => Nat.lt_of_le_of_lt (h.ticket_le x hx) (by dsimp only [Option.getD]; omega)) ih

theorem length_le (h : Book log r c s) : (tickets log).length ≤ s.getD c := by
  induction h with
  | nil => exact Nat.le_refl _
  | request _ ih | rest _ ih => exact ih
  | @start log r c h hr ih => exact Nat.lt_of_le_of_lt ih (Nat.lt_of_le_of_ne h.bounds.1 (Ne.symm hr))
  | @again log r c n h hr ih =>
    exact Nat.lt_of_le_of_lt ih (Nat.lt_of_le_of_ne (h.bounds.2 n rfl).2 (Ne.symm hr))

theorem started_eq (h : Book log r c s) (hl : log = late ++ .started n :: early) :
    n = requests early := by
  induction h generalizing late with
  | nil => simp at hl
  | request h ih | rest h ih =>
    cases late with
    | nil => cases hl
    | cons x late => exact ih (List.cons.inj hl).2
  | start h hr ih =>
    cases late with
    | nil =>
      cases hl
      exact h.requests_eq.symm
    | cons x late => exact ih (List.cons.inj hl).2
  | again h hr ih =>
    rcases late with _ | ⟨x, _ | ⟨y, late⟩⟩
    · cases hl
      rw [requests_cons, h.requests_eq]
      rfl
    · cases hl
    · exact ih (List.cons.inj (List.cons.inj hl).2).2

theorem last_started (h : Book log r c (some n)) :
    ∃ mid early, log = mid ++ .started n :: early ∧ tickets mid = [] := by
  generalize hs : some n = s at h
  induction h with
  | nil | rest => cases hs
  | @request log r c s h ih =>
    obtain ⟨mid, early, rfl, ht⟩ := ih hs
    exact ⟨.requested :: mid, early, rfl, ht⟩
  | start | again =>
    cases hs
    exact ⟨[], _, rfl, rfl⟩

/-- When a pass returned, the log was a regular one, and what follows the return is known: with
something new, it is the next pass. -/
theorem at_return (h : Book log r c s) (hl : log = late ++ .returned n :: early) :
    ∃ r' c', Book early r' c' (some n) ∧ n ≤ c ∧
      (r' ≠ n → ∃ late', late = late' ++ [.started r']) := by
  have hmore {l : List Stamp} {c₁ c₂ : Nat} (x : Stamp) (hc : c₁ ≤ c₂)
      (h : ∃ r' c', Book early r' c' (some n) ∧ n ≤ c₁ ∧
        (r' ≠ n → ∃ late', l = late' ++ [.started r'])) :
      ∃ r' c', Book early r' c' (some n) ∧ n ≤ c₂ ∧
        (r' ≠ n → ∃ late', x :: l = late' ++ [.started r']) := by
    obtain ⟨r', c', hb, hn, hl⟩ := h
    refine ⟨r', c', hb, Nat.le_trans hn hc, fun hne => ?_⟩
    obtain ⟨late', rfl⟩ := hl hne
    exact ⟨x :: late', rfl⟩
  induction h generalizing late with
  | nil => simp at hl
  | request _ ih | start _ _ ih =>
    cases late with
    | nil => cases hl
    | cons x late => exact hmore x (Nat.le_refl _) (ih (List.cons.inj hl).2)
  | rest h ih =>
    cases late with
    | nil =>
      cases hl
      exact ⟨_, _, h, Nat.le_refl _, fun hne => absurd rfl hne⟩
    | cons x late => exact hmore x h.bounds.1 (ih (List.cons.inj hl).2)
  | again h hr ih =>
    rcases late with _ | ⟨x, _ | ⟨y, late⟩⟩
    · cases hl
    · cases hl
      exact ⟨_, _, h, Nat.le_refl _, fun _ => ⟨[], rfl⟩⟩
    · have hle := Nat.le_of_lt (h.bounds.2 _ rfl).1
      exact hmore x hle (hmore y (Nat.le_refl _) (ih (List.cons.inj (List.cons.inj hl).2).2))

theorem returned_mem (h : Book log r c s) : c = 0 ∨ .returned c ∈ log := by
  induction h with
  | nil => exact .inl rfl
  | request _ ih | start _ _ ih => exact ih.imp_right (List.mem_cons_of_mem _)
  | rest => exact .inr List.mem_cons_self
  | again => exact .inr (List.mem_cons_of_mem _ List.mem_cons_self)

theorem none_started (h : Book log r c s) (hl : log = late ++ .started n :: early)
    (hr : requests late = 0) : tickets late = [] := by
  refine List.eq_nil_iff_forall_not_mem.2 fun x hx => ?_
  obtain ⟨y, hy, hyx⟩ := List.mem_filterMap.1 hx
  cases y with
  | started x' =>
    obtain rfl : x' = x := Option.some.inj hyx
    obtain ⟨a, b, rfl⟩ := List.append_of_mem hy
    have hn : n = requests early := h.started_eq hl
    have hsplit : log = a ++ .started x' :: (b ++ .started n :: early) := by
      rw [hl, List.append_assoc]
      rfl
    have hx' : x' = requests (b ++ .started n :: early) := h.started_eq hsplit
    have hlt : x' > n := by
      have hp := h.increasing
      rw [hl, tickets_append, List.pairwise_append] at hp
      exact hp.2.2 x' hx n (by simp [tickets, Stamp.ticket?])
    rw [requests_append, requests_cons] at hr hx'
    simp only [Stamp.isRequest, Bool.toNat_false] at hx'
    omega
  | requested | returned => cases hyx

/-- However often it is requested during a pass that returns, the next pass serves all of it, and no
other pass starts unless more is requested. -/
theorem coalesced (h : Book log r c s)
    (hl : log = late ++ .returned n :: (mid ++ .started n :: early)) (hm : 0 < requests mid) :
    ∃ late', late = late' ++ [.started (requests mid + requests early)] ∧
      (requests late' = 0 → tickets late' = []) := by
  obtain ⟨r', c', hb, -, hn⟩ := h.at_return hl
  have hstart := hb.started_eq rfl
  have hr : requests mid + requests early = r' := by
    rw [← hb.requests_eq, requests_append, requests_cons]
    rfl
  obtain ⟨late', rfl⟩ := hn (by omega)
  have hlast : log = late' ++ .started r' :: .returned n :: (mid ++ .started n :: early) := by
    rw [hl, List.append_assoc]
    rfl
  exact ⟨late', by rw [hr], h.none_started hlast⟩

end Book

/-- Some pass that started after all the requests of `log` has returned normally by now, or there are
none. What has happened since is in `later`. -/
def CaughtUp (log later : List Stamp) : Prop :=
  requests log = 0 ∨ ∃ n late mid early,
    later ++ log = late ++ .returned n :: (mid ++ .started n :: early) ∧
      requests log ≤ requests early

theorem Book.caughtUp_iff {later : List Stamp} (h : Book (later ++ log) r c s) :
    CaughtUp log later ↔ requests log ≤ c := by
  constructor
  · rintro (h0 | ⟨n, late, mid, early, hl, hle⟩)
    · omega
    · obtain ⟨r', c', hb, hc, -⟩ := h.at_return hl
      have := hb.started_eq rfl
      omega
  · intro hle
    rcases h.returned_mem with hc | hc
    · exact .inl (by omega)
    · obtain ⟨late, early', hl⟩ := List.append_of_mem hc
      obtain ⟨r', c', hb, -, -⟩ := h.at_return hl
      obtain ⟨mid, early, rfl, -⟩ := hb.last_started
      have := hb.started_eq rfl
      exact .inr ⟨c, late, mid, early, hl, by omega⟩

end Logs

end GracePeriod
