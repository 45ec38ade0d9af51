import Mathlib.Data.List.Basic
import GracePeriod.Machine.Basic

namespace GracePeriod

/-- An outermost section, which holds a slot of the record it entered. -/
structure Section where
  thread : Nat
  worker : Nat
  slot : Nat
  deriving DecidableEq

abbrev History := List (Nat × Mark)

namespace Mark

/-- A mark that opens and closes nothing and leaves the epoch. -/
def isStill : Mark → Bool
  | .opened .. | .closed .. | .advanced _ => false
  | _ => true

def isReading : Mark → Bool
  | .opened .. | .closed .. | .lockPanicked => true
  | _ => false

/-- A mark of no consequence for sections, grace periods and callbacks. -/
def isNeutral : Mark → Bool
  | .skipped | .barrierCalled | .barrierReturned => true
  | _ => false

/-- A mark that comes with no change of a record, an epoch or a queue. -/
def isSilent : Mark → Bool
  | .opened .. | .closed .. | .lockPanicked | .advanced _ | .queued _ => false
  | _ => true

theorem isSilent_of_isReading {v : Mark} (h : v.isReading = true) : v.isSilent = false := by
  cases v <;> first | rfl | cases h

theorem isStill_of_isSilent {v : Mark} (h : v.isSilent = true) : v.isStill = true := by
  cases v <;> first | rfl | cases h

end Mark

namespace History

def sections : History → List Section
  | [] => []
  | (t, .opened w i) :: h => ⟨t, w, i⟩ :: sections h
  | (t, .closed w i) :: h => (sections h).erase ⟨t, w, i⟩
  | _ :: h => sections h

def sectionsOn (h : History) (w : Nat) : List Section := (sections h).filter (·.worker = w)

def advances : History → Nat
  | [] => 0
  | (_, .advanced _) :: h => advances h + 1
  | _ :: h => advances h

/-- How often the epoch has advanced since the record last went from no reader to one. -/
def age (w : Nat) : History → Nat
  | [] => 0
  | (_, .opened v _) :: h => if v = w ∧ sectionsOn h w = [] then 0 else age w h
  | (_, .advanced _) :: h => age w h + 1
  | _ :: h => age w h

/-- Whatever has happened, it was as `P` demands, in view of what had happened before. -/
def Each (P : Nat → Mark → History → Prop) (h : History) : Prop :=
  ∀ post t v past, h = post ++ (t, v) :: past → P t v past

variable {P : Nat → Mark → History → Prop} {vs h mid pre : History} {t w i : Nat} {v : Mark}
  {x : Section}

theorem each_nil : Each P [] := by
  intro post t v past heq
  cases post <;> cases heq

theorem Each.cons (h' : Each P h) (hp : P t v h) : Each P ((t, v) :: h) := by
  intro post u w past heq
  cases post with
  | nil =>
    obtain ⟨hq, rfl⟩ := List.cons.inj heq
    obtain ⟨rfl, rfl⟩ := Prod.mk.inj hq
    exact hp
  | cons p post => exact h' post u w past (List.cons.inj heq).2

theorem Each.append (h' : Each P h) (hv : ∀ p ∈ vs, ∀ past, P p.1 p.2 past) :
    Each P (vs ++ h) := by
  induction vs with
  | nil => exact h'
  | cons p vs ih =>
    exact (ih fun q hq => hv q (List.mem_cons_of_mem _ hq)).cons (hv p List.mem_cons_self _)

theorem sections_still (hv : v.isStill = true) : sections ((t, v) :: h) = sections h := by
  cases v <;> first | rfl | cases hv

theorem advances_still (hv : v.isStill = true) : advances ((t, v) :: h) = advances h := by
  cases v <;> first | rfl | cases hv

theorem age_still (hv : v.isStill = true) : age w ((t, v) :: h) = age w h := by
  cases v <;> first | rfl | cases hv

theorem mem_sectionsOn : x ∈ sectionsOn h w ↔ x ∈ sections h ∧ x.worker = w := by
  simp [sectionsOn]

theorem mem_sections_append (hx : x ∈ sections pre)
    (hc : (x.thread, Mark.closed x.worker x.slot) ∉ mid) : x ∈ sections (mid ++ pre) := by
  induction mid with
  | nil => exact hx
  | cons p mid ih =>
    obtain ⟨hp, hm⟩ := List.ne_and_not_mem_of_not_mem_cons hc
    have hx' := ih hm
    obtain ⟨t, v⟩ := p
    cases v with
    | opened w i => exact List.mem_cons_of_mem _ hx'
    | closed w i =>
      refine (List.mem_erase_of_ne ?_).2 hx'
      rintro rfl
      exact hp rfl
    | _ => exact hx'

theorem age_append (hx : x ∈ sections pre)
    (hc : (x.thread, Mark.closed x.worker x.slot) ∉ mid) :
    age x.worker (mid ++ pre) = age x.worker pre + advances mid := by
  induction mid with
  | nil => rfl
  | cons p mid ih =>
    obtain ⟨-, hm⟩ := List.ne_and_not_mem_of_not_mem_cons hc
    have ha := ih hm
    obtain ⟨t, v⟩ := p
    cases v with
    | opened w i =>
      have hne : sectionsOn (mid ++ pre) x.worker ≠ [] :=
        List.ne_nil_of_mem (mem_sectionsOn.2 ⟨mem_sections_append hx hm, rfl⟩)
      simpa [age, advances, hne] using ha
    | advanced target =>
      simp only [List.cons_append, age, advances, ha]
      omega
    | _ => exact ha

end History

def Event.isMark : Event → Bool
  | .mark .. => true
  | _ => false

def Event.markFor (e : Nat) (k : Kind) : Event → Option Mark
  | .mark e' k' v => if e' = e ∧ k' = k then some v else none
  | _ => none

theorem Event.markFor_eq_none {v : Event} (hv : v.isMark = false) (e : Nat) (k : Kind) :
    v.markFor e k = none := by
  cases v <;> first | rfl | cases hv

namespace Machine

def history (m : Machine) (e : Nat) (k : Kind) : History :=
  m.trace.filterMap fun p => (p.2.markFor e k).map (p.1, ·)

variable {m : Machine} {t e : Nat} {k : Kind} {v : Mark}

theorem history_emit {ev : Event} (hv : ev.isMark = false) (e : Nat) (k : Kind) :
    (m.emit t ev).history e k = m.history e k := by
  simp [history, emit, Event.markFor_eq_none hv]

@[simp] theorem history_mark_self :
    (m.mark t e k v).history e k = (t, v) :: m.history e k := by
  simp [history, mark, emit, Event.markFor]

theorem history_mark_ne {e' : Nat} {k' : Kind} (h : ¬(e' = e ∧ k' = k)) :
    (m.mark t e' k' v).history e k = m.history e k := by
  simp [history, mark, emit, Event.markFor, h]

end Machine

end GracePeriod
