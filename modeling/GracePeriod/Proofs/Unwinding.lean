import GracePeriod.Proofs.Parts

namespace GracePeriod.Machine

variable {m : Machine} {t : Nat} {f : Frame} {o : Outcome} {p q : Payload} {base fs : List Frame}

/-- Only handles are given up, and the frame below gets a panic. -/
def Unwinds : List Frame → Outcome → Prop
  | [], o => ∃ p, o = .error p
  | .release _ :: fs, o => Unwinds fs o
  | .shutdown _ saved :: fs, _ => Unwinds fs saved
  | .joined _ _ saved :: fs, _ => Unwinds fs saved
  | _, _ => False

def Unwinding (m : Machine) (t : Nat) (base : List Frame) : Prop :=
  ∃ fs o, (m.thread t).stack = fs ++ base ∧ (m.thread t).control = .back o ∧ Unwinds fs o

def Carries (p : Payload) : List Frame → Outcome → Prop
  | [], o => o = .error p
  | .release _ :: fs, o => Carries p fs o
  | .shutdown _ saved :: fs, _ => Carries p fs saved
  | .joined _ _ saved :: fs, _ => Carries p fs saved
  | _, _ => False

def Failing (p : Payload) (m : Machine) (t : Nat) (base : List Frame) : Prop :=
  ∃ fs o, (m.thread t).stack = fs ++ base ∧ (m.thread t).control = .back o ∧ Carries p fs o

theorem unwinds_iff : Unwinds fs o ↔ ∃ p, Carries p fs o := by
  induction fs generalizing o with
  | nil => exact .rfl
  | cons f fs ih =>
    cases f with
    | release e => exact ih
    | shutdown ds saved | joined d ds saved => exact ih
    | _ => exact ⟨False.elim, fun ⟨_, h⟩ => h⟩

theorem unwinding_iff : Unwinding m t base ↔ ∃ p, Failing p m t base := by
  constructor
  · rintro ⟨fs, o, hs, hc, hu⟩
    obtain ⟨p, hp⟩ := unwinds_iff.1 hu
    exact ⟨p, fs, o, hs, hc, hp⟩
  · rintro ⟨p, fs, o, hs, hc, hp⟩
    exact ⟨fs, o, hs, hc, unwinds_iff.2 ⟨p, hp⟩⟩

theorem Unwinds.error (h : Unwinds fs o) (p : Payload) : Unwinds fs (.error p) := by
  induction fs with
  | nil => exact ⟨p, rfl⟩
  | cons f fs ih =>
    cases f with
    | release e => exact ih h
    | shutdown ds saved | joined d ds saved => exact h
    | _ => exact h.elim

/-- One panic comes out. -/
theorem Carries.unique (h : Carries p fs o) (h' : Carries q fs o) : p = q := by
  induction fs generalizing o with
  | nil => exact Except.error.inj (h.symm.trans h')
  | cons f fs ih =>
    cases f with
    | release e => exact ih h h'
    | shutdown ds saved | joined d ds saved => exact ih h h'
    | _ => exact h.elim

theorem carries_of_releases (hr : ∀ f ∈ fs, ∃ e, f = .release e) (p : Payload) :
    Carries p fs (.error p) := by
  induction fs with
  | nil => exact rfl
  | cons f fs ih =>
    obtain ⟨e, rfl⟩ := hr f List.mem_cons_self
    exact ih fun g hg => hr g (List.mem_cons_of_mem _ hg)

theorem stack_pushReleases (m : Machine) (t e : Nat) (cs : List Callback) :
    ∃ fs, ((cs.foldl (fun m _ => m.push t (.release e)) m).thread t).stack =
      fs ++ (m.thread t).stack ∧ ∀ f ∈ fs, ∃ e, f = .release e := by
  induction cs generalizing m with
  | nil => exact ⟨[], rfl, nofun⟩
  | cons c cs ih =>
    obtain ⟨fs, hs, hr⟩ := ih (m.push t (.release e))
    refine ⟨fs ++ [.release e], ?_, fun f hf => ?_⟩
    · refine hs.trans ?_
      rw [stack_push, List.append_assoc]
      rfl
    · rcases List.mem_append.1 hf with hf | hf
      · exact hr f hf
      · exact ⟨e, List.mem_singleton.1 hf⟩

theorem discardBatch_failing (hs : (m.thread t).stack = base) (e : Nat) (batch : List Callback)
    (p : Payload) : Failing p (m.discardBatch t e batch (.error p)) t base := by
  obtain ⟨fs, hfs, hr⟩ := stack_pushReleases m t e (batch.filter Callback.holdsHandle)
  exact ⟨fs, .error p, (stack_back ..).trans (by rw [hfs, hs]), control_back .., carries_of_releases hr p⟩

theorem push_failing (hs : (m.thread t).stack = fs ++ base) (hp : Carries p (f :: fs) (.ok .unit)) :
    Failing p ((m.push t f).done t) t base := by
  refine ⟨f :: fs, _, (stack_back ..).trans ?_, control_back .., hp⟩
  rw [stack_push, hs]
  rfl

theorem shutdown_failing (hs : (m.thread t).stack = fs ++ base) (hp : Carries p fs o)
    (ds : List Nat) : Failing p (m.shutdown t ds o) t base := by
  cases ds with
  | nil => exact ⟨fs, o, (stack_back ..).trans hs, control_back .., hp⟩
  | cons d ds =>
    have hn : (((m.modifyDrain d fun x => { x with tickets := x.tickets.close }).notify d).thread
        t).stack = fs ++ base := (part_notify Thread.stack (fun _ _ => rfl) _ d t).trans hs
    unfold shutdown
    dsimp only
    generalize (m.modifyDrain d fun x => { x with tickets := x.tickets.close }).notify d = n at hn ⊢
    split
    · exact push_failing hn hp
    · obtain ⟨fs', o', hs', hc', hp'⟩ := push_failing (f := .joined d ds o) hn hp
      exact ⟨fs', o', (part_join Thread.stack (fun _ _ => rfl) _ t _ t).trans hs',
        (part_join Thread.control (fun _ _ => rfl) _ t _ t).trans hc', hp'⟩

theorem resume_failing (hs : (m.thread t).stack = fs ++ base) (hp : Carries p (f :: fs) o) :
    Failing p (m.resume t o f) t base := by
  cases f with
  | release e =>
    have hp' : Carries p fs o := hp
    unfold resume releaseHandle
    dsimp only
    split
    · refine shutdown_failing ?_ hp' _
      exact hs
    · exact ⟨fs, o, (stack_back ..).trans hs, control_back .., hp'⟩
  | shutdown ds saved =>
    have hp' : Carries p fs saved := hp
    exact shutdown_failing hs hp' ds
  | joined d ds saved =>
    have hq (n : Machine) (hn : (n.thread t).stack = fs ++ base) :
        Failing p ((n.push t (.shutdown ds saved)).done t) t base := push_failing hn hp
    unfold resume resumeJoined
    dsimp only
    split <;> exact hq _ hs
  | _ => exact hp.elim

theorem discardBatch_unwinding (hs : (m.thread t).stack = base) (e : Nat) (batch : List Callback)
    (p : Payload) : Unwinding (m.discardBatch t e batch (.error p)) t base :=
  unwinding_iff.2 ⟨p, discardBatch_failing hs e batch p⟩

theorem resume_unwinding (hs : (m.thread t).stack = fs ++ base) (hu : Unwinds (f :: fs) o) :
    Unwinding (m.resume t o f) t base := by
  obtain ⟨p, hp⟩ := unwinds_iff.1 hu
  exact unwinding_iff.2 ⟨p, resume_failing hs hp⟩

end GracePeriod.Machine
