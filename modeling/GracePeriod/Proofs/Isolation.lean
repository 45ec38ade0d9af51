import GracePeriod.Proofs.KeptDomains
import GracePeriod.Proofs.GraceRelease
import GracePeriod.Proofs.Rounds

namespace GracePeriod

open History Machine GraceWait

variable {n m : Machine} {t e : Nat} {k : Kind}

theorem Accounts.not_blocks_of_nil (h : Accounts n e k) (hs : sections (n.history e k) = [])
    (target : UInt32) (w : Nat) : ((n.domain e k).records.get w).word.blocks target = false := by
  have hw : sectionsOn (n.history e k) w = [] := by
    rw [sectionsOn, hs]
    rfl
  have hidle : ((n.domain e k).records.get w).word.active = 0 :=
    Decidable.not_not.1 fun ha => h.active_ne_zero.1 ha hw
  simp [ReaderWord.blocks, hidle]

namespace Machine

theorem Launched.domain {c : Snapshot} {target : UInt32} (h : Launched t e k c target n m) :
    m.domain e k = (n.domain e k).advance := by
  have he : m.engine e = (n.engine e).setDomain k ((n.engine e).domain k).advance := by
    rw [engine, h.engines, Table.get_modify, if_pos rfl]
    rfl
  rw [Machine.domain, he]
  exact PerKind.get_set_self ..

/-- A call of thread `t` from `n` is over in `m`, in the same turn, and the epoch has advanced once. The
caller was bound to its own worker and brought back to it; it has made no other calls, so it has neither
parked nor moved. -/
structure Immediate (t e : Nat) (k : Kind) (n m : Machine) : Prop where
  turn : m.turn = some t
  stack : (m.thread t).stack = (n.thread t).stack
  control : (m.thread t).control = .back (.ok .unit)
  epoch : (m.domain e k).epoch = (n.domain e k).epoch + 1
  called : m.called t = (if (n.engine e).access.recorded then (n.graceWait t e k).snapshot.calls ++
    [.bind (n.view t (n.engine e).access.scheduler).worker, .setPinDepth 0, .unbind] else []) ++
      n.called t
  view : BroughtBack (n.view t (n.engine e).access.scheduler)
    (m.view t (n.engine e).access.scheduler) none

theorem blocker?_startSynchronize (hn : Visited n) (hs : n.skips e = false)
    (h0 : n.readDepth t e k = 0) (hp : ∀ u, (u, Mark.lockPanicked) ∉ n.history e k)
    (hnone : sections (n.history e k) = []) :
    (n.graceWait t e k).blocker? (n.startSynchronize t e k) = none := by
  obtain ⟨i, x, hl, -⟩ := startSynchronize_stands hn hs h0
  have hacc := hn.accounts (noneStranded_of_not_mem hp)
  refine firstBlocker?_eq_none fun w => ?_
  show ((domain _ e k).records.get w).word.blocks _ = false
  rw [hl.domain]
  exact hacc.not_blocks_of_nil hnone _ w

theorem startSynchronize_immediate {d : Nat} (hn : Visited n) (ht : n.turn = some t)
    (hr : Reachable (n.startSynchronize t e k)) (hd : (n.startSynchronize t e k).Serves d e k)
    (hs : n.skips e = false) (h0 : n.readDepth t e k = 0)
    (hb : (n.graceWait t e k).blocker? (n.startSynchronize t e k) = none) :
    Immediate t e k n ((n.startSynchronize t e k).run 1) := by
  let v := n.graceWait t e k
  let m := n.startSynchronize t e k
  obtain ⟨i, hi, ha, hcalled⟩ := startSynchronize_stillWaits hn hr hd hs h0
  obtain ⟨j, x, hl, -⟩ := startSynchronize_stands hn hs h0
  have hturn : m.turn = some t := hl.turn.trans ht
  rw [run_turn hturn]
  cases GraceWait.lookResult (v := v) hl.stack hl.control ha.access ha.worker_lt with
  | lost hlost =>
    obtain ⟨w, hw, -⟩ := hlost
    cases hb.symm.trans hw
  | stayed w vs hw | moved w hw => cases hb.symm.trans hw
  | ended _ he ht' =>
    have hgoal : v.goal [m] = v.goal [] := by
      rw [goal_cons, movesTo?_of_none hb]
      rfl
    obtain ⟨f, -, hans⟩ := he.answers
    refine ⟨ht'.trans hturn, he.stack, he.control, ?_, ?_, ?_⟩
    · have hdom : (m.advance t).domain e k = m.domain e k :=
        congrArg (fun es : Table Engine => (es.get e).domain k) hans.engines
      exact congrArg Domain.epoch (hdom.trans hl.domain)
    · have hcall : (m.advance t).called t =
          (if (n.engine e).access.recorded then v.snapshot.calls ++ [] else []) ++ m.called t := hans.called
      refine hcall.trans ?_
      rw [hcalled]
      split
      · rw [List.append_nil, ← List.append_assoc]
        rfl
      · rfl
    · have hback := broughtBack_of_callOver hn hi (he.callOver ha hgoal)
      rwa [List.findSome?_singleton, movesTo?_of_none hb] at hback

/-- A step is about one domain at most and leaves every other as it is. A call of `synchronize` for
which no section is open in its domain, where no lock has panicked, returns in the turn of its caller;
there may be sections of the other kind or in other engines. -/
theorem domains_isolated {d e : Nat} {k : Kind} :
    (∀ m t, Reachable m → m.BuildsIdle → m.turn = some t → m.Serves d e k →
      m.subject? t ≠ some (e, k) → Untouched d e k m (m.advance t)) ∧
    ∀ n t, Visited n → n.turn = some t → Reachable (n.startSynchronize t e k) →
      (n.startSynchronize t e k).Serves d e k → n.skips e = false → n.readDepth t e k = 0 →
      (∀ u, (u, Mark.lockPanicked) ∉ n.history e k) → sections (n.history e k) = [] →
      (n.graceWait t e k).blocker? (n.startSynchronize t e k) = none ∧
        Immediate t e k n ((n.startSynchronize t e k).run 1) := by
  refine ⟨fun m t hr hb ht hd hs => hr.untouched hb ht hd hs, fun n t hn ht hr hd hs h0 hp hnone => ?_⟩
  have hb := blocker?_startSynchronize hn hs h0 hp hnone
  exact ⟨hb, startSynchronize_immediate hn ht hr hd hs h0 hb⟩

/-- Two engines on one scheduler. A thread is inside of the sleepable kind in the first one, another one
in the second, and the first thread waits for regular sections of its own engine. -/
def sharedReaders : Machine :=
  let m := (Machine.perform { schedulers := ⟨[{ workers := 2 }]⟩, named := 1 }
    (.act 0 (.build 0 { scheduler := some 0 }))).1
  let m := (m.perform (.act 0 (.build 1 { scheduler := some 0 }))).1
  let m := (m.perform (.act 0 (.handle 0 (.readLock .sleepable)))).1
  let m := (m.perform (.act 1 (.handle 1 (.readLock .regular)))).1
  (m.begin (.act 0 (.handle 0 (.synchronize .regular)))).1.run 1

def sharedCaller : Machine := ((sharedReaders.push 0 .attempt).retain 0).push 0 (.release 0)

theorem reachable_sharedReaders : Reachable sharedReaders := by
  have h := (@Reachable.new [2] 1 _ rfl).perform (.act 0 (.build 0 { scheduler := some 0 }))
    (by decide +kernel)
  have h := h.perform (.act 0 (.build 1 { scheduler := some 0 })) (by decide +kernel)
  have h := h.perform (.act 0 (.handle 0 (.readLock .sleepable))) (by decide +kernel)
  have h := h.perform (.act 1 (.handle 1 (.readLock .regular))) (by decide +kernel)
  exact (h.begin _).run (by decide +kernel)

theorem sharedReaders_isolated :
    (sharedReaders.readDepth 0 0 .sleepable = 1 ∧ Untouched 1 0 .sleepable sharedReaders
      (sharedReaders.advance 0)) ∧
      (sharedReaders.readDepth 5 1 .regular = 1 ∧ Untouched 2 1 .regular sharedReaders
        (sharedReaders.advance 0)) ∧
      Immediate 0 0 .regular sharedCaller ((sharedCaller.startSynchronize 0 0 .regular).run 1) := by
  have hb : sharedReaders.BuildsIdle := buildsIdle_of_buildsPlain (by decide +kernel)
  have hr : Reachable (sharedCaller.startSynchronize 0 0 .regular) := by
    have h : Reachable (sharedReaders.run 1) := reachable_sharedReaders.run (by decide +kernel)
    exact h
  have hempty : sharedCaller.history 0 .regular = [] := rfl
  refine ⟨⟨by decide +kernel, ?_⟩, ⟨by decide +kernel, ?_⟩, ?_⟩
  · exact domains_isolated.1 _ _ reachable_sharedReaders hb rfl rfl (by decide +kernel)
  · exact domains_isolated.1 _ _ reachable_sharedReaders hb rfl rfl (by decide +kernel)
  · refine (domains_isolated (d := 0).2 sharedCaller 0 (reachable_sharedReaders.visited.call rfl 0) rfl hr rfl
      rfl rfl ?_ ?_).2
    · rw [hempty]
      exact fun u => List.not_mem_nil
    · rw [hempty]
      rfl

end Machine

end GracePeriod
