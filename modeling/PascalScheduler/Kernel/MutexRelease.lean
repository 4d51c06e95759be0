import PascalScheduler.Kernel.Mutex

/-!
Release of the mutex. `k_mutex_unlock` clears the variable and wakes nobody:
the hand-over is left to the next scheduling decision, whichever it is. So what
is proved is about every decision: none leaves a waiter behind a free mutex,
and none takes a task off the mutex but the one it hands the mutex to.
-/

namespace PascalScheduler

open Transition

/-- The actions that make a scheduling decision. -/
def Decides (s : Kernel) : Action → Prop
  | .tick | .yield | .sleep _ => True
  | .mutexLock => s.mutex ≠ 0
  | .mutexUnlock | .signalWait _ | .signalRaise _ | .register _ => False

def Kernel.waitsMutex (s : Kernel) (i : Nat) : Prop :=
  s.registered i ∧ (s.tasks i).state = taskMutexBlocked

/-- The waiters a decision finds: those of before, and the task whose contended
lock asks for the decision. -/
def Waiting (s : Kernel) (a : Action) (i : Nat) : Prop :=
  s.waitsMutex i ∨ (a = .mutexLock ∧ i = s.currentTid)

/-- What a decision may do with the mutex and its waiters. -/
inductive HandsOver (s : Kernel) (a : Action) (t : Kernel) : Prop where
  | nobody (mutex : t.mutex = s.mutex) (left : ∀ j, t.waitsMutex j ↔ Waiting s a j)
  | waiter (i : Nat) (waited : s.waitsMutex i) (free : s.mutex = 0) (taken : t.mutex = 1)
      (left : ∀ j, t.waitsMutex j ↔ Waiting s a j ∧ j ≠ i)

variable {board : Board} {s o t : Kernel} {a : Action}

theorem Decides.leaves (h : Decides s a) : ∃ o, leave s a = some o := by
  cases a with
  | tick | yield | sleep => exact ⟨_, rfl⟩
  | mutexLock =>
      refine ⟨leaveLock s, ?_⟩
      rw [leave, if_neg h]
  | mutexUnlock | signalWait | signalRaise | register => exact h.elim

/-- The running task is on the mutex at the decision exactly when it locked. -/
theorem leave_current_waits (hleave : leave s a = some o) :
    (o.tasks s.currentTid).state = taskMutexBlocked ↔ a = .mutexLock := by
  constructor
  · intro hblocked
    exact (leave_mutexBlocked hleave hblocked).1
  · rintro rfl
    rw [(leave_leaves hleave).entry]
    rfl

theorem leave_waits (hs : Wellformed s) (henabled : Enabled s a)
    (hleave : leave s a = some o) (i : Nat) : o.waitsMutex i ↔ Waiting s a i := by
  have hleft := leave_leaves hleave
  by_cases hcur : i = s.currentTid
  · have hnot : ¬ s.waitsMutex i := by
      rintro ⟨_, hblocked⟩
      rw [hcur, hs.running] at hblocked
      exact running_ne_mutexBlocked hblocked
    constructor
    · rintro ⟨_, hblocked⟩
      rw [hcur] at hblocked
      exact .inr ⟨(leave_current_waits hleave).mp hblocked, hcur⟩
    · rintro (hwaits | ⟨rfl, _⟩)
      · exact absurd hwaits hnot
      · refine ⟨(hleft.registered_iff i).mpr ?_, ?_⟩
        · rw [hcur]
          exact ⟨Nat.pos_of_ne_zero henabled.1, hs.current_le⟩
        · rw [hcur]
          exact (leave_current_waits hleave).mpr rfl
  · simp only [Kernel.waitsMutex, hleft.registered_iff, hleft.other i hcur, Waiting, hcur,
      and_false, or_false]

/-- A decision grants the mutex to somebody whenever it is free and wanted. -/
theorem granted_of_waits (hparked : ∀ i, o.registered i → Parked (o.tasks i).state)
    {i : Nat} (hfree : o.mutex = 0) (hwaits : o.waitsMutex i) : ∃ j, o.granted j := by
  have hawaits : o.awaitsMutex i := (awaitsMutex_iff (hparked i hwaits.1)).mpr hwaits
  obtain ⟨j, _, hj⟩ := Kernel.exists_granted hfree hawaits
  exact ⟨j, hj⟩

/-- The decision takes the granted waiter off the mutex, and nobody else. -/
theorem decision_waits (hdec : Decision o t) (i : Nat) :
    t.waitsMutex i ↔ o.waitsMutex i ∧ ¬ o.granted i := by
  constructor
  · rintro ⟨hi, hstate⟩
    have hnot : ¬ o.readied i := fun hr => decision_granted_awake hdec hr hstate
    refine ⟨⟨(hdec.registered_iff i).mp hi, ?_⟩, fun hg => hnot (.inr hg)⟩
    by_contra hawake
    exact decision_awake hdec hawake hstate
  · rintro ⟨⟨hi, hstate⟩, hng⟩
    have hnot : ¬ o.readied i := by
      rintro (hw | hg)
      · exact wakes_not_mutexBlocked hw hstate
      · exact hng hg
    have hcur : i ≠ t.currentTid := by
      intro hcur
      -- a dispatched task was READY after the wake-ups, which a waiter is not
      have hpos : t.currentTid ≠ 0 := by
        have := hi.1
        omega
      rcases hdec.picks.ready_of_pos hpos with hr | hready
      · exact hnot (hcur ▸ hr)
      · rw [← hcur, Kernel.isReady, hstate] at hready
        exact absurd hready (by decide)
    refine ⟨(hdec.registered_iff i).mpr hi, ?_⟩
    rw [hdec.kept i hcur hnot]
    exact hstate

theorem decision_no_waiter_behind
    (hparked : ∀ i, o.registered i → Parked (o.tasks i).state) (hdec : Decision o t)
    (hfree : t.mutex = 0) (i : Nat) : ¬ t.waitsMutex i := by
  intro hwaits
  have hbefore := ((decision_waits hdec i).mp hwaits).1
  have hnone : ∀ j, ¬ o.granted j := by
    intro j hj
    exact Kernel.mutex_taken (hdec.mutexGranted j hj) hfree
  have hmutex : o.mutex = 0 := (hdec.mutexKept hnone).symm.trans hfree
  obtain ⟨j, hj⟩ := granted_of_waits hparked hmutex hbefore
  exact hnone j hj

theorem decision_handsOver (hs : Wellformed s) (henabled : Enabled s a)
    (hleave : leave s a = some o) (hdec : Decision o t) : HandsOver s a t := by
  have hleft := leave_leaves hleave
  have hparked : ∀ i, o.registered i → Parked (o.tasks i).state :=
    fun i hi => leave_parked hs hleave hi
  have hwaits : ∀ j, t.waitsMutex j ↔ Waiting s a j ∧ ¬ o.granted j := by
    intro j
    rw [decision_waits hdec, leave_waits hs henabled hleave]
  by_cases hg : ∃ i, o.granted i
  · obtain ⟨i, hi⟩ := hg
    have hfree : s.mutex = 0 := hleft.mutex ▸ hi.1
    have hwaited : s.waitsMutex i := by
      have hreg := hi.2.1.1
      have hbefore := (awaitsMutex_iff (hparked i hreg)).mp hi.2.1
      rcases (leave_waits hs henabled hleave i).mp hbefore with hw | ⟨rfl, _⟩
      · exact hw
      · -- an uncontended lock makes no decision
        rw [leave, if_pos hfree] at hleave
        cases hleave
    refine .waiter i hwaited hfree (hdec.mutexGranted i hi) ?_
    intro j
    rw [hwaits]
    have hiff : o.granted j ↔ j = i :=
      ⟨fun hj => Kernel.granted_unique hj hi, fun hj => hj ▸ hi⟩
    rw [hiff]
  · have hnone : ∀ j, ¬ o.granted j := fun j hj => hg ⟨j, hj⟩
    refine .nobody ?_ ?_
    · rw [hdec.mutexKept hnone, hleft.mutex]
    · intro j
      simp only [hwaits, hnone j, not_false_eq_true, and_true]

/-- No release is lost: after every decision a free mutex has no waiter, and
the decision takes at most one task off the mutex, a waiter of before, to which
it hands the free mutex. -/
theorem mutex_release_not_lost (board : Board) (s t : Kernel) (a : Action)
    (h : Reachable (system board) s) (hstep : (system board).step s a t)
    (hdecides : Decides s a) :
    (t.mutex = 0 → ∀ i, t.registered i → (t.tasks i).state ≠ taskMutexBlocked) ∧
      HandsOver s a t := by
  have hs := reachable_wellformed h
  obtain ⟨o, hleave⟩ := hdecides.leaves
  have hdec : Decision o t := by
    rcases (step_steps hs hstep).decides_or_quiet with ⟨o', hleave', hdec⟩ | ⟨hnone, _⟩
    · obtain rfl := Option.some.inj (hleave'.symm.trans hleave)
      exact hdec
    · rw [hnone] at hleave
      cases hleave
  refine ⟨?_, decision_handsOver hs hstep.1 hleave hdec⟩
  intro hfree i hi hblocked
  exact decision_no_waiter_behind (fun i hi => leave_parked hs hleave hi) hdec hfree i
    ⟨hi, hblocked⟩

/-- Tasks 2 and 3 wait, task 1 unlocks and yields: task 2 gets the mutex and
task 3 still waits. -/
theorem mutex_release_two_waiters :
    ∃ s t, execute xmc1100 (boot xmc1100) [.register 0x10001100, .register 0x10001200,
        .register 0x10001300, .tick, .mutexLock, .yield, .mutexLock, .mutexLock,
        .mutexUnlock] = some s ∧
      (system xmc1100).step s .yield t ∧ s.mutex = 0 ∧ s.waitsMutex 2 ∧ s.waitsMutex 3 ∧
      t.mutex = 1 ∧ t.waitsMutex 3 ∧ HandsOver s .yield t := by
  obtain ⟨s, hrun, hfree, hcount, hsecond, hthird, hnext⟩ := exists_of_any
    (by decide +kernel : (execute xmc1100 (boot xmc1100) [.register 0x10001100,
      .register 0x10001200, .register 0x10001300, .tick, .mutexLock, .yield, .mutexLock,
      .mutexLock, .mutexUnlock]).any (fun s => decide (s.mutex = 0 ∧ s.registeredTasks = 3 ∧
        (s.tasks 2).state = taskMutexBlocked ∧ (s.tasks 3).state = taskMutexBlocked ∧
        (next xmc1100 s .yield).any (fun t => decide (t.mutex = 1 ∧ t.registeredTasks = 3 ∧
          (t.tasks 3).state = taskMutexBlocked)) = true)) = true)
  obtain ⟨t, hone, htaken, hcount', hstill⟩ := exists_of_any hnext
  have hstep := next_step _ _ _ _ hone
  have hrelease := mutex_release_not_lost xmc1100 s t .yield (execute_reachable hrun) hstep
    trivial
  have hregs : ∀ i, 1 ≤ i → i ≤ 3 → s.registered i := fun i hpos hle => ⟨hpos, by omega⟩
  exact ⟨s, t, hrun, hstep, hfree, ⟨hregs 2 (by omega) (by omega), hsecond⟩,
    ⟨hregs 3 (by omega) (by omega), hthird⟩, htaken, ⟨⟨by omega, by omega⟩, hstill⟩,
    hrelease.2⟩

end PascalScheduler
