import PascalScheduler.Kernel.System

/-!
The state invariant of the scheduler: which entries of the task table may hold
which state, and that the table is never indexed outside `MAX_TASKS`. Every
operation overwrites the entry of the task that stops, wakes others, and then
overwrites the entry of the task it chose; one lemma about `Leaves` followed by
`Decision` covers them all.
-/

namespace PascalScheduler

open Transition

structure Wellformed (s : Kernel) : Prop where
  registered_lt : s.registeredTasks < maxTasks
  current_le : s.currentTid ≤ s.registeredTasks
  running : (s.tasks s.currentTid).state = taskRunning
  idle : s.currentTid ≠ 0 → (s.tasks 0).state = taskReady
  parked : ∀ i, s.registered i → i ≠ s.currentTid → Parked (s.tasks i).state
  unused : ∀ i, s.registeredTasks < i → s.tasks i = TaskStruct.zero
  /-- Idle never waits for a signal. -/
  spinning : s.signalFlag ≠ 0 → s.currentTid ≠ 0

variable {board : Board} {s o t : Kernel} {a : Action}

theorem schedulerInit_wellformed (board : Board) (timer : SysTick)
    (memory : UInt32 → UInt32) :
    Wellformed (schedulerInit board (startUp timer memory)) := by
  refine ⟨(by decide : 0 < maxTasks), le_refl _, ?_, ?_, ?_, ?_, ?_⟩
  · exact congrArg TaskStruct.state (Kernel.setTask_tasks_self _ _ _)
  · exact fun h => absurd rfl h
  · intro i hreg hne
    have hle : i ≤ 0 := hreg.2
    exact absurd (Nat.le_zero.mp hle) hne
  · intro i hlt
    have hpos : i ≠ 0 := Nat.pos_iff_ne_zero.mp hlt
    exact (Kernel.setState_tasks _ _ _ _).trans (if_neg hpos)
  · exact fun h => absurd rfl h

/-- Idle is left by a tick only, which finds no signal pending. -/
theorem leave_idle (hs : Wellformed s) (henabled : Enabled s a)
    (hleave : leave s a = some o) (hidle : s.currentTid = 0) :
    (o.tasks 0).state = taskReady := by
  have hentry := (leave_leaves hleave).entry
  rw [hidle] at hentry
  rw [hentry]
  cases a with
  | tick =>
      have hflag : s.signalFlag = 0 := by
        by_contra hne
        exact hs.spinning hne hidle
      rw [leftEntry, if_pos hflag]
  | yield => exact absurd hidle henabled.1
  | sleep => exact absurd hidle henabled.1
  | mutexLock => exact absurd hidle henabled.1
  | mutexUnlock => cases hleave
  | signalWait => cases hleave
  | signalRaise => cases hleave
  | register => cases hleave

/-- After an action that decides, no signal is pending. -/
theorem leave_signalFlag (henabled : Enabled s a) (hleave : leave s a = some o) :
    o.signalFlag = 0 := by
  rw [(leave_leaves hleave).signalFlag]
  cases a with
  | tick => rfl
  | yield => exact henabled.2
  | sleep => exact henabled.2
  | mutexLock => exact henabled.2
  | mutexUnlock => cases hleave
  | signalWait => cases hleave
  | signalRaise => cases hleave
  | register => cases hleave

/-- At the decision, the task that stops is parked like the others. -/
theorem leave_parked (hs : Wellformed s) (hleave : leave s a = some o) {i : Nat}
    (hi : o.registered i) : Parked (o.tasks i).state := by
  have hleft := leave_leaves hleave
  by_cases hcur : i = s.currentTid
  · exact hcur ▸ hleft.parked
  · rw [hleft.other i hcur]
    exact hs.parked i ((hleft.registered_iff i).mp hi) hcur

theorem decision_wellformed (hs : Wellformed s) (henabled : Enabled s a)
    (hleave : leave s a = some o) (hdec : Decision o t) : Wellformed t := by
  have hleft := leave_leaves hleave
  have hle : t.currentTid ≤ s.registeredTasks := hleft.registeredTasks ▸ hdec.picks.le
  have hcount : t.registeredTasks = s.registeredTasks :=
    hdec.registeredTasks.trans hleft.registeredTasks
  have hidle : ¬ o.readied 0 := fun hr => absurd hr.registered.1 (by omega)
  refine ⟨?_, ?_, ?_, ?_, ?_, ?_, ?_⟩
  · rw [hcount]
    exact hs.registered_lt
  · rw [hcount]
    exact hle
  · rw [hdec.running]
  · intro hne
    rw [hdec.kept 0 hne.symm hidle]
    by_cases hcur : s.currentTid = 0
    · exact leave_idle hs henabled hleave hcur
    · rw [hleft.other 0 (Ne.symm hcur)]
      exact hs.idle hcur
  · intro i hi hne
    by_cases hr : o.readied i
    · rw [hdec.readied i hne hr]
      exact parked_ready
    · rw [hdec.kept i hne hr]
      exact leave_parked hs hleave ((hdec.registered_iff i).mp hi)
  · intro i hlt
    rw [hcount] at hlt
    have hnot : ¬ o.readied i := by
      intro hr
      have hin := hr.registered.2
      rw [hleft.registeredTasks] at hin
      omega
    have hcur := hs.current_le
    rw [hdec.kept i (by omega) hnot, hleft.other i (by omega)]
    exact hs.unused i hlt
  · intro hflag
    rw [hdec.signalFlag] at hflag
    exact absurd (leave_signalFlag henabled hleave) hflag

theorem register_wellformed (taskFunc : UInt32) (hs : Wellformed s)
    (hroom : s.registeredTasks + 1 < maxTasks) :
    Wellformed (kTaskRegister board taskFunc s).1 := by
  obtain ⟨hframe, hother, hnew⟩ := kTaskRegister_room board taskFunc hroom
  generalize (kTaskRegister board taskFunc s).1 = t at hframe hother hnew
  have hcount : t.registeredTasks = s.registeredTasks + 1 := by rw [hframe]
  have hcurrent : t.currentTid = s.currentTid := by rw [hframe]
  have hcur := hs.current_le
  refine ⟨by omega, by omega, ?_, ?_, ?_, ?_, ?_⟩
  · rw [hcurrent, hother _ (by omega)]
    exact hs.running
  · rw [hcurrent, hother 0 (by omega)]
    exact hs.idle
  · intro i hi hne
    by_cases hlast : i = s.registeredTasks + 1
    · rw [hlast, hnew]
      exact parked_ready
    · rw [hother i hlast]
      rw [Kernel.registered, hcount] at hi
      exact hs.parked i ⟨hi.1, by omega⟩ (hcurrent ▸ hne)
  · intro i hlt
    rw [hother i (by omega)]
    exact hs.unused i (by omega)
  · intro hflag
    rw [hcurrent]
    exact hs.spinning (by rw [hframe] at hflag; exact hflag)

theorem wellformed_step (hs : Wellformed s) (h : (system board).step s a t) :
    Wellformed t := by
  obtain ⟨henabled, hperform⟩ := h
  cases perform_steps hs.current_le hperform with
  | decide hleave hdec => exact decision_wellformed hs henabled hleave hdec
  | lock =>
      exact ⟨hs.registered_lt, hs.current_le, hs.running, hs.idle, hs.parked,
        hs.unused, hs.spinning⟩
  | unlock =>
      exact ⟨hs.registered_lt, hs.current_le, hs.running, hs.idle, hs.parked,
        hs.unused, hs.spinning⟩
  | wait signal =>
      exact ⟨hs.registered_lt, hs.current_le, hs.running, hs.idle, hs.parked,
        hs.unused, fun _ => henabled.1⟩
  | raise signal =>
      exact ⟨hs.registered_lt, hs.current_le, hs.running, hs.idle, hs.parked,
        hs.unused, hs.spinning⟩
  | register taskFunc hroom => exact register_wellformed taskFunc hs hroom
  | full => exact hs

theorem wellformed_invariant (board : Board) : Invariant (system board) Wellformed where
  init s h := by
    obtain ⟨timer, memory, rfl⟩ := h
    exact schedulerInit_wellformed board timer memory
  step _ _ _ hs h := wellformed_step hs h

theorem reachable_wellformed (h : Reachable (system board) s) : Wellformed s :=
  (wellformed_invariant board).reachable h

/-- In a reachable state every enabled action goes through. -/
theorem enabled_steps (board : Board) (hs : Wellformed s) (henabled : Enabled s a) :
    ∃ t, (system board).step s a t := by
  obtain ⟨t, ht⟩ := perform_total board a hs.current_le
  exact ⟨t, henabled, ht⟩

/-- Inversion of a step between reachable states. -/
theorem step_steps (hs : Wellformed s) (h : (system board).step s a t) :
    Steps board s a t :=
  perform_steps hs.current_le h.2

theorem isRunning_iff (hs : Wellformed s) (i : Nat) :
    s.isRunning i = true ↔ i = s.currentTid := by
  constructor
  · intro hrun
    by_contra hne
    have hnot : ∀ state, Parked state → (state &&& taskRunning != 0) = false := by
      rintro state (rfl | rfl | rfl | rfl) <;> decide
    rw [Kernel.isRunning] at hrun
    by_cases hreg : s.registered i
    · rw [hnot _ (hs.parked i hreg hne)] at hrun
      cases hrun
    · by_cases hzero : i = 0
      · rw [hzero, hs.idle (fun hc => hne (hzero.trans hc.symm))] at hrun
        exact absurd hrun (by decide)
      · rw [hs.unused i (by unfold Kernel.registered at hreg; omega)] at hrun
        exact absurd hrun (by decide)
  · rintro rfl
    rw [Kernel.isRunning, hs.running]
    decide

/-- The scheduler state invariant, in every reachable state. -/
theorem scheduler_state_invariant (board : Board) (s : Kernel)
    (h : Reachable (system board) s) :
    s.registeredTasks < maxTasks ∧ s.currentTid ≤ s.registeredTasks ∧
      (∀ i, i < maxTasks → (s.isRunning i = true ↔ i = s.currentTid)) ∧
      ((s.tasks 0).state = taskRunning ∨ (s.tasks 0).state = taskReady) ∧
      ∀ i, s.registered i → i ≠ s.currentTid → Parked (s.tasks i).state := by
  have hs := reachable_wellformed h
  refine ⟨hs.registered_lt, hs.current_le, fun i _ => isRunning_iff hs i, ?_, hs.parked⟩
  by_cases hcur : s.currentTid = 0
  · exact Or.inl (hcur ▸ hs.running)
  · exact Or.inr (hs.idle hcur)

/-- Two tasks, the first of which runs and holds the mutex. -/
theorem scheduler_state_invariant_two_tasks :
    ∃ s, execute xmc1100 (boot xmc1100) [.register 0x10001100, .register 0x10001200,
        .tick, .mutexLock] = some s ∧ s.currentTid = 1 ∧ s.registeredTasks < maxTasks ∧
      (∀ i, i < maxTasks → (s.isRunning i = true ↔ i = s.currentTid)) := by
  obtain ⟨s, hrun, hcur⟩ := exists_of_any
    (by decide +kernel : (execute xmc1100 (boot xmc1100) [.register 0x10001100,
      .register 0x10001200, .tick, .mutexLock]).any
        (fun s => decide (s.currentTid = 1)) = true)
  have h := scheduler_state_invariant xmc1100 s (execute_reachable hrun)
  exact ⟨s, hrun, hcur, h.1, h.2.2.1⟩

end PascalScheduler
