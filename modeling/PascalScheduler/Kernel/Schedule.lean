import PascalScheduler.Kernel.Mutex

/-!
What the scheduler is for, without its table. A task is runnable, sleeps until
a tick or awaits the mutex; a decision wakes who is due, gives a free mutex to
the first who awaits it and lets the next runnable task in cyclic order run. A
wait for a signal is a sleep until tick 0: no mask and no raised signal has a
place in this machine. The kernel is then shown to be nothing more.
-/

namespace PascalScheduler

open Transition RoundRobin

/-- What a task is doing, whether or not it runs. -/
inductive Condition where
  | runnable
  | sleeping (deadline : Int32)
  | awaiting   -- the mutex
  deriving DecidableEq

/-- An action as far as it matters which task runs. -/
inductive Request where
  | tick
  | yield
  | sleep (stime : Int32)
  | lock
  | unlock
  | wait (spins : Bool)
  | raise
  | register
  deriving DecidableEq

def Action.request : Action → Request
  | .tick => .tick
  | .yield => .yield
  | .sleep stime => .sleep stime
  | .mutexLock => .lock
  | .mutexUnlock => .unlock
  | .signalWait signal => .wait (signal.toInt32 != 0)
  | .signalRaise _ => .raise
  | .register _ => .register

/-- The tasks `1..count` and idle, which is `0`. -/
structure Schedule where
  count : Nat
  current : Nat
  condition : Nat → Condition
  jiffy : Int32
  locked : Bool
  spinning : Bool

namespace Schedule

def start : Schedule := ⟨0, 0, fun _ => .runnable, 0, false, false⟩

/-- The condition in which the running task stops. -/
def park (s : Schedule) (condition : Condition) : Schedule :=
  { s with condition := Function.update s.condition s.current condition }

def due (s : Schedule) (i : Nat) : Bool :=
  match s.condition i with
  | .sleeping deadline => decide (deadline < s.jiffy)
  | .runnable | .awaiting => false

section Due

variable {s : Schedule} {i : Nat}

theorem due_sleeping {deadline : Int32} (h : s.condition i = .sleeping deadline) :
    s.due i = decide (deadline < s.jiffy) := by
  rw [due, h]

theorem due_runnable (h : s.condition i = .runnable) : s.due i = false := by
  rw [due, h]

theorem due_awaiting (h : s.condition i = .awaiting) : s.due i = false := by
  rw [due, h]

end Due

/-- Who gets the mutex. -/
def heir (s : Schedule) : Option Nat :=
  if s.locked then none
  else (List.range' 1 s.count).find? fun i => decide (s.condition i = .awaiting)

def wake (s : Schedule) : Schedule :=
  { s with
    condition := fun i => if s.due i ∨ s.heir = some i then .runnable else s.condition i
    locked := s.locked || s.heir.isSome }

def dispatch (s : Schedule) : Schedule :=
  let s := s.wake
  { s with
    current :=
      ((order s.count s.current).find? fun i => decide (s.condition i = .runnable)).getD 0 }

def Enabled (s : Schedule) : Request → Prop
  | .tick | .raise => True
  | .register => s.spinning = false
  | .yield | .sleep _ | .lock | .unlock | .wait _ => s.current ≠ 0 ∧ s.spinning = false

instance (s : Schedule) (r : Request) : Decidable (s.Enabled r) :=
  match r with
  | .tick | .raise => .isTrue trivial
  | .register => inferInstanceAs (Decidable (s.spinning = false))
  | .yield | .sleep _ | .lock | .unlock | .wait _ =>
      inferInstanceAs (Decidable (s.current ≠ 0 ∧ s.spinning = false))

def perform (s : Schedule) : Request → Schedule
  | .tick =>
      let stopped := s.park (if s.spinning then .sleeping 0 else .runnable)
      dispatch { stopped with jiffy := s.jiffy + 1, spinning := false }
  | .yield => (s.park .runnable).dispatch
  | .sleep stime => (s.park (.sleeping (s.jiffy + stime))).dispatch
  | .lock => if s.locked then (s.park .awaiting).dispatch else { s with locked := true }
  | .unlock => { s with locked := false }
  | .wait spins => { s with spinning := spins }
  | .raise => s
  | .register => if s.count + 1 < maxTasks then { s with count := s.count + 1 } else s

def next (s : Schedule) (r : Request) : Option Schedule :=
  if s.Enabled r then some (s.perform r) else none

end Schedule

/-- The condition that an entry of the table says. -/
def TaskStruct.condition (entry : TaskStruct) : Condition :=
  if entry.state &&& taskMutexBlocked ≠ 0 then .awaiting
  else if entry.state &&& taskBlocked ≠ 0 then .sleeping entry.sleepUntil
  else .runnable

def Kernel.schedule (s : Kernel) : Schedule where
  count := s.registeredTasks
  current := s.currentTid
  condition i := (s.tasks i).condition
  jiffy := s.jiffy
  locked := s.mutex != 0
  spinning := s.signalFlag != 0

section Conditions

variable {entry : TaskStruct}

theorem condition_running (h : entry.state = taskRunning) : entry.condition = .runnable := by
  have hmutex : ¬ taskRunning &&& taskMutexBlocked ≠ 0 := by decide
  have hblocked : ¬ taskRunning &&& taskBlocked ≠ 0 := by decide
  rw [TaskStruct.condition, h, if_neg hmutex, if_neg hblocked]

theorem condition_ready (h : entry.state = taskReady) : entry.condition = .runnable := by
  have hmutex : ¬ taskReady &&& taskMutexBlocked ≠ 0 := by decide
  have hblocked : ¬ taskReady &&& taskBlocked ≠ 0 := by decide
  rw [TaskStruct.condition, h, if_neg hmutex, if_neg hblocked]

theorem condition_mutexBlocked (h : entry.state = taskMutexBlocked) :
    entry.condition = .awaiting := by
  have hmutex : taskMutexBlocked &&& taskMutexBlocked ≠ 0 := by decide
  rw [TaskStruct.condition, h, if_pos hmutex]

theorem condition_blocked
    (h : entry.state = taskBlocked ∨ entry.state = (taskCreated ||| taskBlocked)) :
    entry.condition = .sleeping entry.sleepUntil := by
  have hstate : ¬ entry.state &&& taskMutexBlocked ≠ 0 ∧ entry.state &&& taskBlocked ≠ 0 := by
    rcases h with h | h <;> rw [h] <;> decide
  rw [TaskStruct.condition, if_neg hstate.1, if_pos hstate.2]

end Conditions

/-- What a decision may rely on. -/
structure Settled (o : Kernel) : Prop where
  current_le : o.currentTid ≤ o.registeredTasks
  idle : (o.tasks 0).condition = .runnable
  parked : ∀ i, o.registered i → Parked (o.tasks i).state
  unused : ∀ i, o.registeredTasks < i → (o.tasks i).condition = .runnable

variable {board : Board} {s o t : Kernel} {a : Action} {i : Nat}

theorem zero_condition : TaskStruct.zero.condition = .runnable := by
  decide

theorem leave_settled (hs : Wellformed s) (henabled : Enabled s a)
    (hleave : leave s a = some o) : Settled o := by
  have hleft := leave_leaves hleave
  have hle := hs.current_le
  constructor
  · rw [hleft.currentTid, hleft.registeredTasks]
    exact hle
  · by_cases hcur : s.currentTid = 0
    · exact condition_ready (leave_idle hs henabled hleave hcur)
    · rw [hleft.other 0 (Ne.symm hcur)]
      exact condition_ready (hs.idle hcur)
  · exact fun i hi => leave_parked hs hleave hi
  · intro i hi
    rw [hleft.registeredTasks] at hi
    rw [hleft.other i (by omega), hs.unused i hi]
    exact zero_condition

/-- The kernel that an action hands to its decision. -/
theorem leave_schedule (h : leave s a = some o) :
    o.schedule = { s.schedule.park (leftEntry s a).condition with
      jiffy := leftJiffy s a, spinning := leftSignal s a != 0 } := by
  rw [leave_eq h]
  have hcondition : (fun i => ((s.setTask s.currentTid (leftEntry s a)).tasks i).condition) =
      Function.update (fun i => (s.tasks i).condition) s.currentTid (leftEntry s a).condition := by
    funext i
    rw [Kernel.setTask_tasks, Function.update_apply]
    split <;> rfl
  simp only [Kernel.schedule, Schedule.park]
  rw [← hcondition]
  rfl

namespace Settled

/-- Outside the registered tasks nothing sleeps or waits. -/
theorem registered_of_condition (h : Settled o) (hi : (o.tasks i).condition ≠ .runnable) :
    o.registered i := by
  by_contra hnot
  by_cases hzero : i = 0
  · exact hi (hzero ▸ h.idle)
  · apply hi
    apply h.unused
    rw [Kernel.registered] at hnot
    omega

theorem due_iff (h : Settled o) : o.schedule.due i = true ↔ o.wakes i := by
  by_cases hreg : o.registered i
  · have hwakes : o.wakes i ↔ o.isBlocked i = true ∧ (o.tasks i).sleepUntil < o.jiffy :=
      and_iff_right hreg
    rw [hwakes, Kernel.isBlocked]
    rcases h.parked i hreg with hp | hp | hp | hp
    · rw [Schedule.due_runnable (condition_ready hp), hp]
      exact ⟨fun hc => absurd hc (by decide), fun hw => absurd hw.1 (by decide)⟩
    · rw [Schedule.due_sleeping (condition_blocked (.inl hp)), hp, decide_eq_true_iff]
      exact (and_iff_right (by decide)).symm
    · rw [Schedule.due_sleeping (condition_blocked (.inr hp)), hp, decide_eq_true_iff]
      exact (and_iff_right (by decide)).symm
    · rw [Schedule.due_awaiting (condition_mutexBlocked hp), hp]
      exact ⟨fun hc => absurd hc (by decide), fun hw => absurd hw.1 (by decide)⟩
  · have hrunnable : o.schedule.condition i = .runnable := by
      by_contra hne
      exact hreg (h.registered_of_condition hne)
    rw [Schedule.due_runnable hrunnable]
    exact ⟨fun hc => absurd hc (by decide), fun hw => absurd hw.1 hreg⟩

theorem awaiting_iff (h : Settled o) : o.schedule.condition i = .awaiting ↔ o.awaitsMutex i := by
  change (o.tasks i).condition = .awaiting ↔ _
  constructor
  · intro hi
    have hreg := h.registered_of_condition (by rw [hi]; simp)
    rw [awaitsMutex_iff (h.parked i hreg)]
    rcases h.parked i hreg with hp | hp | hp | hp
    · rw [condition_ready hp] at hi
      cases hi
    · rw [condition_blocked (.inl hp)] at hi
      cases hi
    · rw [condition_blocked (.inr hp)] at hi
      cases hi
    · exact ⟨hreg, hp⟩
  · intro hi
    exact condition_mutexBlocked ((awaitsMutex_iff (h.parked i hi.1)).mp hi).2

theorem heir_iff (h : Settled o) : o.schedule.heir = some i ↔ o.granted i := by
  rw [Schedule.heir, Kernel.granted]
  change (if (o.mutex != 0) = true then _ else _) = some i ↔ _
  by_cases hfree : o.mutex = 0
  · rw [if_neg (by simp [hfree]), List.find?_range'_eq_some]
    simp only [decide_eq_true_eq, h.awaiting_iff]
    change (o.awaitsMutex i ∧ i ∈ List.range' 1 o.registeredTasks ∧ _) ↔ _
    constructor
    · rintro ⟨hi, _, hfirst⟩
      refine ⟨hfree, hi, ?_⟩
      intro j hj hawaits
      have hnot := hfirst j hawaits.1.1 hj
      simp [h.awaiting_iff, hawaits] at hnot
    · rintro ⟨_, hi, hfirst⟩
      refine ⟨hi, ?_, ?_⟩
      · have hreg := hi.1
        rw [List.mem_range'_1]
        exact ⟨hreg.1, by have := hreg.2; omega⟩
      · intro j _ hj
        simpa [h.awaiting_iff] using hfirst j hj
  · rw [if_pos (by simp [hfree])]
    constructor
    · intro hnone
      cases hnone
    · exact fun hg => absurd hg.1 hfree

theorem wake_condition (h : Settled o) (i : Nat) :
    (o.readied i → o.schedule.wake.condition i = .runnable) ∧
      (¬ o.readied i → o.schedule.wake.condition i = (o.tasks i).condition) := by
  have hiff : (o.schedule.due i = true ∨ o.schedule.heir = some i) ↔ o.readied i := by
    rw [h.due_iff, h.heir_iff, Kernel.readied]
  constructor
  · exact fun hr => if_pos (hiff.mpr hr)
  · exact fun hr => if_neg (fun hc => hr (hiff.mp hc))

/-- Runnable after the wake-ups means READY after them. -/
theorem wake_runnable (h : Settled o) (hi : o.registered i) :
    o.schedule.wake.condition i = .runnable ↔ o.readyNext i := by
  obtain ⟨hwoken, hkept⟩ := h.wake_condition i
  by_cases hr : o.readied i
  · exact ⟨fun _ => .inl hr, fun _ => hwoken hr⟩
  · rw [hkept hr, Kernel.readyNext, or_iff_right hr, Kernel.isReady]
    rcases h.parked i hi with hp | hp | hp | hp
    · rw [condition_ready hp, hp]
      exact ⟨fun _ => by decide, fun _ => rfl⟩
    · rw [condition_blocked (.inl hp), hp]
      exact ⟨fun hc => absurd hc (by simp), fun hc => absurd hc (by decide)⟩
    · rw [condition_blocked (.inr hp), hp]
      exact ⟨fun hc => absurd hc (by simp), fun hc => absurd hc (by decide)⟩
    · rw [condition_mutexBlocked hp, hp]
      exact ⟨fun hc => absurd hc (by simp), fun hc => absurd hc (by decide)⟩

theorem dispatch_current (h : Settled o) (hdec : Decision o t) :
    o.schedule.dispatch.current = t.currentTid := by
  have hsearch := picks_find (fun i => decide (o.schedule.wake.condition i = .runnable))
    h.current_le
  apply Picks.unique (hsearch.congr ?_) hdec.picks
  intro i hpos hle
  rw [decide_eq_true_iff]
  exact h.wake_runnable ⟨hpos, hle⟩

theorem dispatch_condition (h : Settled o) (hdec : Decision o t) (i : Nat) :
    o.schedule.dispatch.condition i = (t.tasks i).condition := by
  obtain ⟨hwoken, hkept⟩ := h.wake_condition i
  change o.schedule.wake.condition i = _
  by_cases hcur : i = t.currentTid
  · have hrunning : (t.tasks i).state = taskRunning := by rw [hcur, hdec.running]
    rw [condition_running hrunning]
    by_cases hzero : t.currentTid = 0
    · have hnot : ¬ o.readied i := by
        intro hr
        have hpos := hr.registered.1
        omega
      rw [hkept hnot, hcur, hzero]
      exact h.idle
    · have hreg : o.registered i := by
        rw [hcur]
        exact ⟨Nat.pos_of_ne_zero hzero, hdec.picks.le⟩
      rw [h.wake_runnable hreg, hcur]
      exact hdec.picks.ready_of_pos hzero
  · by_cases hr : o.readied i
    · rw [hwoken hr, condition_ready]
      rw [hdec.readied i hcur hr]
    · rw [hkept hr, hdec.kept i hcur hr]

theorem dispatch_locked (h : Settled o) (hdec : Decision o t) :
    o.schedule.dispatch.locked = (t.mutex != 0) := by
  change (o.mutex != 0 || o.schedule.heir.isSome) = _
  cases hheir : o.schedule.heir with
  | some i =>
      rw [hdec.mutexGranted i (h.heir_iff.mp hheir), Option.isSome_some, Bool.or_true]
      decide
  | none =>
      have hnone : ∀ i, ¬ o.granted i := by
        intro i hg
        rw [← h.heir_iff, hheir] at hg
        cases hg
      rw [hdec.mutexKept hnone, Option.isSome_none, Bool.or_false]

/-- A decision of the kernel is one of the machine. -/
theorem decision_schedule (h : Settled o) (hdec : Decision o t) :
    t.schedule = o.schedule.dispatch := by
  have hcondition := funext (h.dispatch_condition hdec)
  have hcurrent := h.dispatch_current hdec
  have hlocked := h.dispatch_locked hdec
  rw [Kernel.schedule, ← hcondition, ← hcurrent, ← hlocked, hdec.registeredTasks, hdec.jiffy,
    hdec.signalFlag]
  rfl

end Settled

theorem enabled_iff (s : Kernel) (a : Action) : Enabled s a ↔ s.schedule.Enabled a.request := by
  have hflag : s.signalFlag = 0 ↔ s.schedule.spinning = false := by
    simp [Kernel.schedule]
  cases a with
  | tick | signalRaise => exact Iff.rfl
  | register => exact hflag
  | yield | sleep | mutexLock | mutexUnlock | signalWait => exact and_congr_right fun _ => hflag

/-- The part of an action before its decision. -/
theorem park_dispatch (hleave : leave s a = some o) :
    o.schedule.dispatch = s.schedule.perform a.request := by
  rw [leave_schedule hleave]
  cases a with
  | tick =>
      by_cases hflag : s.signalFlag = 0
      · have hentry : (leftEntry s .tick).condition = .runnable := by
          rw [leftEntry, if_pos hflag]
          exact condition_ready rfl
        have hspinning : ¬ s.schedule.spinning = true := by simp [Kernel.schedule, hflag]
        rw [hentry, Action.request, Schedule.perform, if_neg hspinning]
        rfl
      · have hentry : (leftEntry s .tick).condition = .sleeping 0 := by
          rw [leftEntry, if_neg hflag]
          exact condition_blocked (.inr rfl)
        have hspinning : s.schedule.spinning = true := by simp [Kernel.schedule, hflag]
        rw [hentry, Action.request, Schedule.perform, if_pos hspinning]
        rfl
  | yield =>
      have hentry : (leftEntry s .yield).condition = .runnable := condition_ready rfl
      rw [hentry]
      rfl
  | sleep stime =>
      have hentry : (leftEntry s (.sleep stime)).condition = .sleeping (s.jiffy + stime) :=
        condition_blocked (.inl rfl)
      rw [hentry]
      rfl
  | mutexLock =>
      have hentry : (leftEntry s .mutexLock).condition = .awaiting := condition_mutexBlocked rfl
      have hlocked : s.schedule.locked = true := by
        by_contra hfree
        rw [leave, if_pos (by simpa [Kernel.schedule] using hfree)] at hleave
        cases hleave
      rw [hentry, Action.request, Schedule.perform, if_pos hlocked]
      rfl
  | mutexUnlock | signalWait | signalRaise | register => cases hleave

theorem register_schedule (taskFunc : UInt32) (hs : Wellformed s)
    (hroom : s.registeredTasks + 1 < maxTasks) :
    (kTaskRegister board taskFunc s).1.schedule =
      { s.schedule with count := s.registeredTasks + 1 } := by
  obtain ⟨hframe, hother, hnew⟩ := kTaskRegister_room board taskFunc hroom
  have hcondition : (fun i => ((kTaskRegister board taskFunc s).1.tasks i).condition) =
      fun i => (s.tasks i).condition := by
    funext i
    by_cases hlast : i = s.registeredTasks + 1
    · rw [hlast, hs.unused _ (Nat.lt_succ_self _), zero_condition, hnew]
      exact condition_ready rfl
    · rw [hother i hlast]
  rw [Kernel.schedule, hcondition, hframe]
  rfl

/-- Every step of the kernel is the step of the machine. -/
theorem step_schedule (hs : Wellformed s) (hstep : (system board).step s a t) :
    t.schedule = s.schedule.perform a.request := by
  cases step_steps hs hstep with
  | decide hleave hdec =>
      rw [(leave_settled hs hstep.1 hleave).decision_schedule hdec]
      exact park_dispatch hleave
  | lock hfree =>
      have hlocked : ¬ s.schedule.locked = true := by simp [Kernel.schedule, hfree]
      rw [Action.request, Schedule.perform, if_neg hlocked]
      rfl
  | unlock | wait | raise => rfl
  | register taskFunc hroom =>
      rw [register_schedule taskFunc hs hroom, Action.request, Schedule.perform]
      exact (if_pos hroom).symm
  | full taskFunc hfull =>
      rw [Action.request, Schedule.perform]
      exact (if_neg (Nat.not_lt.mpr hfull)).symm

theorem init_schedule (h : (system board).init s) : s.schedule = Schedule.start := by
  obtain ⟨timer, memory, rfl⟩ := h
  have hcondition : (fun i => ((schedulerInit board (startUp timer memory)).tasks i).condition) =
      fun _ => Condition.runnable := by
    funext i
    by_cases hidle : i = 0
    · subst hidle
      exact condition_running (schedulerInit_wellformed board timer memory).running
    · have hpos := Nat.pos_of_ne_zero hidle
      rw [(schedulerInit_wellformed board timer memory).unused i hpos]
      exact zero_condition
  rw [Kernel.schedule, hcondition]
  rfl

theorem next_schedule (board : Board) (hs : Wellformed s) (a : Action) :
    (next board s a).map Kernel.schedule = s.schedule.next a.request := by
  by_cases henabled : Enabled s a
  · obtain ⟨t, hstep⟩ := enabled_steps board hs henabled
    rw [next, if_pos henabled, hstep.2, Schedule.next, if_pos ((enabled_iff s a).mp henabled),
      ← step_schedule hs hstep]
    rfl
  · rw [next, if_neg henabled, Schedule.next, if_neg (fun h => henabled ((enabled_iff s a).mpr h))]
    rfl

/-- Run by run: the kernel takes exactly the lists of actions that the machine
takes, and ends in the state that the machine says. -/
theorem kernel_is_schedule (board : Board) (timer : SysTick) (memory : UInt32 → UInt32)
    (as : List Action) :
    (execute board (schedulerInit board (startUp timer memory)) as).map Kernel.schedule =
      run Schedule.next Schedule.start (as.map Action.request) := by
  have hrun : ∀ s, Wellformed s → (execute board s as).map Kernel.schedule =
      run Schedule.next s.schedule (as.map Action.request) := by
    induction as with
    | nil => exact fun _ _ => rfl
    | cons a rest ih =>
        intro s hs
        have hnext := next_schedule board hs a
        rw [execute, run, List.map_cons, run, ← hnext]
        cases hone : next board s a with
        | none => rfl
        | some t => exact ih t (wellformed_step hs (next_step board s a t hone))
  rw [hrun _ (schedulerInit_wellformed board timer memory)]
  rw [init_schedule ⟨timer, memory, rfl⟩]

/-- Which task runs when, who sleeps, waits and holds does not depend on the
board, on what memory holds, on the addresses of the tasks, on the signals
raised or on the mask waited for. -/
theorem scheduling_independent (board board' : Board) (timer timer' : SysTick)
    (memory memory' : UInt32 → UInt32) (as as' : List Action)
    (hsame : as.map Action.request = as'.map Action.request) :
    (execute board (schedulerInit board (startUp timer memory)) as).map Kernel.schedule =
      (execute board' (schedulerInit board' (startUp timer' memory')) as').map Kernel.schedule := by
  rw [kernel_is_schedule, kernel_is_schedule, hsame]

/-- Another board: its clock is slower, and its stacks are elsewhere. -/
def slowBoard : Board :=
  { xmc1100 with threadStackTop := 0x20004000, systemCoreClock := 8000000 }

/-- A task waits for signal 1 or for signal 6, which is raised or not: the same
task runs. -/
theorem scheduling_independent_signals :
    ((execute xmc1100 (boot xmc1100) [.register 0x10001100, .register 0x10001200, .tick,
        .signalWait 1, .signalRaise 1, .tick]).map Kernel.schedule).isSome = true ∧
      (execute xmc1100 (boot xmc1100) [.register 0x10001100, .register 0x10001200, .tick,
        .signalWait 1, .signalRaise 1, .tick]).map Kernel.schedule =
      (execute slowBoard (boot slowBoard) [.register 0x10001100, .register 0x10001300, .tick,
        .signalWait 6, .signalRaise 8, .tick]).map Kernel.schedule :=
  ⟨by decide +kernel, scheduling_independent xmc1100 slowBoard _ _ _ _ _ _ rfl⟩

end PascalScheduler
