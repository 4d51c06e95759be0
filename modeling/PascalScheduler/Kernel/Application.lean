import PascalScheduler.Kernel.MutexRelease
import PascalScheduler.Library.Refinement

/-!
The tasks on top of the kernel: `main.c`, the wrappers of `mutex.c` and
`syscall.c`, and the loop of `_kernel_entry` that registers them. A task is the
statements of its function; which of them calls the kernel is all that counts
here. Ticks come between any two statements, before all tasks are registered
too. A task whose own code locks and unlocks in turn makes every run of the
whole a lawful run of the mutex, whatever the other tasks do.
-/

namespace PascalScheduler

open Transition

/-- A statement of a task. -/
inductive Statement where
  | compute   -- calls no function of the kernel
  | sleep (stime : Int32)
  | yield
  | mutexLock
  | mutexUnlock
  | signalWait (signal : UInt32)
  | signalRaise (signal : UInt32)
  deriving DecidableEq

/-- The wrappers `sys_sleep`, `sys_yield`, `mutex_lock` and `mutex_unlock`, and
the functions of `signals.c`. -/
def Statement.action : Statement → Option Action
  | .compute => none
  | .sleep stime => some (.sleep stime)
  | .yield => some .yield
  | .mutexLock => some .mutexLock
  | .mutexUnlock => some .mutexUnlock
  | .signalWait signal => some (.signalWait signal)
  | .signalRaise signal => some (.signalRaise signal)

/-- `OS_TASK`: the address of the function, its statements up to its endless
loop, and those of the loop. -/
structure OsTask where
  entry : UInt32
  start : List Statement
  loop : List Statement

namespace OsTask

def code (task : OsTask) : List Statement :=
  task.start ++ task.loop

def statement (task : OsTask) (pc : Nat) : Statement :=
  task.code.getD pc .compute

def next (task : OsTask) (pc : Nat) : Nat :=
  if pc + 1 < task.code.length then pc + 1 else task.start.length

end OsTask

/-- The kernel, where each task is, and the loop of `_kernel_entry`: how many
tasks it has registered, and whether it ended in `fatal`. -/
structure Os where
  kernel : Kernel
  pcs : Nat → Nat
  booted : Nat
  halted : Bool

inductive OsStep where
  | tick
  | run   -- the next statement of whoever runs
  deriving DecidableEq

/-- `_kernel_entry` from its loop on, in the idle task. -/
def kernelEntry (board : Board) (tasks : List OsTask) (s : Os) : Os :=
  match tasks[s.booted]? with
  | none => s
  | some task =>
      let answer := kTaskRegister board task.entry s.kernel
      if answer.2 ≠ 0 then { s with kernel := answer.1, halted := true }
      else { s with kernel := answer.1, booted := s.booted + 1 }

/-- The next statement of the running task. While `signal_wait` spins there is
none. -/
def runStatement (board : Board) (task : OsTask) (s : Os) : Option Os :=
  let tid := s.kernel.currentTid
  let s' := { s with pcs := Function.update s.pcs tid (task.next (s.pcs tid)) }
  if s.kernel.signalFlag ≠ 0 then some s
  else
    match (task.statement (s.pcs tid)).action with
    | none => some s'
    | some a => (perform board s.kernel a).map fun k => { s' with kernel := k }

def osNext (board : Board) (tasks : List OsTask) (s : Os) : OsStep → Option Os
  | .tick =>
      if s.halted then none
      else (perform board s.kernel .tick).map fun k => { s with kernel := k }
  | .run =>
      if s.halted then none
      else if s.kernel.currentTid = 0 then some (kernelEntry board tasks s)
      else (tasks[s.kernel.currentTid - 1]?).bind (runStatement board · s)

/-- The whole. What the tasks and `task_save_context` do to the stacks and to the
saved contexts decides nothing here and is left out; `stackedSystem` has it. -/
def osSystem (board : Board) (tasks : List OsTask) : System Os OsStep where
  init s := ∃ timer memory, s = ⟨schedulerInit board (startUp timer memory), fun _ => 0, 0, false⟩
  step s l t := osNext board tasks s l = some t

/-- `uart_task`: the six assignments and the call of `dev_ioctl`, and then in
turn `RTC_update` and `RTC_print` under the mutex. -/
def uartTask (entry : UInt32) : OsTask where
  entry := entry
  start := List.replicate 7 .compute ++ [.sleep 100]
  loop := [.mutexLock, .compute, .compute, .mutexUnlock, .yield]

def mutexTask (entry : UInt32) : OsTask where
  entry := entry
  start := []
  loop := [.mutexLock, .sleep 2000, .mutexUnlock, .yield]

/-- `OS_TASK_LIST` of `main.c` -/
def osTasks (uart mutex : UInt32) : List OsTask :=
  [uartTask uart, mutexTask mutex]

/-- Every step of the whole, with everything it can do. -/
inductive OsSteps (board : Board) (tasks : List OsTask) (s : Os) : OsStep → Os → Prop where
  | tick {k : Kernel} (step : (system board).step s.kernel .tick k) :
      OsSteps board tasks s .tick { s with kernel := k }
  | register {task : OsTask} (idle : s.kernel.currentTid = 0)
      (listed : tasks[s.booted]? = some task) (room : s.kernel.registeredTasks + 1 < maxTasks) :
      OsSteps board tasks s .run
        { s with
          kernel := (kTaskRegister board task.entry s.kernel).1, booted := s.booted + 1 }
  | fatal {task : OsTask} (idle : s.kernel.currentTid = 0)
      (listed : tasks[s.booted]? = some task) (full : maxTasks ≤ s.kernel.registeredTasks + 1) :
      OsSteps board tasks s .run { s with halted := true }
  | idle (idle : s.kernel.currentTid = 0) (all : tasks.length ≤ s.booted) :
      OsSteps board tasks s .run s
  | spin (current : s.kernel.currentTid ≠ 0) (spinning : s.kernel.signalFlag ≠ 0) :
      OsSteps board tasks s .run s
  | compute {task : OsTask} (current : s.kernel.currentTid ≠ 0)
      (flag : s.kernel.signalFlag = 0) (runs : tasks[s.kernel.currentTid - 1]? = some task)
      (statement : (task.statement (s.pcs s.kernel.currentTid)).action = none) :
      OsSteps board tasks s .run
        { s with
          pcs := Function.update s.pcs s.kernel.currentTid
            (task.next (s.pcs s.kernel.currentTid)) }
  | call {task : OsTask} {a : Action} {k : Kernel} (current : s.kernel.currentTid ≠ 0)
      (flag : s.kernel.signalFlag = 0) (runs : tasks[s.kernel.currentTid - 1]? = some task)
      (statement : (task.statement (s.pcs s.kernel.currentTid)).action = some a)
      (step : (system board).step s.kernel a k) :
      OsSteps board tasks s .run
        { s with
          kernel := k
          pcs := Function.update s.pcs s.kernel.currentTid
            (task.next (s.pcs s.kernel.currentTid)) }

section Steps

variable {board : Board} {tasks : List OsTask} {s t : Os} {l : OsStep}

/-- A statement that calls the kernel may do so when the task runs. -/
theorem action_enabled {statement : Statement} {a : Action} {k : Kernel}
    (h : statement.action = some a) (hcur : k.currentTid ≠ 0) (hflag : k.signalFlag = 0) :
    Enabled k a := by
  cases statement with
  | compute => cases h
  | sleep | yield | mutexLock | mutexUnlock | signalWait =>
      obtain rfl := Option.some.inj h
      exact ⟨hcur, hflag⟩
  | signalRaise =>
      obtain rfl := Option.some.inj h
      trivial

theorem kernelEntry_steps :
    s.kernel.currentTid = 0 → OsSteps board tasks s .run (kernelEntry board tasks s) := by
  intro hidle
  unfold kernelEntry
  split
  · rename_i hnone
    exact .idle hidle (List.getElem?_eq_none_iff.mp hnone)
  · rename_i task htask
    by_cases hroom : s.kernel.registeredTasks + 1 < maxTasks
    · have hanswer : (kTaskRegister board task.entry s.kernel).2 = 0 := by
        rw [kTaskRegister, if_neg (Nat.not_le.mpr hroom)]
      rw [if_neg (not_not_intro hanswer)]
      exact .register hidle htask hroom
    · have hfull : kTaskRegister board task.entry s.kernel = (s.kernel, -1) := by
        rw [kTaskRegister, if_pos (Nat.not_lt.mp hroom)]
      have hne : (-1 : Int32) ≠ 0 := by decide
      rw [hfull, if_pos hne]
      exact .fatal hidle htask (Nat.not_lt.mp hroom)

/-- Inversion of a step, and where there is one. -/
theorem os_steps (h : (osSystem board tasks).step s l t) :
    s.halted = false ∧ OsSteps board tasks s l t := by
  have hnext : osNext board tasks s l = some t := h
  cases l with
  | tick =>
      rw [osNext] at hnext
      split at hnext
      · cases hnext
      · rename_i hrunning
        obtain ⟨k, hk, rfl⟩ := Option.map_eq_some_iff.mp hnext
        exact ⟨Bool.eq_false_iff.mpr hrunning, .tick ⟨trivial, hk⟩⟩
  | run =>
      rw [osNext] at hnext
      split at hnext
      · cases hnext
      · rename_i hrunning
        refine ⟨Bool.eq_false_iff.mpr hrunning, ?_⟩
        split at hnext
        · rename_i hidle
          obtain rfl := Option.some.inj hnext
          exact kernelEntry_steps hidle
        · rename_i hcur
          obtain ⟨task, htask, hrun⟩ := Option.bind_eq_some_iff.mp hnext
          rw [runStatement] at hrun
          split at hrun
          · rename_i hspin
            obtain rfl := Option.some.inj hrun
            exact .spin hcur hspin
          · rename_i hflag
            split at hrun
            · rename_i haction
              obtain rfl := Option.some.inj hrun
              exact .compute hcur (not_not.mp hflag) htask haction
            · rename_i a haction
              obtain ⟨k, hk, rfl⟩ := Option.map_eq_some_iff.mp hrun
              have henabled := action_enabled haction hcur (not_not.mp hflag)
              exact .call hcur (not_not.mp hflag) htask haction ⟨henabled, hk⟩

end Steps

end PascalScheduler
