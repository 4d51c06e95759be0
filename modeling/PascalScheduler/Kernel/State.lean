import Mathlib.Logic.Function.Basic

/-!
The data of `scheduler.c`, `signals.c` and `scheduler.h`: the task table, the
scheduler's file variables and the two signal words. `long int` is the 32-bit
signed integer of the target and its arithmetic wraps (`-fwrapv`). The table is
a function of the task id; `Kernel/Invariant` shows that no entry from
`MAX_TASKS` on is ever read or written.
-/

namespace PascalScheduler

def maxTasks : Nat := 8

abbrev tsbRegisters : Nat := 4

def taskCreated : UInt32 := 0x1
def taskReady : UInt32 := 0x2
def taskRunning : UInt32 := 0x4
def taskBlocked : UInt32 := 0x8
def taskMutexBlocked : UInt32 := 0x10

/-- `struct task_struct`, 32 bytes: the fields in the order of the source. -/
structure TaskStruct where
  sp : UInt32
  registers : Fin tsbRegisters → UInt32
  state : UInt32
  sleepUntil : Int32
  signalFlag : UInt32

/-- A table entry as the start-up code leaves `.bss`. -/
def TaskStruct.zero : TaskStruct where
  sp := 0
  registers _ := 0
  state := 0
  sleepUntil := 0
  signalFlag := 0

/-- The SysTick timer as the kernel sees it: its reload value and the cycles
since it was last restarted. -/
structure SysTick where
  load : UInt32
  elapsed : Nat

/-- Any write to `SysTick->VAL` restarts the count. -/
def SysTick.writeVal (timer : SysTick) : SysTick :=
  { timer with elapsed := 0 }

/-- The variables of `scheduler.c` and `signals.c`, with the timer and the
memory that holds the task stacks. -/
structure Kernel where
  tasks : Nat → TaskStruct
  currentTid : Nat
  registeredTasks : Nat
  jiffy : Int32
  mutex : Int32
  signalFlag : Int32
  signalsFlags : UInt32
  sysTick : SysTick
  memory : UInt32 → UInt32

namespace Kernel

/-- `IS_READY` -/
def isReady (s : Kernel) (tid : Nat) : Bool :=
  (s.tasks tid).state &&& taskReady != 0

/-- `IS_BLOCKED` -/
def isBlocked (s : Kernel) (tid : Nat) : Bool :=
  (s.tasks tid).state &&& taskBlocked != 0

def isMutexBlocked (s : Kernel) (tid : Nat) : Bool :=
  (s.tasks tid).state &&& taskMutexBlocked != 0

def isRunning (s : Kernel) (tid : Nat) : Bool :=
  (s.tasks tid).state &&& taskRunning != 0

/-- The assignment `tasks[tid] = entry`. -/
def setTask (s : Kernel) (tid : Nat) (entry : TaskStruct) : Kernel :=
  { s with tasks := Function.update s.tasks tid entry }

/-- The assignment `tasks[tid].state = state`. -/
def setState (s : Kernel) (tid : Nat) (state : UInt32) : Kernel :=
  s.setTask tid { s.tasks tid with state := state }

section Frame

variable (s : Kernel) (tid : Nat) (entry : TaskStruct) (state : UInt32)

theorem setTask_tasks (i : Nat) :
    (s.setTask tid entry).tasks i = if i = tid then entry else s.tasks i := by
  simp only [setTask, Function.update_apply]

@[simp] theorem setTask_tasks_self : (s.setTask tid entry).tasks tid = entry := by
  simp [setTask_tasks]

@[simp] theorem setTask_currentTid :
    (s.setTask tid entry).currentTid = s.currentTid := rfl

@[simp] theorem setTask_registeredTasks :
    (s.setTask tid entry).registeredTasks = s.registeredTasks := rfl

@[simp] theorem setTask_jiffy : (s.setTask tid entry).jiffy = s.jiffy := rfl

@[simp] theorem setTask_mutex : (s.setTask tid entry).mutex = s.mutex := rfl

@[simp] theorem setTask_signalFlag :
    (s.setTask tid entry).signalFlag = s.signalFlag := rfl

theorem setState_tasks (i : Nat) :
    (s.setState tid state).tasks i =
      if i = tid then { s.tasks tid with state := state } else s.tasks i :=
  setTask_tasks s tid _ i

end Frame

end Kernel

end PascalScheduler
