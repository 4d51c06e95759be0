import PascalScheduler.Kernel.State

/-!
The functions of `scheduler.c` and `signals.c`, and the dispatch of
`SVC_C_Handler`. A scan that would never end is `none`; every other function is
total.
-/

namespace PascalScheduler

/-- What the vendor library gives: the clock, and `SysTick_Config`, which is told
how many cycles a period has. -/
structure Vendor where
  systemCoreClock : UInt32
  sysTickConfig : UInt32 → SysTick → SysTick

/-- What the linker script fixes for one board besides. -/
structure Board extends Vendor where
  threadStackTop : UInt32

/-- The scheduler's variables as the start-up code hands them over: `.bss` is
zero, the timer and the stacks hold anything. -/
def startUp (timer : SysTick) (memory : UInt32 → UInt32) : Kernel where
  tasks _ := TaskStruct.zero
  currentTid := 0
  registeredTasks := 0
  jiffy := 0
  mutex := 0
  signalFlag := 0
  signalsFlags := 0
  sysTick := timer
  memory := memory

def schedulerInit (board : Board) (s : Kernel) : Kernel :=
  let s := { s with registeredTasks := 0, currentTid := 0 }
  let s := s.setState s.currentTid taskRunning
  { s with sysTick := board.sysTickConfig (board.systemCoreClock / 1000) s.sysTick }

/-- The body of the loop of `k_task_update_state`. -/
def updateTask (s : Kernel) (i : Nat) : Kernel :=
  let s :=
    if s.isBlocked i && s.jiffy > (s.tasks i).sleepUntil then s.setState i taskReady
    else s
  if s.isMutexBlocked i && s.mutex == 0 then
    { s.setState i taskReady with mutex := 1 }
  else s

def kTaskUpdateState (s : Kernel) : Kernel :=
  (List.range' 1 s.registeredTasks).foldl updateTask s

/-- The `do .. while` loop of `k_task_peek_next` from the idle task. `fuel`
bounds the number of turns. -/
def scanFromIdle (s : Kernel) : Nat → Nat → Option Nat
  | 0, _ => none
  | fuel + 1, tid =>
      let tid := tid + 1
      if tid > s.registeredTasks then some 0
      else if s.isReady tid then some tid
      else scanFromIdle s fuel tid

/-- The other loop of `k_task_peek_next`, from the task `ctid`. -/
def scanFromTask (s : Kernel) (ctid : Nat) : Nat → Nat → Option Nat
  | 0, _ => none
  | fuel + 1, tid =>
      let tid := if tid + 1 > s.registeredTasks then 1 else tid + 1
      if tid = ctid then some 0
      else if s.isReady tid then some tid
      else scanFromTask s ctid fuel tid

/-- The two loops of `k_task_peek_next` behind their common test. -/
def scan (s : Kernel) (ctid : Nat) : Option Nat :=
  if ctid = 0 then scanFromIdle s (s.registeredTasks + 1) ctid
  else scanFromTask s ctid (s.registeredTasks + 1) ctid

def kTaskPeekNext (s : Kernel) (ctid : Nat) : Option (Kernel × Nat) :=
  if s.registeredTasks = 0 then some (s, 0)
  else
    let s := kTaskUpdateState s
    match scan s ctid with
    | none => none
    | some 0 => some (s, 0)
    | some next => some ({ s with sysTick := s.sysTick.writeVal }, next)

/-- The end of every scheduling function: choose a task and mark it running. -/
def chooseTask (s : Kernel) : Option Kernel :=
  match kTaskPeekNext s s.currentTid with
  | none => none
  | some (s, next) =>
      let s := { s with currentTid := next }
      some (s.setState s.currentTid taskRunning)

/-- `scheduler` up to its choice of a task. -/
def leaveTick (s : Kernel) : Kernel :=
  let s := s.setState s.currentTid taskReady
  let s := { s with jiffy := s.jiffy + 1 }
  if s.signalFlag ≠ 0 then
    let entry := s.tasks s.currentTid
    let s := s.setTask s.currentTid
      { entry with
        state := taskCreated ||| taskBlocked
        sleepUntil := 0
        signalFlag := s.signalFlag.toUInt32 }
    { s with signalFlag := 0 }
  else s

def scheduler (s : Kernel) : Option Kernel :=
  chooseTask (leaveTick s)

/-- `k_task_sleep` up to its choice of a task. -/
def leaveSleep (stime : Int32) (s : Kernel) : Kernel :=
  let entry := s.tasks s.currentTid
  s.setTask s.currentTid
    { entry with
      state := taskBlocked
      sleepUntil := s.jiffy + stime
      signalFlag := 0 }

def kTaskSleep (stime : Int32) (s : Kernel) : Option Kernel :=
  chooseTask (leaveSleep stime s)

/-- `k_task_yield` up to its choice of a task. -/
def leaveYield (s : Kernel) : Kernel :=
  s.setState s.currentTid taskReady

def kTaskYield (s : Kernel) : Option Kernel :=
  chooseTask (leaveYield s)

/-- The contended branch of `k_mutex_lock` up to its choice of a task. -/
def leaveLock (s : Kernel) : Kernel :=
  s.setState s.currentTid taskMutexBlocked

def kMutexLock (s : Kernel) : Option Kernel :=
  if s.mutex = 0 then some { s with mutex := 1 }
  else chooseTask (leaveLock s)

def kMutexUnlock (s : Kernel) : Kernel :=
  { s with mutex := 0 }

/-- One `push` of the inline assembly of `k_task_register`. -/
def push (stack : UInt32 × (UInt32 → UInt32)) (word : UInt32) :
    UInt32 × (UInt32 → UInt32) :=
  (stack.1 - 4, Function.update stack.2 (stack.1 - 4) word)

/-- The words pushed for a new task, in the order of the pushes (the build
defines `STACK_DEBUG`): the debug mark, xPSR, pc, lr, r12, r3, r2, r1, r0. -/
def stackFrame (taskFunc : UInt32) : List UInt32 :=
  [0xDEADBEEF, 0x21000000, taskFunc, taskFunc, 0, 0, 0, 0, 0]

/-- `&THREAD_STACK_TOP - 512 * tid`. The symbol is declared as an object of
pointer type, so one element of the pointer arithmetic is 4 bytes. -/
def taskStack (board : Board) (tid : Nat) : UInt32 :=
  board.threadStackTop - UInt32.ofNat (4 * (512 * tid))

def kTaskRegister (board : Board) (taskFunc : UInt32) (s : Kernel) : Kernel × Int32 :=
  let tid := s.registeredTasks + 1
  if tid ≥ maxTasks then (s, -1)
  else
    let sp := taskStack board tid
    let memory := ((stackFrame taskFunc).foldl push (sp, s.memory)).2
    let s := { s with memory := memory }
    let entry := s.tasks tid
    let s := s.setTask tid { entry with sp := sp - 36, state := taskReady }
    ({ s with registeredTasks := s.registeredTasks + 1 }, 0)

def signalRaise (signal : UInt32) (s : Kernel) : Kernel :=
  { s with signalsFlags := s.signalsFlags ||| signal }

/-- `signal_wait` up to its waiting loop, which spins while `signal_flag` is
not zero. -/
def signalWait (signal : UInt32) (s : Kernel) : Kernel :=
  { s with signalFlag := signal.toInt32, sysTick := s.sysTick.writeVal }

def svcYield : UInt8 := 0
def svcSleep : UInt8 := 1
def svcMutexLock : UInt8 := 2
def svcMutexUnlock : UInt8 := 3

/-- `SVC_C_Handler`: the service number is the immediate byte of the `SVC`
instruction and `r0` the first stacked word. Other numbers do nothing. -/
def svcCHandler (svcNumber : UInt8) (r0 : UInt32) (s : Kernel) : Option Kernel :=
  if svcNumber = svcSleep then kTaskSleep r0.toInt32 s
  else if svcNumber = svcYield then kTaskYield s
  else if svcNumber = svcMutexLock then kMutexLock s
  else if svcNumber = svcMutexUnlock then some (kMutexUnlock s)
  else some s

end PascalScheduler
