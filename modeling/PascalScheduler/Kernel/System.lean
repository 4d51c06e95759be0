import PascalScheduler.Kernel.Decision
import PascalScheduler.Library.Transition

/-!
The kernel as a transition system. Timer ticks and raised signals arrive at any
moment; the supervisor calls and `signal_wait` are issued by the running
registered task, which does nothing else while `signal_wait` spins. Each action
is atomic: SVC has priority over SysTick and neither interrupts the other.
-/

namespace PascalScheduler

inductive Action where
  | tick
  | yield
  | sleep (stime : Int32)
  | mutexLock
  | mutexUnlock
  | signalWait (signal : UInt32)
  | signalRaise (signal : UInt32)
  | register (taskFunc : UInt32)

/-- Who may act. Registration is open to whoever runs, which includes the loop
of `_kernel_entry` that registers the tasks from idle. -/
def Enabled (s : Kernel) : Action → Prop
  | .tick | .signalRaise _ => True
  | .register _ => s.signalFlag = 0
  | .yield | .sleep _ | .mutexLock | .mutexUnlock | .signalWait _ =>
      s.currentTid ≠ 0 ∧ s.signalFlag = 0

/-- What an action runs. The supervisor calls go through `SVC_C_Handler`. -/
def perform (board : Board) (s : Kernel) : Action → Option Kernel
  | .tick => scheduler s
  | .yield => svcCHandler svcYield 0 s
  | .sleep stime => svcCHandler svcSleep stime.toUInt32 s
  | .mutexLock => svcCHandler svcMutexLock 0 s
  | .mutexUnlock => svcCHandler svcMutexUnlock 0 s
  | .signalWait signal => some (signalWait signal s)
  | .signalRaise signal => some (signalRaise signal s)
  | .register taskFunc => some (kTaskRegister board taskFunc s).1

def system (board : Board) : Transition.System Kernel Action where
  init s := ∃ timer memory, s = schedulerInit board (startUp timer memory)
  step s a t := Enabled s a ∧ perform board s a = some t

instance (s : Kernel) (a : Action) : Decidable (Enabled s a) :=
  match a with
  | .tick | .signalRaise _ => .isTrue trivial
  | .register _ => inferInstanceAs (Decidable (s.signalFlag = 0))
  | .yield | .sleep _ | .mutexLock | .mutexUnlock | .signalWait _ =>
      inferInstanceAs (Decidable (s.currentTid ≠ 0 ∧ s.signalFlag = 0))

/-- The step function of the system. -/
def next (board : Board) (s : Kernel) (a : Action) : Option Kernel :=
  if Enabled s a then perform board s a else none

theorem next_step (board : Board) (s : Kernel) (a : Action) (t : Kernel)
    (h : next board s a = some t) : (system board).step s a t := by
  rw [next] at h
  split at h
  · rename_i henabled
    exact ⟨henabled, h⟩
  · cases h

def execute (board : Board) (s : Kernel) (as : List Action) : Option Kernel :=
  Transition.run (next board) s as

/-- An XMC1100 at 32 MHz, with an 8 KiB heap and stack at the end of 12 KiB. Its
timer refuses a reload value of more than 24 bits. -/
def xmc1100 : Board where
  threadStackTop := 0x20003000
  systemCoreClock := 32000000
  sysTickConfig ticks timer :=
    if ticks - 1 > 0xFFFFFF then timer else { load := ticks - 1, elapsed := 0 }

def boot (board : Board) : Kernel :=
  schedulerInit board (startUp { load := 0, elapsed := 0 } (fun _ => 0))

theorem boot_reachable (board : Board) : Transition.Reachable (system board) (boot board) :=
  Transition.reachable_init ⟨_, _, rfl⟩

theorem execute_reachable {board : Board} {s : Kernel} {as : List Action}
    (h : execute board (boot board) as = some s) :
    Transition.Reachable (system board) s := by
  obtain ⟨tr, hpath, _⟩ := Transition.run_path (next_step board) h
  exact hpath.reachable (boot_reachable board)

/-- The kernel an action hands to its scheduling decision, for the actions that
make one. -/
def leave (s : Kernel) : Action → Option Kernel
  | .tick => some (leaveTick s)
  | .yield => some (leaveYield s)
  | .sleep stime => some (leaveSleep stime s)
  | .mutexLock => if s.mutex = 0 then none else some (leaveLock s)
  | _ => none

/-- The states a task can be left in when it stops running. -/
def Parked (state : UInt32) : Prop :=
  state = taskReady ∨ state = taskBlocked ∨
    state = (taskCreated ||| taskBlocked) ∨ state = taskMutexBlocked

instance (state : UInt32) : Decidable (Parked state) :=
  inferInstanceAs (Decidable (_ ∨ _ ∨ _ ∨ _))

theorem parked_ready : Parked taskReady := .inl rfl

theorem parked_blocked : Parked taskBlocked := .inr (.inl rfl)

theorem parked_signal : Parked (taskCreated ||| taskBlocked) := .inr (.inr (.inl rfl))

theorem parked_mutexBlocked : Parked taskMutexBlocked := .inr (.inr (.inr rfl))

/-- The tick counter and the pending signal when the decision is made. -/
def leftJiffy (s : Kernel) : Action → Int32
  | .tick => s.jiffy + 1
  | _ => s.jiffy

def leftSignal (s : Kernel) : Action → Int32
  | .tick => 0
  | _ => s.signalFlag

/-- The entry of the task that stops, as the action leaves it. -/
def leftEntry (s : Kernel) : Action → TaskStruct
  | .tick =>
      if s.signalFlag = 0 then { s.tasks s.currentTid with state := taskReady }
      else
        { s.tasks s.currentTid with
          state := taskCreated ||| taskBlocked
          sleepUntil := 0
          signalFlag := s.signalFlag.toUInt32 }
  | .sleep stime =>
      { s.tasks s.currentTid with
        state := taskBlocked
        sleepUntil := s.jiffy + stime
        signalFlag := 0 }
  | .mutexLock => { s.tasks s.currentTid with state := taskMutexBlocked }
  | _ => { s.tasks s.currentTid with state := taskReady }

/-- Before its decision an action changes one entry, the tick counter and the
pending signal. -/
theorem leave_eq {s o : Kernel} {a : Action} (h : leave s a = some o) :
    o = { s.setTask s.currentTid (leftEntry s a) with
      jiffy := leftJiffy s a, signalFlag := leftSignal s a } := by
  cases a with
  | tick =>
      obtain rfl := Option.some.inj h
      by_cases hflag : s.signalFlag = 0
      · simp [leaveTick, leftEntry, leftJiffy, leftSignal, hflag, Kernel.setState]
      · simp [leaveTick, leftEntry, leftJiffy, leftSignal, hflag, Kernel.setState,
          Kernel.setTask]
  | yield =>
      obtain rfl := Option.some.inj h
      rfl
  | sleep stime =>
      obtain rfl := Option.some.inj h
      rfl
  | mutexLock =>
      simp only [leave] at h
      split at h
      · cases h
      · obtain rfl := Option.some.inj h
        rfl
  | mutexUnlock => cases h
  | signalWait => cases h
  | signalRaise => cases h
  | register => cases h

/-- The kernel `o` handed to a decision, field by field. -/
structure Leaves (s : Kernel) (a : Action) (o : Kernel) : Prop where
  entry : o.tasks s.currentTid = leftEntry s a
  other : ∀ i, i ≠ s.currentTid → o.tasks i = s.tasks i
  currentTid : o.currentTid = s.currentTid
  registeredTasks : o.registeredTasks = s.registeredTasks
  mutex : o.mutex = s.mutex
  jiffy : o.jiffy = leftJiffy s a
  signalFlag : o.signalFlag = leftSignal s a
  signalsFlags : o.signalsFlags = s.signalsFlags
  memory : o.memory = s.memory
  sysTick : o.sysTick = s.sysTick

theorem leave_leaves {s o : Kernel} {a : Action} (h : leave s a = some o) :
    Leaves s a o := by
  rw [leave_eq h]
  refine ⟨?_, ?_, rfl, rfl, rfl, rfl, rfl, rfl, rfl, rfl⟩
  · exact s.setTask_tasks_self _ _
  · intro i hi
    exact (s.setTask_tasks _ _ i).trans (if_neg hi)

theorem Leaves.registered_iff {s o : Kernel} {a : Action} (h : Leaves s a o) (i : Nat) :
    o.registered i ↔ s.registered i := by
  rw [Kernel.registered, Kernel.registered, h.registeredTasks]

theorem leftEntry_context (s : Kernel) (a : Action) :
    (leftEntry s a).sp = (s.tasks s.currentTid).sp ∧
      (leftEntry s a).registers = (s.tasks s.currentTid).registers := by
  cases a with
  | tick =>
      simp only [leftEntry]
      split <;> exact ⟨rfl, rfl⟩
  | yield | sleep | mutexLock | mutexUnlock | signalWait | signalRaise | register =>
      exact ⟨rfl, rfl⟩

theorem leftEntry_parked (s : Kernel) (a : Action) : Parked (leftEntry s a).state := by
  cases a with
  | tick =>
      simp only [leftEntry]
      split
      · exact parked_ready
      · exact parked_signal
  | sleep => exact parked_blocked
  | mutexLock => exact parked_mutexBlocked
  | yield | mutexUnlock | signalWait | signalRaise | register => exact parked_ready

/-- No action touches a saved context before its decision. -/
theorem Leaves.context {s o : Kernel} {a : Action} (h : Leaves s a o) (i : Nat) :
    (o.tasks i).sp = (s.tasks i).sp ∧ (o.tasks i).registers = (s.tasks i).registers := by
  by_cases hi : i = s.currentTid
  · rw [hi, h.entry]
    exact leftEntry_context s a
  · rw [h.other i hi]
    exact ⟨rfl, rfl⟩

theorem Leaves.parked {s o : Kernel} {a : Action} (h : Leaves s a o) :
    Parked (o.tasks s.currentTid).state := by
  rw [h.entry]
  exact leftEntry_parked s a

/-- An action that makes a decision is its `leave` part, then the choice. -/
theorem perform_decides {board : Board} {s o : Kernel} {a : Action}
    (h : leave s a = some o) : perform board s a = chooseTask o := by
  cases a with
  | tick =>
      obtain rfl := Option.some.inj h
      rfl
  | yield =>
      obtain rfl := Option.some.inj h
      rfl
  | sleep stime =>
      obtain rfl := Option.some.inj h
      rfl
  | mutexLock =>
      simp only [leave] at h
      split at h
      · cases h
      · rename_i hheld
        obtain rfl := Option.some.inj h
        change kMutexLock s = _
        rw [kMutexLock, if_neg hheld]
  | mutexUnlock => cases h
  | signalWait => cases h
  | signalRaise => cases h
  | register => cases h

/-- `k_task_register` with a free entry: the fields it changes. -/
theorem kTaskRegister_room (board : Board) (taskFunc : UInt32) {s : Kernel}
    (hroom : s.registeredTasks + 1 < maxTasks) :
    let t := (kTaskRegister board taskFunc s).1
    t = { s with
      tasks := t.tasks, registeredTasks := s.registeredTasks + 1, memory := t.memory } ∧
    (∀ i, i ≠ s.registeredTasks + 1 → t.tasks i = s.tasks i) ∧
    t.tasks (s.registeredTasks + 1) =
      { s.tasks (s.registeredTasks + 1) with
        sp := taskStack board (s.registeredTasks + 1) - 36
        state := taskReady } := by
  intro t
  have ht : t = (kTaskRegister board taskFunc s).1 := rfl
  rw [kTaskRegister, if_neg (Nat.not_le.mpr hroom)] at ht
  rw [ht]
  refine ⟨rfl, ?_, ?_⟩
  · intro i hne
    exact (Kernel.setTask_tasks _ _ _ _).trans (if_neg hne)
  · exact Kernel.setTask_tasks_self _ _ _

/-- Every step of the system, with everything it can do. -/
inductive Steps (board : Board) (s : Kernel) : Action → Kernel → Prop where
  | decide {a : Action} {o t : Kernel} (left : leave s a = some o)
      (decision : Decision o t) : Steps board s a t
  | lock (free : s.mutex = 0) : Steps board s .mutexLock { s with mutex := 1 }
  | unlock : Steps board s .mutexUnlock { s with mutex := 0 }
  | wait (signal : UInt32) : Steps board s (.signalWait signal) (signalWait signal s)
  | raise (signal : UInt32) : Steps board s (.signalRaise signal) (signalRaise signal s)
  | register (taskFunc : UInt32) (room : s.registeredTasks + 1 < maxTasks) :
      Steps board s (.register taskFunc) (kTaskRegister board taskFunc s).1
  | full (taskFunc : UInt32) (noRoom : maxTasks ≤ s.registeredTasks + 1) :
      Steps board s (.register taskFunc) s

/-- Every action goes through, and does one of these. -/
theorem perform_exists (board : Board) {s : Kernel} (a : Action)
    (hcur : s.currentTid ≤ s.registeredTasks) :
    ∃ t, perform board s a = some t ∧ Steps board s a t := by
  cases hleave : leave s a with
  | some o =>
      have hleft := leave_leaves hleave
      have hle : o.currentTid ≤ o.registeredTasks := by
        rw [hleft.currentTid, hleft.registeredTasks]
        exact hcur
      obtain ⟨t, hchoose, hdec⟩ := chooseTask_decision o hle
      exact ⟨t, (perform_decides hleave).trans hchoose, .decide hleave hdec⟩
  | none =>
      cases a with
      | tick => cases hleave
      | yield => cases hleave
      | sleep => cases hleave
      | mutexLock =>
          have hfree : s.mutex = 0 := by
            by_contra hheld
            rw [leave, if_neg hheld] at hleave
            cases hleave
          refine ⟨_, ?_, .lock hfree⟩
          change kMutexLock s = _
          rw [kMutexLock, if_pos hfree]
      | mutexUnlock => exact ⟨_, rfl, .unlock⟩
      | signalWait signal => exact ⟨_, rfl, .wait signal⟩
      | signalRaise signal => exact ⟨_, rfl, .raise signal⟩
      | register taskFunc =>
          refine ⟨_, rfl, ?_⟩
          by_cases hroom : s.registeredTasks + 1 < maxTasks
          · exact .register taskFunc hroom
          · have hfull : (kTaskRegister board taskFunc s).1 = s := by
              rw [kTaskRegister, if_pos (Nat.not_lt.mp hroom)]
            rw [hfull]
            exact .full taskFunc (Nat.not_lt.mp hroom)

/-- Inversion of one action, whether or not it makes a decision. -/
theorem perform_steps {board : Board} {s t : Kernel} {a : Action}
    (hcur : s.currentTid ≤ s.registeredTasks) (h : perform board s a = some t) :
    Steps board s a t := by
  obtain ⟨t', hperform, hsteps⟩ := perform_exists board a hcur
  obtain rfl := Option.some.inj (hperform.symm.trans h)
  exact hsteps

/-- No action is stuck: the loops of a decision end. -/
theorem perform_total (board : Board) {s : Kernel} (a : Action)
    (hcur : s.currentTid ≤ s.registeredTasks) :
    ∃ t, perform board s a = some t := by
  obtain ⟨t, hperform, _⟩ := perform_exists board a hcur
  exact ⟨t, hperform⟩

/-- What every step without a decision leaves alone. -/
structure Quiet (s t : Kernel) : Prop where
  currentTid : t.currentTid = s.currentTid
  jiffy : t.jiffy = s.jiffy
  tasks : ∀ i, i ≤ s.registeredTasks → t.tasks i = s.tasks i
  registeredTasks : s.registeredTasks ≤ t.registeredTasks

/-- A step either makes a decision or is quiet. -/
theorem Steps.decides_or_quiet {board : Board} {s t : Kernel} {a : Action}
    (h : Steps board s a t) :
    (∃ o, leave s a = some o ∧ Decision o t) ∨ (leave s a = none ∧ Quiet s t) := by
  cases h with
  | decide hleave hdec => exact .inl ⟨_, hleave, hdec⟩
  | lock hfree =>
      refine .inr ⟨?_, rfl, rfl, fun _ _ => rfl, le_refl _⟩
      rw [leave, if_pos hfree]
  | unlock => exact .inr ⟨rfl, rfl, rfl, fun _ _ => rfl, le_refl _⟩
  | wait => exact .inr ⟨rfl, rfl, rfl, fun _ _ => rfl, le_refl _⟩
  | raise => exact .inr ⟨rfl, rfl, rfl, fun _ _ => rfl, le_refl _⟩
  | register taskFunc hroom =>
      obtain ⟨hframe, hother, _⟩ := kTaskRegister_room board taskFunc hroom
      refine .inr ⟨rfl, by rw [hframe], by rw [hframe], ?_, ?_⟩
      · intro i hi
        exact hother i (by omega)
      · rw [hframe]
        exact Nat.le_succ _
  | full => exact .inr ⟨rfl, rfl, rfl, fun _ _ => rfl, le_refl _⟩

end PascalScheduler
