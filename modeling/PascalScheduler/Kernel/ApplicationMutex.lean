import PascalScheduler.Kernel.Discipline
import PascalScheduler.Library.Refinement

/-!
The mutex under the tasks of an application. When every task locks and unlocks
in turn, a run of the whole is a lawful run of the kernel: the history of
holders that the kernel itself does not keep is read off the positions of the
tasks. Ownership then comes down from the kernel to the code of the tasks.
-/

namespace PascalScheduler

open Transition

variable {board : Board} {tasks : List OsTask} {s t : Os} {l : OsStep}

/-- The tasks that are registered are the first ones of the list. -/
structure Booted (tasks : List OsTask) (s : Os) : Prop where
  count : s.kernel.registeredTasks = s.booted
  listed : s.booted ≤ tasks.length
  start : ∀ i, s.booted < i → s.pcs i = 0
  halted : s.halted = true → s.booted + 1 = maxTasks ∧ s.booted < tasks.length

theorem Booted.kernel {k : Kernel} (h : Booted tasks s)
    (hcount : k.registeredTasks = s.kernel.registeredTasks) :
    Booted tasks { s with kernel := k } where
  count := hcount.trans h.count
  listed := h.listed
  start := h.start
  halted := h.halted

/-- The running task moves on. -/
theorem Booted.advance {k : Kernel} {pc : Nat} (h : Booted tasks s) (hs : Wellformed s.kernel)
    (hcount : k.registeredTasks = s.kernel.registeredTasks) :
    Booted tasks
      { s with kernel := k, pcs := Function.update s.pcs s.kernel.currentTid pc } where
  count := hcount.trans h.count
  listed := h.listed
  start i hi := by
    have hle := hs.current_le
    rw [h.count] at hle
    have hcur : i ≠ s.kernel.currentTid := Nat.ne_of_gt (Nat.lt_of_le_of_lt hle hi)
    exact (Function.update_of_ne hcur ..).trans (h.start i hi)
  halted := h.halted

/-- The statements of a task register nobody. -/
theorem action_count {statement : Statement} {a : Action} {k u : Kernel}
    (haction : statement.action = some a) (hs : Wellformed k)
    (hstep : (system board).step k a u) : u.registeredTasks = k.registeredTasks := by
  cases step_steps hs hstep with
  | decide hleave hdec => exact hdec.registeredTasks.trans (leave_leaves hleave).registeredTasks
  | lock | unlock | wait | raise => rfl
  | register | full => cases statement <;> cases haction

theorem Wellformed.idle_not_spinning {k : Kernel} (hs : Wellformed k) (hidle : k.currentTid = 0) :
    k.signalFlag = 0 := by
  by_contra hne
  exact hs.spinning hne hidle

theorem booted_step (h : Booted tasks s) (hs : Wellformed s.kernel) (hrunning : s.halted = false)
    (hsteps : OsSteps board tasks s l t) : Booted tasks t := by
  cases hsteps with
  | tick hstep =>
      rcases (step_steps hs hstep).decides_or_quiet with ⟨o, hleave, hdec⟩ | ⟨hnone, _⟩
      · exact h.kernel (hdec.registeredTasks.trans (leave_leaves hleave).registeredTasks)
      · cases hnone
  | register hidle hlisted hroom =>
      obtain ⟨hframe, _, _⟩ := kTaskRegister_room board _ hroom
      constructor
      · change (kTaskRegister board _ s.kernel).1.registeredTasks = s.booted + 1
        rw [hframe, ← h.count]
      · exact (List.getElem?_eq_some_iff.mp hlisted).1
      · exact fun i hi => h.start i (Nat.lt_of_succ_lt hi)
      · intro hhalted
        rw [hrunning] at hhalted
        cases hhalted
  | fatal hidle hlisted hfull =>
      have hlt := hs.registered_lt
      have hcount := h.count
      have hlast : s.booted + 1 = maxTasks := by omega
      exact ⟨h.count, h.listed, h.start,
        fun _ => ⟨hlast, (List.getElem?_eq_some_iff.mp hlisted).1⟩⟩
  | idle | spin => exact h
  | compute => exact h.advance hs rfl
  | call hcurrent hflag hruns haction hstep =>
      exact h.advance hs (action_count haction hs hstep)

/-- Whether task `i` has locked the mutex, by where it is in its code. -/
def Os.locked (tasks : List OsTask) (s : Os) (i : Nat) : Bool :=
  (tasks[i - 1]?).any fun task => task.holds (s.pcs i)

/-- A task between a lock and its unlock, unless it still waits for the lock. -/
def Os.inside (tasks : List OsTask) (s : Os) (i : Nat) : Prop :=
  s.kernel.registered i ∧ s.locked tasks i = true ∧ ¬ s.kernel.waitsMutex i

/-- What a step of the whole asks of the kernel. -/
def osActions (tasks : List OsTask) (e : Event Os OsStep) : List Action :=
  match e.label with
  | .tick => [.tick]
  | .run =>
      let k := e.pre.kernel
      if k.currentTid = 0 then
        (tasks[e.pre.booted]?).toList.map fun task => .register task.entry
      else if k.signalFlag ≠ 0 then []
      else
        ((tasks[k.currentTid - 1]?).bind fun task =>
          (task.statement (e.pre.pcs k.currentTid)).action).toList

/-- The kernel of the whole, and a history whose holders are read off the code. -/
structure Follows (tasks : List OsTask) (s : Os) (p : Kernel × Usage) : Prop where
  kernel : p.1 = s.kernel
  wellformed : Wellformed s.kernel
  booted : Booted tasks s
  locks : Locks s.kernel p.2 (s.locked tasks)

section Discipline

variable {task : OsTask} {a : Action} {k : Kernel} {u : Usage} {p : Kernel × Usage}

theorem locked_running
    (hruns : tasks[s.kernel.currentTid - 1]? = some task) :
    s.locked tasks s.kernel.currentTid = task.holds (s.pcs s.kernel.currentTid) := by
  rw [Os.locked, hruns]
  rfl

/-- A statement and the call it makes agree about the lock. -/
theorem after_action {statement : Statement} (h : statement.action = some a) (held : Bool) :
    statement.after held = a.after held := by
  cases statement with
  | compute => cases h
  | sleep | yield | mutexLock | mutexUnlock | signalWait | signalRaise =>
      obtain rfl := Option.some.inj h
      rfl

theorem after_compute {statement : Statement} (h : statement.action = none) (held : Bool) :
    statement.after held = held := by
  cases statement with
  | compute => rfl
  | sleep | yield | mutexLock | mutexUnlock | signalWait | signalRaise => cases h

theorem action_lock {statement : Statement} (h : statement.action = some .mutexLock) :
    statement = .mutexLock := by
  cases statement <;> cases h
  rfl

theorem action_unlock {statement : Statement} (h : statement.action = some .mutexUnlock) :
    statement = .mutexUnlock := by
  cases statement <;> cases h
  rfl

/-- The running task moves on: what it has locked follows its statement. -/
theorem locked_advance (hdisc : task.Disciplined)
    (hruns : tasks[s.kernel.currentTid - 1]? = some task)
    (hpcs : t.pcs = Function.update s.pcs s.kernel.currentTid
      (task.next (s.pcs s.kernel.currentTid))) :
    t.locked tasks = Function.update (s.locked tasks) s.kernel.currentTid
      ((task.statement (s.pcs s.kernel.currentTid)).after
        (s.locked tasks s.kernel.currentTid)) := by
  funext i
  by_cases hcur : i = s.kernel.currentTid
  · subst hcur
    rw [Function.update_self, Os.locked, Os.locked, hruns, hpcs]
    simpa using hdisc.next _
  · rw [Function.update_of_ne hcur, Os.locked, Os.locked, hpcs, Function.update_of_ne hcur]

theorem locked_call (hdisc : task.Disciplined)
    (hruns : tasks[s.kernel.currentTid - 1]? = some task)
    (haction : (task.statement (s.pcs s.kernel.currentTid)).action = some a)
    (hpcs : t.pcs = Function.update s.pcs s.kernel.currentTid
      (task.next (s.pcs s.kernel.currentTid))) :
    t.locked tasks = lockedAfter s.kernel a (s.locked tasks) := by
  rw [locked_advance hdisc hruns hpcs, after_action haction]
  rfl

theorem locked_compute (hdisc : task.Disciplined)
    (hruns : tasks[s.kernel.currentTid - 1]? = some task)
    (hnone : (task.statement (s.pcs s.kernel.currentTid)).action = none)
    (hpcs : t.pcs = Function.update s.pcs s.kernel.currentTid
      (task.next (s.pcs s.kernel.currentTid))) :
    t.locked tasks = s.locked tasks := by
  rw [locked_advance hdisc hruns hpcs, after_compute hnone, Function.update_eq_self]

theorem locked_start (h : s.pcs = fun _ => 0) (i : Nat) : s.locked tasks i = false := by
  rw [Os.locked, h]
  cases tasks[i - 1]? <;> rfl

theorem lockedAfter_quiet (hafter : ∀ held, a.after held = held) (locked : Nat → Bool) :
    locked = lockedAfter k a locked := by
  rw [lockedAfter, hafter, Function.update_eq_self]

/-- The kernel's answer to a step of the whole that calls it. -/
theorem Follows.answer (h : Follows tasks s p) (hlawful : p.2.Lawful s.kernel a)
    (hstep : (system board).step s.kernel a k) (hbooted : Booted tasks t) (hkernel : t.kernel = k)
    (hlocked : t.locked tasks = lockedAfter s.kernel a (s.locked tasks)) :
    ∃ q, (mutexSystem board).step p a q ∧ Follows tasks t q := by
  have hrelated := h.kernel
  refine ⟨(k, p.2.record s.kernel a k), ⟨?_, ?_, ?_⟩, ⟨hkernel.symm, ?_, hbooted, ?_⟩⟩
  · rw [hrelated]
    exact hlawful
  · rw [hrelated]
    exact hstep
  · rw [hrelated]
  · rw [hkernel]
    exact wellformed_step h.wellformed hstep
  · rw [hkernel, hlocked]
    exact h.locks.step h.wellformed hlawful hstep

theorem follows_init (h : (osSystem board tasks).init s) :
    Follows tasks s (s.kernel, Usage.none) := by
  obtain ⟨timer, memory, rfl⟩ := h
  have hzero : ∀ i, ¬ (schedulerInit board (startUp timer memory)).registered i := by
    rintro i ⟨hpos, hle⟩
    have hnone : i ≤ 0 := hle
    omega
  refine ⟨rfl, schedulerInit_wellformed board timer memory, ?_, ?_⟩
  · exact ⟨rfl, Nat.zero_le _, fun _ _ => rfl, by simp⟩
  · constructor
    · intro i
      constructor
      · intro hmem
        exact absurd hmem (Finset.notMem_empty i)
      · exact fun hi => absurd hi.1 (hzero i)
    · exact fun i hi => absurd hi.1 (hzero i)
    · exact fun i _ => locked_start rfl i

/-- Every step of disciplined tasks is lawful calls of the kernel, or none. -/
theorem application_simulation (board : Board)
    (disciplined : ∀ task ∈ tasks, task.Disciplined) :
    Simulation (osSystem board tasks) (mutexSystem board) (osActions tasks) (Follows tasks) where
  init s h := by
    have hfollows := follows_init h
    obtain ⟨timer, memory, rfl⟩ := h
    exact ⟨_, ⟨⟨timer, memory, rfl⟩, rfl⟩, hfollows⟩
  step s l t p h hstep := by
    obtain ⟨hrunning, hsteps⟩ := os_steps hstep
    have hbooted := booted_step h.booted h.wellformed hrunning hsteps
    cases hsteps with
    | tick hone =>
        obtain ⟨q, hq, hrel⟩ := h.answer (a := .tick) trivial hone hbooted rfl
          (lockedAfter_quiet (fun _ => rfl) _)
        exact Simulation.answer rfl hq hrel
    | @register task hidle hlisted hroom =>
        have hflag := h.wellformed.idle_not_spinning hidle
        obtain ⟨q, hq, hrel⟩ := h.answer (a := .register task.entry) trivial ⟨hflag, rfl⟩ hbooted
          rfl (lockedAfter_quiet (fun _ => rfl) _)
        exact Simulation.answer (by simp [osActions, hidle, hlisted]) hq hrel
    | @fatal task hidle hlisted hfull =>
        have hflag := h.wellformed.idle_not_spinning hidle
        have hrefused : (kTaskRegister board task.entry s.kernel).1 = s.kernel := by
          rw [kTaskRegister, if_pos hfull]
        obtain ⟨q, hq, hrel⟩ := h.answer (a := .register task.entry) trivial
          ⟨hflag, congrArg some hrefused⟩ hbooted rfl (lockedAfter_quiet (fun _ => rfl) _)
        exact Simulation.answer (by simp [osActions, hidle, hlisted]) hq hrel
    | idle hidle hall =>
        exact Simulation.stutter (by simp [osActions, hidle, hall]) h
    | spin hcurrent hspinning =>
        exact Simulation.stutter (by simp [osActions, hcurrent, hspinning]) h
    | @compute task hcurrent hflag hruns hstatement =>
        have hdisc := disciplined task (List.mem_of_getElem? hruns)
        refine Simulation.stutter ?_ ⟨h.kernel, h.wellformed, hbooted, ?_⟩
        · simp [osActions, hcurrent, hflag, hruns, hstatement]
        · rw [locked_compute hdisc hruns hstatement rfl]
          exact h.locks
    | @call task a k hcurrent hflag hruns hstatement hone =>
        have hdisc := disciplined task (List.mem_of_getElem? hruns)
        have hholds := locked_running hruns
        have hlawful : p.2.Lawful s.kernel a := by
          apply h.locks.lawful h.wellformed hone.1
          · rintro rfl
            rw [hholds]
            exact hdisc.at_lock (action_lock hstatement)
          · rintro rfl
            rw [hholds]
            exact hdisc.at_unlock (action_unlock hstatement)
        obtain ⟨q, hq, hrel⟩ := h.answer hlawful hone hbooted rfl
          (locked_call hdisc hruns hstatement rfl)
        refine Simulation.answer ?_ hq hrel
        simp [osActions, hcurrent, hflag, hruns, hstatement]

end Discipline

/-- The tasks of `main.c`, wherever they are linked. -/
theorem osTasks_disciplined (uart mutex : UInt32) :
    ∀ task ∈ osTasks uart mutex, task.Disciplined := by
  have huart : (uartTask 0).Disciplined := by decide
  have hmutex : (mutexTask 0).Disciplined := by decide
  intro task htask
  rcases List.mem_pair.mp htask with rfl | rfl
  · exact ⟨huart.lock, huart.unlock, huart.loop⟩
  · exact ⟨hmutex.lock, hmutex.unlock, hmutex.loop⟩

/-- Both tasks of `main.c` are registered and sleep, `mutex_task` with the mutex,
until `uart_task` wakes and asks for it. -/
def contention : List OsStep :=
  List.replicate 2 .run ++ [.tick] ++ List.replicate 10 .run ++ List.replicate 101 .tick ++ [.run]

def osBoot (board : Board) : Os := ⟨boot board, fun _ => 0, 0, false⟩

theorem contention_run :
    ∃ s, run (osNext xmc1100 (osTasks 0x10001100 0x10001200)) (osBoot xmc1100) contention = some s ∧
      s.inside (osTasks 0x10001100 0x10001200) 2 ∧ s.kernel.waitsMutex 1 := by
  obtain ⟨s, hrun, hcount, hlocked, hheld, hwaits⟩ := exists_of_any
    (by decide +kernel : (run (osNext xmc1100 (osTasks 0x10001100 0x10001200)) (osBoot xmc1100)
      contention).any (fun s => decide (s.kernel.registeredTasks = 2 ∧
        s.locked (osTasks 0x10001100 0x10001200) 2 = true ∧
        (s.kernel.tasks 2).state ≠ taskMutexBlocked ∧
        (s.kernel.tasks 1).state = taskMutexBlocked)) = true)
  have hfirst : s.kernel.registered 1 := ⟨Nat.le_refl 1, by omega⟩
  have hsecond : s.kernel.registered 2 := ⟨one_le_two, by omega⟩
  exact ⟨s, hrun, ⟨hsecond, hlocked, fun hw => hheld hw.2⟩, hfirst, hwaits⟩

/-- Every run of disciplined tasks, with ticks between any two of their
statements, makes of the kernel a lawful run of the mutex, whose holders are the
tasks between a lock and an unlock. -/
theorem application_lawful (disciplined : ∀ task ∈ tasks, task.Disciplined) {s₀ : Os}
    {tr : List (Event Os OsStep)} (hinit : (osSystem board tasks).init s₀)
    (hpath : Path (osSystem board tasks) s₀ tr s) :
    ∃ tr' p, Path (mutexSystem board) (s₀.kernel, Usage.none) tr' p ∧
      tr'.map Event.label = tr.flatMap (osActions tasks) ∧ p.1 = s.kernel ∧
      ∀ i, i ∈ p.2.holders ↔ s.inside tasks i := by
  have hsim := application_simulation board disciplined
  obtain ⟨tr', p, hrun, hlabels, hend⟩ := hsim.path hpath (follows_init hinit)
  exact ⟨tr', p, hrun, hlabels, hend.kernel, hend.locks.holders⟩

/-- While `mutex_task` sleeps with the mutex and `uart_task` waits, the history
says so too. -/
theorem application_lawful_contention :
    ∃ s tr tr' p, Path (osSystem xmc1100 (osTasks 0x10001100 0x10001200)) (osBoot xmc1100) tr s ∧
      tr.map Event.label = contention ∧
      Path (mutexSystem xmc1100) (boot xmc1100, Usage.none) tr' p ∧
      tr'.map Event.label = tr.flatMap (osActions (osTasks 0x10001100 0x10001200)) ∧
      2 ∈ p.2.holders ∧ 1 ∉ p.2.holders := by
  obtain ⟨s, hrun, hinside, hwaits⟩ := contention_run
  obtain ⟨tr, hpath, hlabels⟩ := run_path
    (M := osSystem xmc1100 (osTasks 0x10001100 0x10001200)) (fun _ _ _ h => h) hrun
  obtain ⟨tr', p, hlawful, hactions, _, hholders⟩ :=
    application_lawful (osTasks_disciplined 0x10001100 0x10001200) ⟨_, _, rfl⟩ hpath
  exact ⟨s, tr, tr', p, hpath, hlabels, hlawful, hactions, (hholders 2).mpr hinside,
    fun hmem => ((hholders 1).mp hmem).2.2 hwaits⟩

/-- In every reachable state of disciplined tasks: at most one task is between a
lock and an unlock, `mutex` says whether there is one, a task that waits stands
behind a lock, and a task about to unlock is the one inside. -/
theorem application_mutual_exclusion (disciplined : ∀ task ∈ tasks, task.Disciplined)
    (h : Reachable (osSystem board tasks) s) :
    (∀ i j, s.inside tasks i → s.inside tasks j → i = j) ∧
      (s.kernel.mutex = 1 ↔ ∃ i, s.inside tasks i) ∧
      (∀ i, s.kernel.waitsMutex i → s.locked tasks i = true) ∧
      ∀ task, s.kernel.currentTid ≠ 0 → tasks[s.kernel.currentTid - 1]? = some task →
        task.statement (s.pcs s.kernel.currentTid) = .mutexUnlock →
        s.inside tasks s.kernel.currentTid := by
  have hsim := application_simulation board disciplined
  obtain ⟨p, hp, hrel⟩ := hsim.reachable h
  have hholders := hrel.locks.holders
  refine ⟨?_, ?_, hrel.locks.waiting, ?_⟩
  · intro i j hi hj
    have hi' := (hholders i).mpr hi
    have hj' := (hholders j).mpr hj
    cases ((owned_invariant board).reachable hp).2 with
    | free _ hnone =>
        rw [hnone] at hi'
        exact absurd hi' (Finset.notMem_empty i)
    | held owner _ howner =>
        rw [howner, Finset.mem_singleton] at hi' hj'
        exact hi'.trans hj'.symm
  · simp only [← hrel.kernel]
    cases ((owned_invariant board).reachable hp).2 with
    | free hmutex hnone =>
        constructor
        · intro hone
          exact absurd hmutex (Kernel.mutex_taken hone)
        · rintro ⟨i, hi⟩
          have hi' := (hholders i).mpr hi
          rw [hnone] at hi'
          exact absurd hi' (Finset.notMem_empty i)
    | held owner hmutex howner =>
        refine ⟨fun _ => ⟨owner, (hholders owner).mp ?_⟩, fun _ => hmutex⟩
        rw [howner]
        exact Finset.mem_singleton_self owner
  · intro task hcurrent hruns hunlock
    have hdisc := disciplined task (List.mem_of_getElem? hruns)
    have hwf := hrel.wellformed
    refine ⟨⟨Nat.pos_of_ne_zero hcurrent, hwf.current_le⟩, ?_, current_not_waits hwf⟩
    rw [locked_running hruns]
    exact hdisc.at_unlock hunlock

/-- `uart_task` waits behind its lock for `mutex_task`, which alone is inside. -/
theorem application_mutual_exclusion_contention :
    ∃ s, Reachable (osSystem xmc1100 (osTasks 0x10001100 0x10001200)) s ∧
      s.kernel.waitsMutex 1 ∧ s.locked (osTasks 0x10001100 0x10001200) 1 = true ∧
      s.kernel.mutex = 1 ∧ ∀ i, s.inside (osTasks 0x10001100 0x10001200) i ↔ i = 2 := by
  obtain ⟨s, hrun, hinside, hwaits⟩ := contention_run
  obtain ⟨tr, hpath, _⟩ := run_path
    (M := osSystem xmc1100 (osTasks 0x10001100 0x10001200)) (fun _ _ _ h => h) hrun
  have hreach : Reachable (osSystem xmc1100 (osTasks 0x10001100 0x10001200)) s :=
    ⟨_, tr, ⟨_, _, rfl⟩, hpath⟩
  obtain ⟨hone, hmutex, hbehind, _⟩ :=
    application_mutual_exclusion (osTasks_disciplined 0x10001100 0x10001200) hreach
  refine ⟨s, hreach, hwaits, hbehind 1 hwaits, hmutex.mpr ⟨2, hinside⟩, ?_⟩
  intro i
  constructor
  · exact fun hi => hone i 2 hi hinside
  · rintro rfl
    exact hinside

end PascalScheduler
