import PascalScheduler.Kernel.MutexRelease

/-!
The task that `k_task_peek_next` selects, in any table whose entries are in the
scheduler's states, reached by a run or not. The answer is compared with a
search through the cyclic order of the tasks, and the entries that
`k_task_update_state` changes are named by their states.
-/

namespace PascalScheduler

open RoundRobin

/-- The states that `scheduler.c` gives a task. -/
def Scheduled (state : UInt32) : Prop :=
  Parked state ∨ state = taskRunning

namespace Kernel

/-- BLOCKED, on its own or with CREATED, and the deadline has passed. -/
def overdue (s : Kernel) (i : Nat) : Prop :=
  s.registered i ∧
    ((s.tasks i).state = taskBlocked ∨ (s.tasks i).state = (taskCreated ||| taskBlocked)) ∧
    (s.tasks i).sleepUntil < s.jiffy

/-- The MUTEX_BLOCKED task with the lowest number. -/
def firstWaiter (s : Kernel) (i : Nat) : Prop :=
  s.waitsMutex i ∧ ∀ j, j < i → ¬ s.waitsMutex j

/-- The entries that are due for a change. -/
def updates (s : Kernel) (i : Nat) : Prop :=
  s.overdue i ∨ (s.mutex = 0 ∧ s.firstWaiter i)

end Kernel

variable {s : Kernel} {i : Nat}

theorem scheduled_isReady {state : UInt32} (h : Scheduled state) :
    (state &&& taskReady != 0) = decide (state = taskReady) := by
  rcases h with (rfl | rfl | rfl | rfl) | rfl <;> decide

theorem scheduled_isBlocked {state : UInt32} (h : Scheduled state) :
    (state &&& taskBlocked != 0) = true ↔
      state = taskBlocked ∨ state = (taskCreated ||| taskBlocked) := by
  rcases h with (rfl | rfl | rfl | rfl) | rfl <;> decide

theorem wakes_iff_overdue (hstates : ∀ i, s.registered i → Scheduled (s.tasks i).state) :
    s.wakes i ↔ s.overdue i := by
  constructor
  · rintro ⟨hreg, hbit, hpast⟩
    exact ⟨hreg, (scheduled_isBlocked (hstates i hreg)).mp hbit, hpast⟩
  · rintro ⟨hreg, hstate, hpast⟩
    exact ⟨hreg, (scheduled_isBlocked (hstates i hreg)).mpr hstate, hpast⟩

theorem awaits_iff_waits (hstates : ∀ i, s.registered i → Scheduled (s.tasks i).state) :
    s.awaitsMutex i ↔ s.waitsMutex i := by
  by_cases hreg : s.registered i
  · rcases hstates i hreg with hparked | hrunning
    · exact awaitsMutex_iff hparked
    · simp only [Kernel.awaitsMutex, Kernel.waitsMutex, Kernel.isMutexBlocked, hrunning]
      simp [running_ne_mutexBlocked, show taskRunning &&& taskMutexBlocked = 0 by decide]
  · exact ⟨fun h => absurd h.1 hreg, fun h => absurd h.1 hreg⟩

theorem readied_iff_updates (hstates : ∀ i, s.registered i → Scheduled (s.tasks i).state) :
    s.readied i ↔ s.updates i := by
  simp only [Kernel.readied, Kernel.updates, Kernel.granted, Kernel.firstWaiter,
    wakes_iff_overdue hstates, awaits_iff_waits hstates]

/-- An entry due for a change is not READY yet. -/
theorem Kernel.updates.not_ready (h : s.updates i) : (s.tasks i).state ≠ taskReady := by
  rcases h with ⟨_, hstate, _⟩ | ⟨_, ⟨_, hstate⟩, _⟩
  · rcases hstate with hstate | hstate <;> rw [hstate] <;> decide
  · rw [hstate]
    exact ready_ne_mutexBlocked.symm

/-- `k_task_update_state` makes the entries that are due READY and leaves the
others as they are. -/
theorem kTaskUpdateState_tasks (hstates : ∀ i, s.registered i → Scheduled (s.tasks i).state) :
    (s.updates i → (kTaskUpdateState s).tasks i = { s.tasks i with state := taskReady }) ∧
      (¬ s.updates i → (kTaskUpdateState s).tasks i = s.tasks i) := by
  have hu := kTaskUpdateState_updated s
  rw [← readied_iff_updates hstates]
  exact ⟨fun hr => hu.readied i hr.registered.2 hr, fun hr => hu.kept i (fun _ => hr)⟩

theorem kTaskUpdateState_changes_iff
    (hstates : ∀ i, s.registered i → Scheduled (s.tasks i).state) :
    (kTaskUpdateState s).tasks i ≠ s.tasks i ↔ s.updates i := by
  have hentry := kTaskUpdateState_tasks (i := i) hstates
  constructor
  · intro hchanged
    by_contra hnot
    exact hchanged (hentry.2 hnot)
  · intro hdue hsame
    have hready := congrArg TaskStruct.state (hentry.1 hdue)
    rw [hsame] at hready
    exact hdue.not_ready hready

theorem kTaskUpdateState_isReady
    (hstates : ∀ i, s.registered i → Scheduled (s.tasks i).state) (hi : s.registered i) :
    (kTaskUpdateState s).isReady i =
      decide (((kTaskUpdateState s).tasks i).state = taskReady) := by
  have hentry := kTaskUpdateState_tasks (i := i) hstates
  apply scheduled_isReady
  by_cases hdue : s.updates i
  · rw [hentry.1 hdue]
    exact .inl parked_ready
  · rw [hentry.2 hdue]
    exact hstates i hi

/-- From any task of the table, or from idle, `k_task_peek_next` ends and
answers with the first task in cyclic order that is READY once the states are
updated; the update makes the overdue tasks READY, and the first waiter when
the mutex is free, and changes no other entry. -/
theorem task_selection (s : Kernel) (ctid : Nat) (hctid : ctid ≤ s.registeredTasks)
    (hstates : ∀ i, s.registered i → Scheduled (s.tasks i).state) :
    (∃ t, kTaskPeekNext s ctid = some (t, ((order s.registeredTasks ctid).find? fun i =>
        decide (((kTaskUpdateState s).tasks i).state = taskReady)).getD 0) ∧
      t.tasks = (kTaskUpdateState s).tasks) ∧
    ∀ i, ((kTaskUpdateState s).tasks i ≠ s.tasks i ↔ s.updates i) ∧
      (s.updates i →
        (kTaskUpdateState s).tasks i = { s.tasks i with state := taskReady }) := by
  refine ⟨?_, fun i => ⟨kTaskUpdateState_changes_iff hstates,
    (kTaskUpdateState_tasks hstates).1⟩⟩
  obtain ⟨x, hpeek, hpicks⟩ := kTaskPeekNext_picks s ctid hctid
  have hfind := picks_find
    (fun i => decide (((kTaskUpdateState s).tasks i).state = taskReady)) hctid
  have hsame := hpicks.unique (hfind.congr fun i hpos hle => by
    rw [kTaskUpdateState_isReady hstates ⟨hpos, hle⟩])
  rw [← hsame]
  exact ⟨_, hpeek, rfl⟩

/-- Seen from task 2: task 1 waits for the free mutex, task 2 runs, task 3
sleeps for longer, task 4 is overdue, task 5 waits for the mutex as well. -/
def mixedTable : Kernel :=
  let entry (state : UInt32) (sleepUntil : Int32) : TaskStruct :=
    { TaskStruct.zero with state, sleepUntil }
  let tasks : Nat → TaskStruct
    | 1 | 5 => entry taskMutexBlocked 0
    | 2 => entry taskRunning 0
    | 3 => entry taskBlocked 100
    | 4 => entry (taskCreated ||| taskBlocked) 0
    | _ => TaskStruct.zero
  { startUp ⟨0, 0⟩ (fun _ => 0) with tasks, registeredTasks := 5, currentTid := 2, jiffy := 7 }

theorem task_selection_mixed :
    (∃ t, kTaskPeekNext mixedTable 2 = some (t, 4) ∧
      t.tasks = (kTaskUpdateState mixedTable).tasks) ∧
    mixedTable.updates 1 ∧ mixedTable.updates 4 ∧ ¬ mixedTable.updates 5 := by
  have hstates : ∀ i, mixedTable.registered i → Scheduled (mixedTable.tasks i).state := by
    rintro i ⟨hpos, hle⟩
    have hle : i ≤ 5 := hle
    interval_cases i <;> simp [mixedTable, Scheduled, Parked]
  have hanswer : ((order mixedTable.registeredTasks 2).find? fun i =>
      decide (((kTaskUpdateState mixedTable).tasks i).state = taskReady)).getD 0 = 4 := by
    decide +kernel
  have hchanged : ∀ i ∈ [1, 4],
      ((kTaskUpdateState mixedTable).tasks i).state ≠ (mixedTable.tasks i).state := by
    decide +kernel
  have hwaiting : ((kTaskUpdateState mixedTable).tasks 5).state ≠ taskReady := by
    decide +kernel
  obtain ⟨hpeek, hentries⟩ := task_selection mixedTable 2 (by decide) hstates
  refine ⟨hanswer ▸ hpeek, ?_, ?_, ?_⟩
  · exact (hentries 1).1.mp (fun h => hchanged 1 (by simp) (congrArg TaskStruct.state h))
  · exact (hentries 4).1.mp (fun h => hchanged 4 (by simp) (congrArg TaskStruct.state h))
  · exact fun h => hwaiting (congrArg TaskStruct.state ((hentries 5).2 h))

end PascalScheduler
