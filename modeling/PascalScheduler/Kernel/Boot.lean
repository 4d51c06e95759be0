import PascalScheduler.Arch.Contexts
import PascalScheduler.Arch.MemoryLayout
import PascalScheduler.Kernel.ApplicationMutex
import PascalScheduler.Kernel.Starvation

/-!
The loop of `_kernel_entry`, which registers the tasks from idle while ticks
arrive already. What is registered is a beginning of the list, and a task that
has not run yet waits with the stack frame that was pushed for it, whatever the
others do to their stacks. But idle is no task: it runs only when no other task
is READY, and a tick between two registrations may be the last that it sees.
-/

namespace PascalScheduler

open Transition RoundRobin

/-- The loop has tasks left, and registers none of them any more. -/
def Starved (board : Board) (tasks : List OsTask) (s : Os) : Prop :=
  s.booted < tasks.length ∧
    ∀ tr t, Path (osSystem board tasks) s tr t → t.booted = s.booted

/-- Statements that leave a task READY or running, whatever the others do. -/
def Statement.busy : Statement → Bool
  | .compute | .yield | .mutexUnlock | .signalRaise _ => true
  | .sleep _ | .mutexLock | .signalWait _ => false

def OsTask.Busy (task : OsTask) : Prop :=
  ∀ statement ∈ task.code, statement.busy = true

instance (task : OsTask) : Decidable task.Busy :=
  inferInstanceAs (Decidable (∀ statement ∈ task.code, statement.busy = true))

/-- The words of the stack of a task. Idle has the ones below the top. -/
def ownStack (board : Board) (tid : Nat) : Set UInt32 :=
  {a | ∃ n, n < 512 ∧ a = taskStack board tid - UInt32.ofNat (4 * (n + 1))}

/-- What `osSystem` leaves out: the running task writes to its own stack, where
exceptions push its registers too, and `task_save_context` overwrites the stack
pointer and the registers in its entry. -/
structure UsesStack (board : Board) (tid : Nat) (k k' : Kernel) : Prop where
  frame : k' = { k with tasks := k'.tasks, memory := k'.memory }
  others : ∀ i, i ≠ tid → k'.tasks i = k.tasks i
  context : k'.tasks tid =
    { k.tasks tid with sp := (k'.tasks tid).sp, registers := (k'.tasks tid).registers }
  memory : ∀ a, a ∉ ownStack board tid → k'.memory a = k.memory a

/-- Every registered task that has not run has its own stack frame, as it was
pushed. -/
def FramesKept (board : Board) (tasks : List OsTask) (ran : Nat → Prop) (s : Os) : Prop :=
  ∀ i task, i < s.booted → tasks[i]? = some task → ¬ ran (i + 1) →
    (s.kernel.tasks (i + 1)).sp = taskStack board (i + 1) - 36 ∧
      ∀ k (hk : k < 9), s.kernel.memory (taskStack board (i + 1) - UInt32.ofNat (4 * (k + 1))) =
        (stackFrame task.entry)[k]

variable {board : Board} {tasks : List OsTask} {s t : Os} {l : OsStep} {task : OsTask}
  {k : Kernel} {a : Action}
  {ran : Nat → Prop}

section Frames

/-- Only a registration writes to the stacks. -/
theorem Steps.memory {s t : Kernel} (h : Steps board s a t)
    (hother : ∀ taskFunc, a ≠ .register taskFunc) : t.memory = s.memory := by
  cases h with
  | decide hleave hdec => exact hdec.memory.trans (leave_leaves hleave).memory
  | lock | unlock | wait | raise => rfl
  | register taskFunc | full taskFunc => exact absurd rfl (hother taskFunc)

end Frames

/-- What holds of every run from the reset on. -/
structure Started (tasks : List OsTask) (s : Os) : Prop where
  wellformed : Wellformed s.kernel
  booted : Booted tasks s

theorem started_init (h : (osSystem board tasks).init s) : Started tasks s := by
  have hfollows := follows_init h
  exact ⟨hfollows.wellformed, hfollows.booted⟩

theorem kernel_step (hs : Wellformed s.kernel) (hsteps : OsSteps board tasks s l t) :
    Wellformed t.kernel := by
  cases hsteps with
  | tick hstep => exact wellformed_step hs hstep
  | register _ _ hroom => exact register_wellformed _ hs hroom
  | fatal | idle | spin | compute => exact hs
  | call _ _ _ _ hstep => exact wellformed_step hs hstep

theorem started_step (h : Started tasks s) (hstep : (osSystem board tasks).step s l t) :
    Started tasks t := by
  obtain ⟨hrunning, hsteps⟩ := os_steps hstep
  exact ⟨kernel_step h.wellformed hsteps, booted_step h.booted h.wellformed hrunning hsteps⟩

theorem started_invariant (board : Board) (tasks : List OsTask) :
    Invariant (osSystem board tasks) (Started tasks) where
  init _ h := started_init h
  step _ _ _ h hstep := started_step h hstep

theorem reachable_started (h : Reachable (osSystem board tasks) s) : Started tasks s :=
  (started_invariant board tasks).reachable h

section Stacks

theorem UsesStack.refl (board : Board) (tid : Nat) (k : Kernel) : UsesStack board tid k k :=
  ⟨rfl, fun _ _ => rfl, rfl, fun _ _ => rfl⟩

theorem UsesStack.states {tid : Nat} {k k' : Kernel} (h : UsesStack board tid k k') (i : Nat) :
    (k'.tasks i).state = (k.tasks i).state := by
  by_cases hi : i = tid
  · rw [hi, h.context]
  · rw [h.others i hi]

theorem FramesKept.mono {ran' : Nat → Prop} (h : FramesKept board tasks ran s)
    (hmore : ∀ tid, ran tid → ran' tid) : FramesKept board tasks ran' s := by
  intro i task hi hlisted hwaits
  exact h i task hi hlisted (mt (hmore (i + 1)) hwaits)

end Stacks

/-- Until `fatal` no step is stuck: there is a task behind every task id. -/
theorem os_enabled (h : Started tasks s) (hrunning : s.halted = false) (l : OsStep) :
    ∃ t, (osSystem board tasks).step s l t := by
  have hs := h.wellformed
  have hnot : ¬ s.halted = true := by simp [hrunning]
  cases l with
  | tick =>
      obtain ⟨k, hk⟩ := perform_total board .tick hs.current_le
      refine ⟨{ s with kernel := k }, ?_⟩
      change osNext board tasks s .tick = _
      rw [osNext, if_neg hnot, hk]
      rfl
  | run =>
      change ∃ t, osNext board tasks s .run = some t
      rw [osNext, if_neg hnot]
      split_ifs with hidle
      · exact ⟨_, rfl⟩
      · have hlt : s.kernel.currentTid - 1 < tasks.length := by
          have hle := hs.current_le
          have hlisted := h.booted.listed
          rw [h.booted.count] at hle
          omega
        rw [List.getElem?_eq_getElem hlt, Option.bind_some, runStatement]
        split_ifs with hflag
        · exact ⟨s, rfl⟩
        · split
          · exact ⟨_, rfl⟩
          · rename_i a haction
            obtain ⟨k, hk⟩ := perform_total board a hs.current_le
            exact ⟨_, by rw [hk]; rfl⟩

section Starvation

theorem busy_statement (h : task.Busy) (pc : Nat) : (task.statement pc).busy = true := by
  by_cases hpc : pc < task.code.length
  · rw [OsTask.statement, List.getD_eq_getElem _ _ hpc]
    exact h _ (List.getElem_mem hpc)
  · rw [OsTask.statement_beyond (by omega)]
    rfl

/-- Two tasks are registered, one of them runs and the other is READY. -/
structure Spins (s : Os) : Prop where
  crowd : ∃ c m, (c = 1 ∨ c = 2) ∧ Crowd 2 c {1, 2} m s.kernel
  booted : s.booted = 2

/-- Nobody waits for the mutex. -/
theorem nobody_handed (m : Int32) : HandsTo 2 {1, 2} m ∅ := by
  intro i
  simp only [Finset.notMem_empty, Finset.mem_insert, Finset.mem_singleton, false_iff]
  omega

theorem spins_decide {c : Nat} {m : Int32} {o : Kernel} (hpos : c = 0 ∨ c = 1 ∨ c = 2)
    (h : Crowd 2 c {1, 2} m s.kernel) (hleave : leave s.kernel a = some o)
    (hready : (leftEntry s.kernel a).state = taskReady)
    (hstep : (system board).step s.kernel a k) :
    ∃ c m, (c = 1 ∨ c = 2) ∧ Crowd 2 c {1, 2} m k := by
  have hwf := wellformed_step h.wellformed hstep
  have hflag := leave_signalFlag hstep.1 hleave
  have hdec : Decision o k := by
    rcases (step_steps h.wellformed hstep).decides_or_quiet with ⟨o', hleave', hdec⟩ | ⟨hnone, _⟩
    · obtain rfl := Option.some.inj (hleave'.symm.trans hleave)
      exact hdec
    · rw [hnone] at hleave
      cases hleave
  have hout : 1 ≤ c → (leftEntry s.kernel a).state = crowdState {1, 2} c := by
    intro hc
    rw [hready, crowdState, if_pos (by simp; omega)]
  -- from idle or from task 2 the decision goes to task 1, and from there to task 2
  have hpicks : ∃ x, (x = 1 ∨ x = 2) ∧ Picks 2 (fun i => i ∈ ({1, 2} : Finset Nat) ∪ ∅) c x := by
    rcases hpos with rfl | rfl | rfl
    · exact ⟨1, .inl rfl, .next (by omega) (by simp)⟩
    · exact ⟨2, .inr rfl, .next (by omega) (by simp)⟩
    · exact ⟨1, .inl rfl, .only (le_refl 1) (by omega) (by omega) (by simp) (by simp)⟩
  obtain ⟨x, hx, hpicks⟩ := hpicks
  have hnext := h.decide hleave hout (nobody_handed m) hpicks hwf hdec hflag
  rw [if_pos rfl, Finset.union_empty] at hnext
  exact ⟨x, m, hx, hnext⟩

/-- As long as both of them are busy, idle does not run again. -/
theorem spins_step (busy : ∀ task ∈ tasks.take 2, task.Busy) (h : Spins s)
    (hsteps : OsSteps board tasks s l t) : Spins t := by
  obtain ⟨⟨c, m, hc, hcrowd⟩, hbooted⟩ := h
  have hcurrent := hcrowd.current
  have hcur : s.kernel.currentTid ≠ 0 := by omega
  have hmem : s.kernel.currentTid ∈ ({1, 2} : Finset Nat) := by
    rw [hcurrent]
    simpa using hc
  cases hsteps with
  | tick hstep =>
      have hready : (leftEntry s.kernel .tick).state = taskReady := by
        rw [leftEntry, if_pos hcrowd.flag]
      exact ⟨spins_decide (.inr hc) hcrowd rfl hready hstep, hbooted⟩
  | register hidle => exact absurd hidle hcur
  | fatal hidle => exact absurd hidle hcur
  | idle hidle => exact absurd hidle hcur
  | spin | compute => exact ⟨⟨c, m, hc, hcrowd⟩, hbooted⟩
  | @call task a k _ _ hruns haction hstep =>
      have htask : task ∈ tasks.take 2 := by
        apply List.mem_of_getElem? (i := s.kernel.currentTid - 1)
        rw [List.getElem?_take_of_lt (by omega), hruns]
      have hbusy := busy_statement (busy task htask) (s.pcs s.kernel.currentTid)
      generalize task.statement (s.pcs s.kernel.currentTid) = statement at hbusy haction
      cases statement with
      | compute => cases haction
      | sleep | mutexLock | signalWait => cases hbusy
      | yield =>
          obtain rfl := Option.some.inj haction
          exact ⟨spins_decide (.inr hc) hcrowd rfl rfl hstep, hbooted⟩
      | mutexUnlock =>
          obtain rfl := Option.some.inj haction
          obtain rfl := Option.some.inj hstep.2
          exact ⟨⟨c, 0, hc, wellformed_step hcrowd.wellformed hstep, hcrowd.count, hcrowd.current,
            rfl, hcrowd.flag, hcrowd.states⟩, hbooted⟩
      | signalRaise signal =>
          obtain rfl := Option.some.inj haction
          obtain rfl := Option.some.inj hstep.2
          exact ⟨⟨c, m, hc, wellformed_step hcrowd.wellformed hstep, hcrowd.count, hcrowd.current,
            hcrowd.mutex, hcrowd.flag, hcrowd.states⟩, hbooted⟩

/-- A registration from idle, before anything has run. -/
theorem Crowd.register {s : Kernel} {n : Nat} (h : Crowd n 0 (Finset.Icc 1 n) 0 s)
    (taskFunc : UInt32) (hn : n + 1 < maxTasks) :
    Crowd (n + 1) 0 (Finset.Icc 1 (n + 1)) 0 (kTaskRegister board taskFunc s).1 := by
  have hroom : s.registeredTasks + 1 < maxTasks := by
    rw [h.count]
    exact hn
  obtain ⟨hframe, hother, hnew⟩ := kTaskRegister_room board taskFunc hroom
  refine ⟨register_wellformed taskFunc h.wellformed hroom, ?_, ?_, ?_, ?_, ?_⟩
  · rw [hframe, ← h.count]
  · rw [hframe]
    exact h.current
  · rw [hframe]
    exact h.mutex
  · rw [hframe]
    exact h.flag
  · intro i hpos hle _
    rw [crowdState, if_pos (Finset.mem_Icc.mpr ⟨hpos, hle⟩)]
    by_cases hlast : i = n + 1
    · rw [hlast, ← h.count, hnew]
    · rw [hother i (by rw [h.count]; exact hlast), h.states i hpos (by omega) (by omega),
        crowdState, if_pos (Finset.mem_Icc.mpr ⟨hpos, by omega⟩)]

/-- The loop registers `n` tasks before the first tick. -/
theorem registers_first (board : Board) (tasks : List OsTask) {n : Nat} (hlisted : n ≤ tasks.length)
    (hn : n < maxTasks) :
    ∃ s, Reachable (osSystem board tasks) s ∧ Crowd n 0 (Finset.Icc 1 n) 0 s.kernel ∧
      s.booted = n ∧ s.halted = false := by
  induction n with
  | zero =>
      have hinit : (osSystem board tasks).init (osBoot board) := ⟨_, _, rfl⟩
      refine ⟨osBoot board, reachable_init hinit, ⟨?_, rfl, rfl, rfl, rfl, ?_⟩, rfl, rfl⟩
      · exact (reachable_started (reachable_init hinit)).wellformed
      · intro i hpos hle
        omega
  | succ n ih =>
      obtain ⟨s, hreach, hcrowd, hbooted, hrunning⟩ := ih (by omega) (by omega)
      have hroom : s.kernel.registeredTasks + 1 < maxTasks := by
        rw [hcrowd.count]
        exact hn
      have hlt : s.booted < tasks.length := by omega
      have htask := List.getElem?_eq_getElem hlt
      have hstep : (osSystem board tasks).step s .run (kernelEntry board tasks s) := by
        change osNext board tasks s .run = _
        rw [osNext, if_neg (by simp [hrunning]), if_pos hcrowd.current]
      have hanswer : (kTaskRegister board tasks[s.booted].entry s.kernel).2 = 0 := by
        rw [kTaskRegister, if_neg (Nat.not_le.mpr hroom)]
      have hentry : kernelEntry board tasks s =
          { s with
            kernel := (kTaskRegister board tasks[s.booted].entry s.kernel).1
            booted := s.booted + 1 } := by
        simp only [kernelEntry, htask, hanswer, ne_eq, not_true_eq_false, if_false]
      rw [hentry] at hstep
      exact ⟨_, hreach.next hstep, hcrowd.register _ hn, congrArg (· + 1) hbooted, hrunning⟩

/-- From a task that runs alone the next tick goes to idle. -/
theorem tick_alone (hs : Wellformed s.kernel) (hcount : s.kernel.registeredTasks = 1)
    (hcur : s.kernel.currentTid ≠ 0) (hstep : (system board).step s.kernel .tick k) :
    k.currentTid = 0 := by
  have hle := hs.current_le
  rcases (step_steps hs hstep).decides_or_quiet with ⟨o, hleave, hdec⟩ | ⟨hnone, _⟩
  · have hleft := leave_leaves hleave
    have hpicks := hdec.picks
    rw [hleft.registeredTasks, hleft.currentTid, hcount] at hpicks
    generalize k.currentTid = x at hpicks ⊢
    cases hpicks with
    | found hpos hle' hne => omega
    | none => rfl
  · cases hnone

/-- With at most two tasks in the list the loop comes further within two steps. -/
theorem not_starved (hshort : tasks.length ≤ 2) (h : Reachable (osSystem board tasks) s) :
    ¬ Starved board tasks s := by
  rintro ⟨hmore, hstuck⟩
  have hstarted := reachable_started h
  have hs := hstarted.wellformed
  have hcount := hstarted.booted.count
  have hrunning : s.halted = false := by
    by_contra hhalted
    have hlast := (hstarted.booted.halted (by simpa using hhalted)).1
    rw [maxTasks] at hlast
    omega
  -- from idle the next statement registers a task
  have hidle : ∀ u, Reachable (osSystem board tasks) u → u.kernel.currentTid = 0 →
      u.booted < tasks.length → u.halted = false →
      ∃ v, (osSystem board tasks).step u .run v ∧ v.booted ≠ u.booted := by
    intro u hu hcur hlt hgoes
    obtain ⟨v, hstep⟩ := os_enabled (reachable_started hu) hgoes .run
    refine ⟨v, hstep, ?_⟩
    have hbooted := (reachable_started hu).booted.count
    obtain ⟨_, hsteps⟩ := os_steps hstep
    cases hsteps with
    | register => exact Nat.succ_ne_self _
    | fatal _ _ hfull =>
        rw [maxTasks] at hfull
        omega
    | idle _ hall => omega
    | spin hcurrent => exact absurd hcur hcurrent
    | compute hcurrent => exact absurd hcur hcurrent
    | call hcurrent => exact absurd hcur hcurrent
  by_cases hcur : s.kernel.currentTid = 0
  · obtain ⟨v, hstep, hne⟩ := hidle s h hcur hmore hrunning
    exact hne (hstuck _ v (.single hstep))
  · have hone : s.kernel.registeredTasks = 1 := by
      have hle := hs.current_le
      omega
    obtain ⟨u, htick⟩ := os_enabled hstarted hrunning .tick
    obtain ⟨_, hsteps⟩ := os_steps htick
    cases hsteps with
    | tick hone' =>
        have hu := h.next htick
        obtain ⟨v, hstep, hne⟩ := hidle _ hu (tick_alone hs hone hcur hone') hmore hrunning
        exact hne (hstuck _ v (.cons htick (.single hstep)))

/-- If the first two tasks never block, the loop of `_kernel_entry` can be left
for ever with tasks to register if and only if the list has a third one. -/
theorem boot_starves_iff (busy : ∀ task ∈ tasks.take 2, task.Busy) :
    (∃ s, Reachable (osSystem board tasks) s ∧ Starved board tasks s) ↔ 2 < tasks.length := by
  constructor
  · rintro ⟨s, hreach, hstarved⟩
    by_contra hshort
    exact not_starved (Nat.not_lt.mp hshort) hreach hstarved
  · intro hlong
    obtain ⟨s, hreach, hcrowd, hbooted, hrunning⟩ :=
      registers_first board tasks (n := 2) (by omega) (by decide)
    obtain ⟨t, htick⟩ := os_enabled (reachable_started hreach) hrunning .tick
    have hspins : Spins t := by
      obtain ⟨_, hsteps⟩ := os_steps htick
      cases hsteps with
      | tick hstep =>
          have hready : (leftEntry s.kernel .tick).state = taskReady := by
            rw [leftEntry, if_pos hcrowd.flag]
          exact ⟨spins_decide (.inl rfl) hcrowd rfl hready hstep, hbooted⟩
    refine ⟨t, hreach.next htick, by rw [hspins.booted]; exact hlong, ?_⟩
    intro tr u hpath
    have hlast : Spins u := hpath.preserves
      (fun _ _ _ hs hstep => spins_step busy hs (os_steps hstep).2) hspins
    rw [hlast.booted, hspins.booted]

/-- Three tasks that only compute: the third is never registered if a tick comes
before. -/
theorem boot_starves_iff_three_tasks :
    ∃ s, Reachable (osSystem xmc1100
        [⟨0x10001100, [], [.compute]⟩, ⟨0x10001200, [], [.compute]⟩, ⟨0x10001300, [], [.compute]⟩])
        s ∧
      Starved xmc1100
        [⟨0x10001100, [], [.compute]⟩, ⟨0x10001200, [], [.compute]⟩, ⟨0x10001300, [], [.compute]⟩]
        s :=
  (boot_starves_iff (by decide)).mpr (by decide)

end Starvation

end PascalScheduler
