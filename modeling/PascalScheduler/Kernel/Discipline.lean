import PascalScheduler.Kernel.Application
import Mathlib.Data.List.GetD

/-!
Tasks that lock and unlock in turn. Whether a task does is read off its own
statements; whether it holds the mutex then follows from where it is, and the
holders that the kernel's history counts are the tasks between a lock and an
unlock that do not wait.
-/

namespace PascalScheduler

open Transition

/-- Whether a task that executes the statement holds the mutex afterwards. -/
def Statement.after (held : Bool) : Statement → Bool
  | .mutexLock => true
  | .mutexUnlock => false
  | .compute | .sleep _ | .yield | .signalWait _ | .signalRaise _ => held

namespace OsTask

/-- Whether the statements before `pc` leave the mutex locked. -/
def holds (task : OsTask) (pc : Nat) : Bool :=
  (task.code.take pc).foldl Statement.after false

/-- A task locks only what it has not locked, unlocks only what it has, and
comes back to the start of its loop as it left it. -/
structure Disciplined (task : OsTask) : Prop where
  lock : ∀ pc < task.code.length, task.statement pc = .mutexLock → task.holds pc = false
  unlock : ∀ pc < task.code.length, task.statement pc = .mutexUnlock → task.holds pc = true
  loop : task.holds task.code.length = task.holds task.start.length

instance (task : OsTask) : Decidable task.Disciplined :=
  decidable_of_iff
    ((∀ pc < task.code.length, task.statement pc = .mutexLock → task.holds pc = false) ∧
      (∀ pc < task.code.length, task.statement pc = .mutexUnlock → task.holds pc = true) ∧
      task.holds task.code.length = task.holds task.start.length)
    ⟨fun h => ⟨h.1, h.2.1, h.2.2⟩, fun h => ⟨h.lock, h.unlock, h.loop⟩⟩

variable {task : OsTask} {pc : Nat}

theorem statement_beyond (h : task.code.length ≤ pc) : task.statement pc = .compute :=
  List.getD_eq_default _ _ h

theorem holds_succ (h : pc < task.code.length) :
    task.holds (pc + 1) = (task.statement pc).after (task.holds pc) := by
  rw [holds, List.take_succ_eq_append_getElem h, List.foldl_append, statement,
    List.getD_eq_getElem _ _ h]
  rfl

/-- Each statement does to the lock what its name says, also at the end of the
loop. -/
theorem Disciplined.next (h : task.Disciplined) (pc : Nat) :
    task.holds (task.next pc) = (task.statement pc).after (task.holds pc) := by
  unfold OsTask.next
  split
  · rename_i hlt
    exact holds_succ (by omega)
  · rename_i hend
    rw [← h.loop]
    by_cases hlast : pc < task.code.length
    · rw [← holds_succ hlast, show task.code.length = pc + 1 by omega]
    · have hall : task.code.take pc = task.code.take task.code.length := by
        rw [List.take_of_length_le (by omega), List.take_length]
      rw [statement_beyond (by omega), holds, holds, hall]
      rfl

theorem Disciplined.at_lock (h : task.Disciplined) (hpc : task.statement pc = .mutexLock) :
    task.holds pc = false := by
  apply h.lock pc _ hpc
  by_contra hbeyond
  rw [statement_beyond (by omega)] at hpc
  cases hpc

theorem Disciplined.at_unlock (h : task.Disciplined) (hpc : task.statement pc = .mutexUnlock) :
    task.holds pc = true := by
  apply h.unlock pc _ hpc
  by_contra hbeyond
  rw [statement_beyond (by omega)] at hpc
  cases hpc

end OsTask

/-- Whether a task that has taken the action has locked the mutex. -/
def Action.after (held : Bool) : Action → Bool
  | .mutexLock => true
  | .mutexUnlock => false
  | .tick | .yield | .sleep _ | .signalWait _ | .signalRaise _ | .register _ => held

/-- The holders are the tasks that have locked the mutex and do not wait. -/
structure Locks (s : Kernel) (u : Usage) (locked : Nat → Bool) : Prop where
  holders : ∀ i, i ∈ u.holders ↔ s.registered i ∧ locked i = true ∧ ¬ s.waitsMutex i
  waiting : ∀ i, s.waitsMutex i → locked i = true
  fresh : ∀ i, s.registeredTasks < i → locked i = false

/-- What the running task has locked after its action. -/
def lockedAfter (s : Kernel) (a : Action) (locked : Nat → Bool) : Nat → Bool :=
  Function.update locked s.currentTid (a.after (locked s.currentTid))

section Locks

variable {board : Board} {s o t : Kernel} {a : Action} {u : Usage} {locked : Nat → Bool}

theorem current_not_waits (hs : Wellformed s) : ¬ s.waitsMutex s.currentTid := by
  rintro ⟨_, hstate⟩
  rw [hs.running] at hstate
  exact running_ne_mutexBlocked hstate

/-- The discipline of the code is the lawfulness of the run. -/
theorem Locks.lawful (h : Locks s u locked) (hs : Wellformed s) (henabled : Enabled s a)
    (hlock : a = .mutexLock → locked s.currentTid = false)
    (hunlock : a = .mutexUnlock → locked s.currentTid = true) : u.Lawful s a := by
  cases a with
  | mutexLock =>
      intro hmem
      have hlocked := ((h.holders _).mp hmem).2.1
      rw [hlock rfl] at hlocked
      cases hlocked
  | mutexUnlock =>
      have hreg : s.registered s.currentTid := ⟨Nat.pos_of_ne_zero henabled.1, hs.current_le⟩
      exact (h.holders _).mpr ⟨hreg, hunlock rfl, current_not_waits hs⟩
  | tick | yield | sleep | signalWait | signalRaise | register => trivial

/-- The mutex goes to a task that waited before the action. -/
theorem granted_waited (hs : Wellformed s) (henabled : Enabled s a)
    (hleave : leave s a = some o) {i : Nat} (hi : o.granted i) : s.waitsMutex i := by
  have hparked : Parked (o.tasks i).state := leave_parked hs hleave hi.2.1.1
  have hwaits : o.waitsMutex i := (awaitsMutex_iff hparked).mp hi.2.1
  rcases (leave_waits hs henabled hleave i).mp hwaits with hwaited | ⟨rfl, _⟩
  · exact hwaited
  · have hfree : s.mutex = 0 := (leave_leaves hleave).mutex ▸ hi.1
    rw [leave, if_pos hfree] at hleave
    cases hleave

theorem Locks.decide (h : Locks s u locked) (hs : Wellformed s) (henabled : Enabled s a)
    (hlawful : u.Lawful s a) (hleave : leave s a = some o) (hdec : Decision o t) :
    Locks t (u.record s a t) (lockedAfter s a locked) := by
  have hleft := leave_leaves hleave
  have hreg : ∀ i, t.registered i ↔ s.registered i :=
    fun i => (hdec.registered_iff i).trans (hleft.registered_iff i)
  have hwaits : ∀ i, t.waitsMutex i ↔ Waiting s a i ∧ ¬ o.granted i := by
    intro i
    rw [decision_waits hdec, leave_waits hs henabled hleave]
  have hgranted : ∀ i, o.granted i → s.waitsMutex i :=
    fun i hi => granted_waited hs henabled hleave hi
  have hholders : ∀ i, i ∈ (u.record s a t).holders ↔ i ∈ u.holders ∨ o.granted i := by
    intro i
    rw [record_decide hleave, Finset.mem_union, List.mem_toFinset,
      mem_handedOver (fun i hi => leave_parked hs hleave hi)]
  have hcurrent := current_not_waits hs
  constructor
  · intro i
    rw [hholders, hreg, hwaits]
    by_cases hcur : i = s.currentTid
    · subst hcur
      have hnot : ¬ o.granted s.currentTid := fun hg => hcurrent (hgranted _ hg)
      cases a with
      | mutexLock =>
          -- the task blocks: it has locked, and waits
          have hmem : s.currentTid ∉ u.holders := hlawful
          simp [hmem, hnot, Waiting]
      | mutexUnlock => cases hleave
      | tick | yield | sleep | signalWait | signalRaise | register =>
          simp [h.holders, hnot, Waiting, lockedAfter, Action.after, hcurrent]
    · have hsame : lockedAfter s a locked i = locked i := Function.update_of_ne hcur ..
      have hwaiting : Waiting s a i ↔ s.waitsMutex i := by simp [Waiting, hcur]
      rw [hsame, hwaiting, h.holders]
      constructor
      · rintro (⟨hi, hlocked, hno⟩ | hg)
        · exact ⟨hi, hlocked, fun hw => hno hw.1⟩
        · exact ⟨(hgranted i hg).1, h.waiting i (hgranted i hg), fun hw => hw.2 hg⟩
      · rintro ⟨hi, hlocked, hno⟩
        by_cases hg : o.granted i
        · exact .inr hg
        · exact .inl ⟨hi, hlocked, fun hw => hno ⟨hw, hg⟩⟩
  · intro i hi
    rcases ((hwaits i).mp hi).1 with hw | ⟨rfl, rfl⟩
    · have hcur : i ≠ s.currentTid := fun hcur => hcurrent (hcur ▸ hw)
      rw [lockedAfter, Function.update_of_ne hcur]
      exact h.waiting i hw
    · rw [lockedAfter, Function.update_self]
      rfl
  · intro i hi
    rw [hdec.registeredTasks, hleft.registeredTasks] at hi
    have hcur : i ≠ s.currentTid := by
      have := hs.current_le
      omega
    rw [lockedAfter, Function.update_of_ne hcur]
    exact h.fresh i hi

/-- An action that leaves the lock alone and blocks nobody. -/
theorem Locks.quiet (h : Locks s u locked) (hholders : (u.record s a t).holders = u.holders)
    (hafter : ∀ held, a.after held = held)
    (hreg : ∀ i, s.registered i → t.registered i)
    (hnew : ∀ i, t.registered i → ¬ s.registered i → locked i = false)
    (hwaits : ∀ i, t.waitsMutex i ↔ s.waitsMutex i)
    (hcount : s.registeredTasks ≤ t.registeredTasks) :
    Locks t (u.record s a t) (lockedAfter s a locked) := by
  have hsame : lockedAfter s a locked = locked := by
    rw [lockedAfter, hafter, Function.update_eq_self]
  rw [hsame]
  constructor
  · intro i
    rw [hholders, h.holders, hwaits]
    constructor
    · rintro ⟨hi, hrest⟩
      exact ⟨hreg i hi, hrest⟩
    · rintro ⟨hi, hlocked, hno⟩
      refine ⟨?_, hlocked, hno⟩
      by_contra hold
      rw [hnew i hi hold] at hlocked
      cases hlocked
  · exact fun i hi => h.waiting i ((hwaits i).mp hi)
  · exact fun i hi => h.fresh i (by omega)

/-- An action that concerns the running task and the variable `mutex` only. -/
theorem Locks.current (h : Locks s u locked) (hs : Wellformed s) {m : Int32}
    (hother : ∀ i, i ≠ s.currentTid → (i ∈ (u.record s a t).holders ↔ i ∈ u.holders))
    (hown : s.currentTid ∈ (u.record s a t).holders ↔
      s.registered s.currentTid ∧ a.after (locked s.currentTid) = true)
    (ht : t = { s with mutex := m }) :
    Locks t (u.record s a t) (lockedAfter s a locked) := by
  have hcurrent := current_not_waits hs
  have hregistered : ∀ i, t.registered i ↔ s.registered i := by
    intro i
    rw [ht, Kernel.registered, Kernel.registered]
  have hwaits : ∀ i, t.waitsMutex i ↔ s.waitsMutex i := by
    intro i
    rw [ht]
    rfl
  constructor
  · intro i
    rw [hregistered, hwaits]
    by_cases hcur : i = s.currentTid
    · subst hcur
      rw [hown, lockedAfter, Function.update_self]
      simp [hcurrent]
    · rw [hother i hcur, h.holders, lockedAfter, Function.update_of_ne hcur]
  · intro i hi
    have hw := (hwaits i).mp hi
    have hcur : i ≠ s.currentTid := fun hcur => hcurrent (hcur ▸ hw)
    rw [lockedAfter, Function.update_of_ne hcur]
    exact h.waiting i hw
  · intro i hi
    rw [ht] at hi
    have hcur : i ≠ s.currentTid := by
      have hle := hs.current_le
      have hlt : s.registeredTasks < i := hi
      omega
    rw [lockedAfter, Function.update_of_ne hcur]
    exact h.fresh i hi

/-- Every lawful step keeps what the holders are. -/
theorem Locks.step (h : Locks s u locked) (hs : Wellformed s) (hlawful : u.Lawful s a)
    (hstep : (system board).step s a t) :
    Locks t (u.record s a t) (lockedAfter s a locked) := by
  have hcurrent := current_not_waits hs
  cases step_steps hs hstep with
  | decide hleave hdec => exact h.decide hs hstep.1 hlawful hleave hdec
  | lock hfree =>
      have hreg : s.registered s.currentTid := ⟨Nat.pos_of_ne_zero hstep.1.1, hs.current_le⟩
      have hacq : acquires s .mutexLock = [s.currentTid] := by
        simp only [acquires, leave, if_pos hfree]
      have hholders : ∀ i, i ∈ (u.record s .mutexLock { s with mutex := 1 }).holders ↔
          i ∈ u.holders ∨ i = s.currentTid := by
        intro i
        change i ∈ u.holders ∪ (acquires s .mutexLock).toFinset ↔ _
        rw [hacq, Finset.mem_union, List.mem_toFinset, List.mem_singleton]
      apply h.current hs
      · intro i hcur
        rw [hholders, or_iff_left hcur]
      · simp [hholders, Action.after, hreg]
      · rfl
  | unlock =>
      have hmem : ∀ i, i ∈ (u.record s .mutexUnlock { s with mutex := 0 }).holders ↔
          i ≠ s.currentTid ∧ i ∈ u.holders := by
        intro i
        exact Finset.mem_erase
      apply h.current hs
      · intro i hcur
        rw [hmem, and_iff_right hcur]
      · simp [hmem, Action.after]
      · rfl
  | wait signal =>
      exact h.quiet (record_quiet rfl (by simp)) (fun _ => rfl) (fun _ hi => hi)
        (fun _ hi hno => absurd hi hno) (fun _ => Iff.rfl) (Nat.le_refl _)
  | raise signal =>
      exact h.quiet (record_quiet rfl (by simp)) (fun _ => rfl) (fun _ hi => hi)
        (fun _ hi hno => absurd hi hno) (fun _ => Iff.rfl) (Nat.le_refl _)
  | full taskFunc =>
      exact h.quiet (record_quiet rfl (by simp)) (fun _ => rfl) (fun _ hi => hi)
        (fun _ hi hno => absurd hi hno) (fun _ => Iff.rfl) (Nat.le_refl _)
  | register taskFunc hroom =>
      obtain ⟨hframe, hother, hnew⟩ := kTaskRegister_room board taskFunc hroom
      have hcount : (kTaskRegister board taskFunc s).1.registeredTasks = s.registeredTasks + 1 := by
        rw [hframe]
      apply h.quiet (record_quiet rfl (by simp)) (fun _ => rfl)
      · intro i hi
        rw [Kernel.registered, hcount]
        exact ⟨hi.1, Nat.le_succ_of_le hi.2⟩
      · intro i hi hno
        rw [Kernel.registered, hcount] at hi
        apply h.fresh
        by_contra hle
        exact hno ⟨hi.1, by omega⟩
      · intro i
        rw [Kernel.waitsMutex, Kernel.waitsMutex, Kernel.registered, Kernel.registered, hcount]
        by_cases hlast : i = s.registeredTasks + 1
        · subst hlast
          have hready : ((kTaskRegister board taskFunc s).1.tasks
              (s.registeredTasks + 1)).state = taskReady := by rw [hnew]
          rw [hready]
          simp [ready_ne_mutexBlocked]
        · rw [hother i hlast]
          have hle : i ≤ s.registeredTasks + 1 ↔ i ≤ s.registeredTasks := by omega
          rw [hle]
      · omega

end Locks

end PascalScheduler
