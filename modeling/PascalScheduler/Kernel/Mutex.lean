import PascalScheduler.Kernel.Invariant

/-!
Mutual exclusion. The kernel keeps one variable, `mutex`, and no owner: the
owner is a history value of the run. A task acquires the mutex either at once
in `k_mutex_lock` or when `k_task_update_state` turns it from MUTEX_BLOCKED to
READY, and holds it until its unlock.
-/

namespace PascalScheduler

open Transition

/-- The tasks `k_task_update_state` turns from MUTEX_BLOCKED to READY. -/
def handedOver (o : Kernel) : List Nat :=
  (List.range' 1 o.registeredTasks).filter fun i =>
    (o.tasks i).state == taskMutexBlocked &&
      ((kTaskUpdateState o).tasks i).state == taskReady

/-- The tasks that acquire the mutex in one action. -/
def acquires (s : Kernel) (a : Action) : List Nat :=
  match leave s a with
  | some o => handedOver o
  | none =>
      match a with
      | .mutexLock => [s.currentTid]
      | _ => []

/-- What a run says about the mutex: the tasks that hold it, and those that
have unlocked it and not yielded since. -/
structure Usage where
  holders : Finset Nat
  released : Finset Nat

def Usage.holdersAfter (u : Usage) (s : Kernel) : Action → Finset Nat
  | .mutexUnlock => u.holders.erase s.currentTid
  | a => u.holders ∪ (acquires s a).toFinset

def Usage.releasedAfter (u : Usage) (s : Kernel) : Action → Finset Nat
  | .mutexUnlock => insert s.currentTid u.released
  | .yield => u.released.erase s.currentTid
  | _ => u.released

def Usage.record (u : Usage) (s : Kernel) (a : Action) (_ : Kernel) : Usage where
  holders := u.holdersAfter s a
  released := u.releasedAfter s a

/-- A task locks only what it does not hold and unlocks only what it holds. -/
def Usage.Lawful (u : Usage) (s : Kernel) : Action → Prop
  | .mutexLock => s.currentTid ∉ u.holders
  | .mutexUnlock => s.currentTid ∈ u.holders
  | _ => True

instance (u : Usage) (s : Kernel) (a : Action) : Decidable (u.Lawful s a) :=
  match a with
  | .mutexLock => inferInstanceAs (Decidable (s.currentTid ∉ u.holders))
  | .mutexUnlock => inferInstanceAs (Decidable (s.currentTid ∈ u.holders))
  | .tick | .yield | .sleep _ | .signalWait _ | .signalRaise _ | .register _ => .isTrue trivial

def Usage.none : Usage := ⟨∅, ∅⟩

def mutexSystem (board : Board) : System (Kernel × Usage) Action :=
  (system board).observed Usage.none Usage.Lawful Usage.record

/-- The two situations of the mutex. -/
inductive Owned (s : Kernel) (u : Usage) : Prop where
  | free (mutex : s.mutex = 0) (holders : u.holders = ∅)
  | held (owner : Nat) (mutex : s.mutex = 1) (holders : u.holders = {owner})
      (registered : s.registered owner)
      (awake : (s.tasks owner).state ≠ taskMutexBlocked)

variable {board : Board} {s o t : Kernel} {a : Action} {u : Usage}

/-- Ownership depends on the variable, the holders and the owner's state. -/
theorem Owned.transport {u' : Usage} (h : Owned s u) (hholders : u'.holders = u.holders)
    (hmutex : t.mutex = s.mutex) (hreg : ∀ i, s.registered i → t.registered i)
    (hstate : ∀ i, s.registered i → (t.tasks i).state = (s.tasks i).state) :
    Owned t u' := by
  cases h with
  | free hfree hnone => exact .free (hmutex.trans hfree) (hholders.trans hnone)
  | held owner hheld howner hregistered hawake =>
      refine .held owner (hmutex.trans hheld) (hholders.trans howner)
        (hreg owner hregistered) ?_
      rw [hstate owner hregistered]
      exact hawake

theorem ready_ne_mutexBlocked : taskReady ≠ taskMutexBlocked := by decide

theorem running_ne_mutexBlocked : taskRunning ≠ taskMutexBlocked := by decide

theorem blocked_ne_mutexBlocked : taskBlocked ≠ taskMutexBlocked := by decide

theorem signal_ne_mutexBlocked : taskCreated ||| taskBlocked ≠ taskMutexBlocked := by decide

theorem wakes_not_mutexBlocked {i : Nat} (h : s.wakes i) :
    (s.tasks i).state ≠ taskMutexBlocked := by
  intro hstate
  have hbit := h.2.1
  rw [Kernel.isBlocked, hstate] at hbit
  exact absurd hbit (by decide)

/-- Among parked tasks, MUTEX_BLOCKED is the one state with the mutex bit. -/
theorem awaitsMutex_iff {i : Nat} (hparked : Parked (s.tasks i).state) :
    s.awaitsMutex i ↔ s.registered i ∧ (s.tasks i).state = taskMutexBlocked := by
  constructor
  · rintro ⟨hreg, hbit, _⟩
    refine ⟨hreg, ?_⟩
    rw [Kernel.isMutexBlocked] at hbit
    rcases hparked with hp | hp | hp | hp
    · exact absurd (hp ▸ hbit) (by decide)
    · exact absurd (hp ▸ hbit) (by decide)
    · exact absurd (hp ▸ hbit) (by decide)
    · exact hp
  · rintro ⟨hreg, hstate⟩
    refine ⟨hreg, ?_, fun hw => wakes_not_mutexBlocked hw hstate⟩
    rw [Kernel.isMutexBlocked, hstate]
    decide

/-- The hand-over list is the granted waiter, if there is one. -/
theorem mem_handedOver (hparked : ∀ i, o.registered i → Parked (o.tasks i).state)
    (i : Nat) : i ∈ handedOver o ↔ o.granted i := by
  have hu := kTaskUpdateState_updated o
  rw [handedOver, List.mem_filter, List.mem_range'_1, Bool.and_eq_true, beq_iff_eq,
    beq_iff_eq]
  constructor
  · rintro ⟨hrange, hbefore, hafter⟩
    have hr : o.readied i := by
      by_contra hnot
      rw [hu.kept i (fun _ => hnot), hbefore] at hafter
      exact absurd hafter (by decide)
    exact hr.resolve_left (fun hw => wakes_not_mutexBlocked hw hbefore)
  · intro hg
    have hreg := hg.2.1.1
    refine ⟨⟨hreg.1, by have := hreg.2; omega⟩, ?_, ?_⟩
    · exact ((awaitsMutex_iff (hparked i hreg)).mp hg.2.1).2
    · rw [hu.readied i hreg.2 (Or.inr hg)]

theorem handedOver_granted (hparked : ∀ i, o.registered i → Parked (o.tasks i).state)
    {i : Nat} (hi : o.granted i) : (handedOver o).toFinset = {i} := by
  ext j
  rw [List.mem_toFinset, mem_handedOver hparked, Finset.mem_singleton]
  exact ⟨fun hj => Kernel.granted_unique hj hi, fun hj => hj ▸ hi⟩

theorem handedOver_none (hparked : ∀ i, o.registered i → Parked (o.tasks i).state)
    (hnone : ∀ i, ¬ o.granted i) : (handedOver o).toFinset = ∅ := by
  apply Finset.eq_empty_of_forall_notMem
  intro j hj
  rw [List.mem_toFinset, mem_handedOver hparked] at hj
  exact hnone j hj

/-- A decision takes the MUTEX_BLOCKED state from a task and never gives it. -/
theorem decision_awake (hdec : Decision o t) {i : Nat}
    (h : (o.tasks i).state ≠ taskMutexBlocked) :
    (t.tasks i).state ≠ taskMutexBlocked := by
  by_cases hcur : i = t.currentTid
  · rw [hcur, hdec.running]
    exact running_ne_mutexBlocked
  · by_cases hr : o.readied i
    · rw [hdec.readied i hcur hr]
      exact ready_ne_mutexBlocked
    · rw [hdec.kept i hcur hr]
      exact h

theorem decision_granted_awake (hdec : Decision o t) {i : Nat} (h : o.readied i) :
    (t.tasks i).state ≠ taskMutexBlocked := by
  by_cases hcur : i = t.currentTid
  · rw [hcur, hdec.running]
    exact running_ne_mutexBlocked
  · rw [hdec.readied i hcur h]
    exact ready_ne_mutexBlocked

/-- Only a contended lock leaves the running task MUTEX_BLOCKED. -/
theorem leave_mutexBlocked (hleave : leave s a = some o)
    (h : (o.tasks s.currentTid).state = taskMutexBlocked) :
    a = .mutexLock ∧ s.mutex ≠ 0 := by
  rw [(leave_leaves hleave).entry] at h
  cases a with
  | tick =>
      simp only [leftEntry] at h
      split at h
      · exact absurd h ready_ne_mutexBlocked
      · exact absurd h signal_ne_mutexBlocked
  | yield => exact absurd h ready_ne_mutexBlocked
  | sleep => exact absurd h blocked_ne_mutexBlocked
  | mutexLock =>
      refine ⟨rfl, ?_⟩
      intro hfree
      rw [leave, if_pos hfree] at hleave
      cases hleave
  | mutexUnlock => cases hleave
  | signalWait => cases hleave
  | signalRaise => cases hleave
  | register => cases hleave

theorem acquires_decide (hleave : leave s a = some o) : acquires s a = handedOver o := by
  simp only [acquires, hleave]

theorem acquires_nodup (s : Kernel) (a : Action) : (acquires s a).Nodup := by
  cases hleave : leave s a with
  | some o =>
      rw [acquires_decide hleave]
      exact List.Nodup.filter _ (List.nodup_range' ..)
  | none =>
      cases a with
      | mutexLock =>
          simp only [acquires, hleave]
          exact List.nodup_singleton _
      | tick | yield | sleep | mutexUnlock | signalWait | signalRaise | register =>
          simp only [acquires, hleave]
          exact List.nodup_nil

/-- The history of an action that decides. -/
theorem record_decide (hleave : leave s a = some o) :
    (u.record s a t).holders = u.holders ∪ (handedOver o).toFinset := by
  have hacq := acquires_decide hleave
  cases a with
  | mutexUnlock => cases hleave
  | tick => exact congrArg (fun l => u.holders ∪ l.toFinset) hacq
  | yield => exact congrArg (fun l => u.holders ∪ l.toFinset) hacq
  | sleep => exact congrArg (fun l => u.holders ∪ l.toFinset) hacq
  | mutexLock => exact congrArg (fun l => u.holders ∪ l.toFinset) hacq
  | signalWait => cases hleave
  | signalRaise => cases hleave
  | register => cases hleave

/-- The history of an action that neither decides nor touches the mutex. -/
theorem record_quiet (hacq : acquires s a = []) (hunlock : a ≠ .mutexUnlock) :
    (u.record s a t).holders = u.holders := by
  have hsame : u.holders ∪ (acquires s a).toFinset = u.holders := by
    rw [hacq, List.toFinset_nil, Finset.union_empty]
  cases a with
  | mutexUnlock => exact absurd rfl hunlock
  | tick | yield | sleep | mutexLock | signalWait | signalRaise | register => exact hsame

theorem owned_decision (hs : Wellformed s) (howned : Owned s u)
    (hlawful : u.Lawful s a) (hleave : leave s a = some o) (hdec : Decision o t) :
    Owned t (u.record s a t) := by
  have hleft := leave_leaves hleave
  have hparked : ∀ i, o.registered i → Parked (o.tasks i).state :=
    fun i hi => leave_parked hs hleave hi
  have hholders := record_decide (u := u) (t := t) hleave
  have hregs : ∀ i, t.registered i ↔ s.registered i :=
    fun i => (hdec.registered_iff i).trans (hleft.registered_iff i)
  cases howned with
  | free hmutex hnone =>
      by_cases hg : ∃ i, o.granted i
      · obtain ⟨i, hi⟩ := hg
        refine .held i (hdec.mutexGranted i hi) ?_ ?_ ?_
        · rw [hholders, hnone, handedOver_granted hparked hi, Finset.empty_union]
        · exact (hdec.registered_iff i).mpr hi.2.1.1
        · exact decision_granted_awake hdec (Or.inr hi)
      · have hnobody : ∀ i, ¬ o.granted i := fun i hi => hg ⟨i, hi⟩
        refine .free ?_ ?_
        · rw [hdec.mutexKept hnobody, hleft.mutex, hmutex]
        · rw [hholders, hnone, handedOver_none hparked hnobody, Finset.empty_union]
  | held h hmutex howner hreg hawake =>
      have hnone : ∀ i, ¬ o.granted i := by
        intro i hi
        have hzero := hi.1
        rw [hleft.mutex] at hzero
        exact Kernel.mutex_taken hmutex hzero
      refine .held h ?_ ?_ ((hregs h).mpr hreg) ?_
      · rw [hdec.mutexKept hnone, hleft.mutex, hmutex]
      · rw [hholders, howner, handedOver_none hparked hnone, Finset.union_empty]
      · apply decision_awake hdec
        by_cases hcur : h = s.currentTid
        · -- the owner is running: it does not lock again
          intro hblocked
          obtain ⟨rfl, _⟩ := leave_mutexBlocked hleave (hcur ▸ hblocked)
          exact hlawful (by rw [howner, hcur]; exact Finset.mem_singleton_self _)
        · rw [hleft.other h hcur]
          exact hawake

/-- Every step of a lawful run keeps the ownership. -/
theorem owned_step (hs : Wellformed s) (howned : Owned s u) (hlawful : u.Lawful s a)
    (h : (system board).step s a t) : Owned t (u.record s a t) := by
  cases step_steps hs h with
  | decide hleave hdec => exact owned_decision hs howned hlawful hleave hdec
  | lock hfree =>
      have hacq : acquires s .mutexLock = [s.currentTid] := by
        simp only [acquires, leave, if_pos hfree]
      cases howned with
      | held _ hmutex => exact absurd hfree (Kernel.mutex_taken hmutex)
      | free _ hnone =>
          refine .held s.currentTid rfl ?_ ?_ ?_
          · change u.holders ∪ (acquires s .mutexLock).toFinset = {s.currentTid}
            rw [hacq, hnone]
            rfl
          · exact ⟨Nat.pos_of_ne_zero h.1.1, hs.current_le⟩
          · change (s.tasks s.currentTid).state ≠ taskMutexBlocked
            rw [hs.running]
            exact running_ne_mutexBlocked
  | unlock =>
      refine .free rfl ?_
      change u.holders.erase s.currentTid = ∅
      cases howned with
      | free _ hnone => rw [hnone, Finset.erase_empty]
      | held h _ howner =>
          have hmem : s.currentTid ∈ u.holders := hlawful
          rw [howner] at hmem ⊢
          rw [Finset.mem_singleton.mp hmem, Finset.erase_singleton]
  | wait signal =>
      exact howned.transport (record_quiet rfl (by simp)) rfl (fun _ h => h) (fun _ _ => rfl)
  | raise signal =>
      exact howned.transport (record_quiet rfl (by simp)) rfl (fun _ h => h) (fun _ _ => rfl)
  | register taskFunc hroom =>
      obtain ⟨hframe, hother, _⟩ := kTaskRegister_room board taskFunc hroom
      refine howned.transport (record_quiet rfl (by simp)) (by rw [hframe]) ?_ ?_
      · intro i hi
        rw [hframe]
        exact ⟨hi.1, Nat.le_succ_of_le hi.2⟩
      · intro i hi
        have hle := hi.2
        rw [hother i (by omega)]
  | full taskFunc =>
      exact howned.transport (record_quiet rfl (by simp)) rfl (fun _ h => h) (fun _ _ => rfl)

theorem owned_invariant (board : Board) :
    Invariant (mutexSystem board) (fun p => Wellformed p.1 ∧ Owned p.1 p.2) := by
  apply ((wellformed_invariant board).observed _ _ _).under
  · rintro p ⟨⟨timer, memory, hkernel⟩, hstart⟩
    apply Owned.free
    · rw [hkernel]
      rfl
    · rw [hstart]
      rfl
  · rintro p a q hwf howned ⟨hlawful, hstep, hrecord⟩
    rw [hrecord]
    exact owned_step hwf howned hlawful hstep

/-- Mutual exclusion in every reachable state: at most one holder, the variable
`mutex` says whether there is one, and it is not blocked on the mutex. -/
theorem mutual_exclusion (board : Board) (p : Kernel × Usage)
    (h : Reachable (mutexSystem board) p) :
    (∀ i ∈ p.2.holders, ∀ j ∈ p.2.holders, i = j) ∧
      (p.1.mutex = 1 ↔ ∃ i, i ∈ p.2.holders) ∧
      ∀ i ∈ p.2.holders, (p.1.tasks i).state ≠ taskMutexBlocked := by
  cases ((owned_invariant board).reachable h).2 with
  | free hmutex hnone => simp [hnone, hmutex]
  | held owner hmutex howner _ hawake => simpa [howner, hmutex] using hawake

/-- Two tasks contend: the second waits while the first holds the mutex, gets
it at the yield after the unlock, and holds it alone. -/
theorem mutual_exclusion_hand_over :
    ∃ p, run (observe (next xmc1100) Usage.Lawful Usage.record)
        (boot xmc1100, Usage.none)
        [.register 0x10001100, .register 0x10001200, .tick, .mutexLock, .yield,
          .mutexLock, .mutexUnlock, .yield] = some p ∧
      p.2.holders = {2} ∧ p.1.mutex = 1 ∧ (p.1.tasks 2).state ≠ taskMutexBlocked := by
  obtain ⟨p, hrun, hholders⟩ := exists_of_any
    (by decide +kernel : (run (observe (next xmc1100) Usage.Lawful Usage.record)
      (boot xmc1100, Usage.none) [.register 0x10001100, .register 0x10001200, .tick,
        .mutexLock, .yield, .mutexLock, .mutexUnlock, .yield]).any
          (fun p => decide (p.2.holders = {2})) = true)
  obtain ⟨tr, hpath, _⟩ := run_path (observe_step (next_step xmc1100) Usage.none) hrun
  have hp : Reachable (mutexSystem xmc1100) p :=
    ⟨_, tr, ⟨⟨_, _, rfl⟩, rfl⟩, hpath⟩
  obtain ⟨_, hmutex, hawake⟩ := mutual_exclusion xmc1100 p hp
  have hmem : 2 ∈ p.2.holders := hholders ▸ Finset.mem_singleton_self 2
  exact ⟨p, hrun, hholders, hmutex.mpr ⟨2, hmem⟩, hawake 2 hmem⟩

end PascalScheduler
