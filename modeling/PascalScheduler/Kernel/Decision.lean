import PascalScheduler.Kernel.Operations
import PascalScheduler.Library.RoundRobin

/-!
What one scheduling decision does, said once. `k_task_update_state` is
characterised by the tasks it wakes and the one waiter it grants the mutex to,
the two scanning loops by `RoundRobin.Picks`, and the common end of the
scheduling functions by `Decision`. Later modules never unfold the loops.
-/

namespace PascalScheduler

namespace Kernel

def registered (s : Kernel) (i : Nat) : Prop :=
  1 ≤ i ∧ i ≤ s.registeredTasks

/-- The wake-up test of `k_task_update_state`. -/
def wakes (s : Kernel) (i : Nat) : Prop :=
  s.registered i ∧ s.isBlocked i = true ∧ (s.tasks i).sleepUntil < s.jiffy

def awaitsMutex (s : Kernel) (i : Nat) : Prop :=
  s.registered i ∧ s.isMutexBlocked i = true ∧ ¬ s.wakes i

/-- The waiter that `k_task_update_state` hands a free mutex to: the one with
the lowest index. -/
def granted (s : Kernel) (i : Nat) : Prop :=
  s.mutex = 0 ∧ s.awaitsMutex i ∧ ∀ j, j < i → ¬ s.awaitsMutex j

def readied (s : Kernel) (i : Nat) : Prop :=
  s.wakes i ∨ s.granted i

/-- Ready once the wake-ups of the decision are made. -/
def readyNext (s : Kernel) (i : Nat) : Prop :=
  s.readied i ∨ s.isReady i = true

theorem mutex_taken {s : Kernel} (h : s.mutex = 1) : s.mutex ≠ 0 := by
  simp [h]

theorem granted_unique {s : Kernel} {i j : Nat} (hi : s.granted i)
    (hj : s.granted j) : i = j := by
  rcases Nat.lt_trichotomy i j with hlt | heq | hgt
  · exact absurd hi.2.1 (hj.2.2 i hlt)
  · exact heq
  · exact absurd hj.2.1 (hi.2.2 j hgt)

theorem readied.registered {s : Kernel} {i : Nat} (h : s.readied i) :
    s.registered i := by
  rcases h with hw | hg
  · exact hw.1
  · exact hg.2.1.1

/-- As soon as some task awaits a free mutex, one of them is granted it. -/
theorem exists_granted {s : Kernel} {i : Nat} (hfree : s.mutex = 0)
    (h : s.awaitsMutex i) : ∃ j, j ≤ i ∧ s.granted j := by
  induction i using Nat.strong_induction_on with
  | _ i ih =>
      by_cases hlow : ∃ j, j < i ∧ s.awaitsMutex j
      · obtain ⟨j, hlt, hj⟩ := hlow
        obtain ⟨k, hle, hk⟩ := ih j hlt hj
        exact ⟨k, by omega, hk⟩
      · exact ⟨i, le_refl i, hfree, h, fun j hlt hj => hlow ⟨j, hlt, hj⟩⟩

end Kernel

/-- The state of the loop of `k_task_update_state` after its first `k` turns,
compared with the state `s` it started in. -/
structure Updated (s : Kernel) (k : Nat) (u : Kernel) : Prop where
  frame : u = { s with tasks := u.tasks, mutex := u.mutex }
  readied : ∀ i, i ≤ k → s.readied i →
    u.tasks i = { s.tasks i with state := taskReady }
  kept : ∀ i, (i ≤ k → ¬ s.readied i) → u.tasks i = s.tasks i
  mutexGranted : ∀ i, i ≤ k → s.granted i → u.mutex = 1
  mutexKept : (∀ i, i ≤ k → ¬ s.granted i) → u.mutex = s.mutex

namespace Updated

variable {s u : Kernel} {k : Nat}

theorem jiffy (h : Updated s k u) : u.jiffy = s.jiffy := by
  rw [h.frame]

theorem registeredTasks (h : Updated s k u) :
    u.registeredTasks = s.registeredTasks := by
  rw [h.frame]

theorem currentTid (h : Updated s k u) : u.currentTid = s.currentTid := by
  rw [h.frame]

theorem start (s : Kernel) : Updated s 0 s where
  frame := rfl
  readied i hle h := by
    have hpos := h.registered.1
    omega
  kept _ _ := rfl
  mutexGranted i hle h := by
    have hpos := h.2.1.1.1
    omega
  mutexKept _ := rfl

/-- Before its turn comes, an entry and its tests are those of the start. -/
theorem wakes_next (h : Updated s k u) (hk : k < s.registeredTasks) :
    (u.isBlocked (k + 1) && decide (u.jiffy > (u.tasks (k + 1)).sleepUntil)) = true ↔
      s.wakes (k + 1) := by
  have htask : u.tasks (k + 1) = s.tasks (k + 1) := h.kept _ (by omega)
  have hreg : s.registered (k + 1) := ⟨by omega, by omega⟩
  simp [Kernel.wakes, Kernel.isBlocked, htask, h.jiffy, hreg]

/-- The mutex is free at turn `k + 1` exactly when it was free at the start
and no earlier turn gave it away. -/
theorem mutex_free (h : Updated s k u) :
    u.mutex = 0 ↔ s.mutex = 0 ∧ ∀ j, j < k + 1 → ¬ s.awaitsMutex j := by
  constructor
  · intro hfree
    have hnone : ∀ i, i ≤ k → ¬ s.granted i := by
      intro i hi hgrant
      have hone := h.mutexGranted i hi hgrant
      exact Kernel.mutex_taken hone hfree
    have hs : s.mutex = 0 := (h.mutexKept hnone).symm.trans hfree
    refine ⟨hs, ?_⟩
    intro j hj hwait
    obtain ⟨i, hi, hgrant⟩ := Kernel.exists_granted hs hwait
    exact hnone i (by omega) hgrant
  · rintro ⟨hs, hnone⟩
    rw [h.mutexKept (fun i hi hgrant => hnone i (by omega) hgrant.2.1)]
    exact hs

/-- A woken entry is READY when the mutex test is made, so that one fails. -/
theorem turn_woken (h : Updated s k u) (hk : k < s.registeredTasks) (hw : s.wakes (k + 1)) :
    updateTask u (k + 1) = u.setState (k + 1) taskReady := by
  have hnot : (u.setState (k + 1) taskReady).isMutexBlocked (k + 1) = false := by
    simp only [Kernel.isMutexBlocked, Kernel.setState, Kernel.setTask_tasks_self]
    decide
  simp only [updateTask, if_pos ((h.wakes_next hk).mpr hw), hnot,
    Bool.false_and, Bool.false_eq_true, if_false]

theorem turn_granted (h : Updated s k u) (hk : k < s.registeredTasks)
    (hg : s.granted (k + 1)) :
    updateTask u (k + 1) = { u.setState (k + 1) taskReady with mutex := 1 } := by
  have htask : u.tasks (k + 1) = s.tasks (k + 1) := h.kept _ (by omega)
  have hasleep := mt (h.wakes_next hk).mp hg.2.1.2.2
  have hwaits : u.isMutexBlocked (k + 1) = true := by
    simpa [Kernel.isMutexBlocked, htask] using hg.2.1.2.1
  have hfree : u.mutex = 0 := h.mutex_free.mpr ⟨hg.1, hg.2.2⟩
  simp only [updateTask, if_neg hasleep, hwaits, hfree, beq_self_eq_true, Bool.and_self,
    if_true]

theorem turn_kept (h : Updated s k u) (hk : k < s.registeredTasks)
    (hnr : ¬ s.readied (k + 1)) : updateTask u (k + 1) = u := by
  have htask : u.tasks (k + 1) = s.tasks (k + 1) := h.kept _ (by omega)
  have hreg : s.registered (k + 1) := ⟨by omega, by omega⟩
  have hw : ¬ s.wakes (k + 1) := fun hw => hnr (.inl hw)
  have hasleep := mt (h.wakes_next hk).mp hw
  have hnot : (u.isMutexBlocked (k + 1) && u.mutex == 0) = false := by
    by_contra hc
    rw [Bool.not_eq_false, Bool.and_eq_true, beq_iff_eq] at hc
    have hwaits : s.isMutexBlocked (k + 1) = true := by
      simpa [Kernel.isMutexBlocked, htask] using hc.1
    have hfree := h.mutex_free.mp hc.2
    exact hnr (.inr ⟨hfree.1, ⟨hreg, hwaits, hw⟩, hfree.2⟩)
  simp only [updateTask, if_neg hasleep, hnot, Bool.false_eq_true, if_false]

/-- A turn that treats its own entry and the mutex as it should. -/
theorem extend {u' : Kernel} (h : Updated s k u)
    (hframe : u' = { u with tasks := u'.tasks, mutex := u'.mutex })
    (hother : ∀ i, i ≠ k + 1 → u'.tasks i = u.tasks i)
    (hreadied : s.readied (k + 1) →
      u'.tasks (k + 1) = { u.tasks (k + 1) with state := taskReady })
    (hkept : ¬ s.readied (k + 1) → u'.tasks (k + 1) = u.tasks (k + 1))
    (hgranted : s.granted (k + 1) → u'.mutex = 1)
    (hmutex : ¬ s.granted (k + 1) → u'.mutex = u.mutex) : Updated s (k + 1) u' where
  frame := by
    rw [h.frame] at hframe
    exact hframe
  readied i hi hr := by
    by_cases hlast : i = k + 1
    · subst hlast
      rw [hreadied hr, h.kept _ (by omega)]
    · rw [hother i hlast]
      exact h.readied i (by omega) hr
  kept i hi := by
    by_cases hlast : i = k + 1
    · subst hlast
      rw [hkept (hi (le_refl _)), h.kept _ (by omega)]
    · rw [hother i hlast]
      exact h.kept i (fun hle => hi (by omega))
  mutexGranted i hi hg := by
    by_cases hlast : s.granted (k + 1)
    · exact hgranted hlast
    · have hne : i ≠ k + 1 := fun heq => hlast (heq ▸ hg)
      rw [hmutex hlast]
      exact h.mutexGranted i (by omega) hg
  mutexKept hnone := by
    rw [hmutex (hnone _ (le_refl _))]
    exact h.mutexKept (fun i hi => hnone i (by omega))

/-- One turn of the loop. -/
theorem turn (h : Updated s k u) (hk : k < s.registeredTasks) :
    Updated s (k + 1) (updateTask u (k + 1)) := by
  have hother : ∀ i, i ≠ k + 1 → (u.setState (k + 1) taskReady).tasks i = u.tasks i :=
    fun i hne => (u.setState_tasks _ _ i).trans (if_neg hne)
  by_cases hw : s.wakes (k + 1)
  · have hng : ¬ s.granted (k + 1) := fun hg => hg.2.1.2.2 hw
    rw [h.turn_woken hk hw]
    apply h.extend rfl hother
    · exact fun _ => u.setTask_tasks_self _ _
    · exact fun hnr => absurd (Or.inl hw) hnr
    · exact fun hg => absurd hg hng
    · exact fun _ => rfl
  · by_cases hg : s.granted (k + 1)
    · rw [h.turn_granted hk hg]
      refine h.extend rfl hother ?_ ?_ ?_ ?_
      · exact fun _ => u.setTask_tasks_self _ _
      · exact fun hnr => absurd (Or.inr hg) hnr
      · exact fun _ => rfl
      · exact fun hng => absurd hg hng
    · have hnr : ¬ s.readied (k + 1) := fun hr => hr.elim hw hg
      rw [h.turn_kept hk hnr]
      apply h.extend rfl (fun _ _ => rfl)
      · exact fun hr => absurd hr hnr
      · exact fun _ => rfl
      · exact fun hg' => absurd hg' hg
      · exact fun _ => rfl

end Updated

/-- The whole loop of `k_task_update_state`. -/
theorem kTaskUpdateState_updated (s : Kernel) :
    Updated s s.registeredTasks (kTaskUpdateState s) := by
  have hloop : ∀ k, k ≤ s.registeredTasks →
      Updated s k ((List.range' 1 k).foldl updateTask s) := by
    intro k
    induction k with
    | zero => exact fun _ => Updated.start s
    | succ k ih =>
        intro hk
        rw [List.range'_1_concat, List.foldl_append, Nat.add_comm 1 k]
        exact (ih (by omega)).turn (by omega)
  exact hloop _ (le_refl _)

section Scan

variable {s : Kernel}

/-- The scan from idle: nothing up to `tid` is ready. -/
theorem scanFromIdle_picks (fuel tid : Nat) (htid : tid ≤ s.registeredTasks)
    (hfuel : s.registeredTasks < fuel + tid)
    (hskip : ∀ y, 1 ≤ y → y ≤ tid → ¬ s.isReady y = true) :
    ∃ x, scanFromIdle s fuel tid = some x ∧
      RoundRobin.Picks s.registeredTasks (fun i => s.isReady i = true) 0 x := by
  induction fuel generalizing tid with
  | zero => omega
  | succ fuel ih =>
      simp only [scanFromIdle]
      split_ifs with hend hready
      · refine ⟨0, rfl, .none ?_⟩
        intro y hpos hle _
        exact hskip y hpos (by omega)
      · refine ⟨tid + 1, rfl, .found (by omega) (by omega) (by omega) hready ?_⟩
        intro y hpos _ _ hy
        have hlt : ¬ y ≤ tid := fun hle => hskip y hpos hle hy
        rw [RoundRobin.Ahead, if_pos (by omega)]
        omega
      · refine ih (tid + 1) (by omega) (by omega) ?_
        intro y hpos hle
        by_cases hy : y = tid + 1
        · exact hy ▸ hready
        · exact hskip y hpos (by omega)

/-- The positions the scan from `c` has passed when its cursor is at `tid`. -/
def Passed (c tid y : Nat) : Prop :=
  if c ≤ tid then c < y ∧ y ≤ tid else c < y ∨ y ≤ tid

/-- The scan from a task: nothing passed is ready. The fuel covers the turns
left until the cursor is back at `c`. -/
theorem scanFromTask_picks (c fuel tid : Nat)
    (hc : 1 ≤ c ∧ c ≤ s.registeredTasks) (htid : 1 ≤ tid ∧ tid ≤ s.registeredTasks)
    (hfuel : (if c ≤ tid then s.registeredTasks - tid + c else c - tid) ≤ fuel)
    (hskip : ∀ y, 1 ≤ y → y ≤ s.registeredTasks → Passed c tid y →
      ¬ s.isReady y = true) :
    ∃ x, scanFromTask s c fuel tid = some x ∧
      RoundRobin.Picks s.registeredTasks (fun i => s.isReady i = true) c x := by
  induction fuel generalizing tid with
  | zero => split at hfuel <;> omega
  | succ fuel ih =>
      simp only [scanFromTask]
      generalize hnext : (if tid + 1 > s.registeredTasks then 1 else tid + 1) = next
      have hahead : ∀ y, 1 ≤ y → y ≤ s.registeredTasks → y ≠ c → next ≠ c →
          ¬ Passed c tid y → RoundRobin.Ahead c y next := by
        intro y hpos hle hne hnc
        unfold Passed RoundRobin.Ahead
        split at hnext <;> split <;> split <;> omega
      split_ifs with hback hready
      · refine ⟨0, rfl, .none ?_⟩
        intro y hpos hle hne
        apply hskip y hpos hle
        unfold Passed
        split at hnext <;> split <;> omega
      · refine ⟨next, rfl, .found ?_ ?_ hback hready ?_⟩
        · split at hnext <;> omega
        · split at hnext <;> omega
        · intro y hpos hle hne hy
          exact hahead y hpos hle hne hback (fun hp => hskip y hpos hle hp hy)
      · refine ih next ?_ ?_ ?_
        · split at hnext <;> omega
        · split at hfuel <;> split at hnext <;> split <;> omega
        · intro y hpos hle hp
          by_cases hy : y = next
          · exact hy ▸ hready
          · apply hskip y hpos hle
            unfold Passed at hp ⊢
            split at hnext <;> split at hp <;> split <;> omega

/-- Both loops of `k_task_peek_next` end, and answer with the first READY task
after `ctid` in cyclic order. -/
theorem scan_picks (s : Kernel) (ctid : Nat) (h : ctid ≤ s.registeredTasks) :
    ∃ x, scan s ctid = some x ∧
      RoundRobin.Picks s.registeredTasks (fun i => s.isReady i = true) ctid x := by
  unfold scan
  split_ifs with hidle
  · subst hidle
    exact scanFromIdle_picks _ 0 (by omega) (by omega) (by omega)
  · refine scanFromTask_picks ctid _ ctid (by omega) (by omega) ?_ ?_
    · rw [if_pos (le_refl _)]
      omega
    · intro y _ _ hp
      rw [Passed, if_pos (le_refl _)] at hp
      omega

end Scan

/-- What a scheduling decision makes of the kernel `o` the calling function
left: the wake-ups and the hand-over of the mutex, then the next task. -/
structure Decision (o s : Kernel) : Prop where
  picks : RoundRobin.Picks o.registeredTasks o.readyNext o.currentTid s.currentTid
  running : s.tasks s.currentTid = { o.tasks s.currentTid with state := taskRunning }
  readied : ∀ i, i ≠ s.currentTid → o.readied i →
    s.tasks i = { o.tasks i with state := taskReady }
  kept : ∀ i, i ≠ s.currentTid → ¬ o.readied i → s.tasks i = o.tasks i
  mutexGranted : ∀ i, o.granted i → s.mutex = 1
  mutexKept : (∀ i, ¬ o.granted i) → s.mutex = o.mutex
  registeredTasks : s.registeredTasks = o.registeredTasks
  jiffy : s.jiffy = o.jiffy
  signalFlag : s.signalFlag = o.signalFlag
  signalsFlags : s.signalsFlags = o.signalsFlags
  memory : s.memory = o.memory
  sysTick : s.sysTick = if s.currentTid = 0 then o.sysTick else o.sysTick.writeVal

/-- A decision changes the state of an entry and nothing else of it. -/
theorem Decision.entry {o s : Kernel} (h : Decision o s) (i : Nat) :
    s.tasks i = { o.tasks i with state := (s.tasks i).state } := by
  by_cases hcur : i = s.currentTid
  · rw [hcur, h.running]
  · by_cases hr : o.readied i
    · rw [h.readied i hcur hr]
    · rw [h.kept i hcur hr]

theorem Decision.registered_iff {o s : Kernel} (h : Decision o s) (i : Nat) :
    s.registered i ↔ o.registered i := by
  rw [Kernel.registered, Kernel.registered, h.registeredTasks]

theorem Updated.readied_iff {s u : Kernel} (h : Updated s s.registeredTasks u)
    (i : Nat) : u.isReady i = true ↔ s.readyNext i := by
  by_cases hr : s.readied i
  · have htask := h.readied i hr.registered.2 hr
    have hready : u.isReady i = true := by
      simp only [Kernel.isReady, htask]
      decide
    exact ⟨fun _ => Or.inl hr, fun _ => hready⟩
  · have htask := h.kept i (fun _ => hr)
    simp only [Kernel.readyNext, Kernel.isReady, htask, hr, false_or]

/-- `k_task_peek_next` on a task of the table: the wake-ups, the answer of the
scan, and the timer restarted unless the answer is idle. -/
theorem kTaskPeekNext_picks (o : Kernel) (ctid : Nat) (h : ctid ≤ o.registeredTasks) :
    ∃ x, kTaskPeekNext o ctid =
        some ({ kTaskUpdateState o with
          sysTick := if x = 0 then o.sysTick else o.sysTick.writeVal }, x) ∧
      RoundRobin.Picks o.registeredTasks
        (fun i => (kTaskUpdateState o).isReady i = true) ctid x := by
  have hu := kTaskUpdateState_updated o
  have htimer : (kTaskUpdateState o).sysTick = o.sysTick := by rw [hu.frame]
  by_cases hempty : o.registeredTasks = 0
  · have hsame : kTaskUpdateState o = o := by
      rw [kTaskUpdateState, hempty]
      rfl
    refine ⟨0, ?_, ?_⟩
    · simp only [kTaskPeekNext, if_pos hempty, hsame, if_true]
    · have hidle : ctid = 0 := by omega
      rw [hempty, hidle]
      exact .none (fun y hpos hle => by omega)
  · have hreg : (kTaskUpdateState o).registeredTasks = o.registeredTasks :=
      hu.registeredTasks
    obtain ⟨x, hscan, hpicks⟩ := scan_picks (kTaskUpdateState o) ctid (by omega)
    refine ⟨x, ?_, hreg ▸ hpicks⟩
    cases x with
    | zero =>
        simp only [kTaskPeekNext, if_neg hempty, hscan, if_true, ← htimer]
    | succ x =>
        simp only [kTaskPeekNext, if_neg hempty, hscan, htimer, Nat.succ_ne_zero, if_false]

/-- Where the current task is in the table the decision is made, and this is
all it does. -/
theorem chooseTask_decision (o : Kernel) (h : o.currentTid ≤ o.registeredTasks) :
    ∃ s, chooseTask o = some s ∧ Decision o s := by
  obtain ⟨x, hpeek, hpicks⟩ := kTaskPeekNext_picks o o.currentTid h
  have hu := kTaskUpdateState_updated o
  generalize kTaskUpdateState o = u at hpeek hpicks hu
  have hstate : ∀ i, { u.tasks i with state := taskRunning } =
      { o.tasks i with state := taskRunning } := by
    intro i
    by_cases hr : o.readied i
    · rw [hu.readied i hr.registered.2 hr]
    · rw [hu.kept i (fun _ => hr)]
  let timer := if x = 0 then o.sysTick else o.sysTick.writeVal
  refine ⟨{ u with sysTick := timer, currentTid := x }.setState x taskRunning, ?_, ?_⟩
  · simp only [chooseTask, hpeek, timer]
  refine ⟨?_, ?_, ?_, ?_, ?_, ?_, hu.registeredTasks, hu.jiffy, ?_, ?_, ?_, rfl⟩
  · exact hpicks.congr (fun i _ _ => hu.readied_iff i)
  · exact (Kernel.setTask_tasks_self _ _ _).trans (hstate x)
  · intro i hne hr
    exact ((Kernel.setState_tasks _ _ _ _).trans (if_neg hne)).trans
      (hu.readied i hr.registered.2 hr)
  · intro i hne hr
    exact ((Kernel.setState_tasks _ _ _ _).trans (if_neg hne)).trans
      (hu.kept i (fun _ => hr))
  · intro i hg
    exact hu.mutexGranted i hg.2.1.1.2 hg
  · intro hnone
    exact hu.mutexKept (fun i _ => hnone i)
  · rw [hu.frame]
    rfl
  · rw [hu.frame]
    rfl
  · rw [hu.frame]
    rfl

end PascalScheduler
