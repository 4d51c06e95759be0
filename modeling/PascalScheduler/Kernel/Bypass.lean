import PascalScheduler.Kernel.Mutex

/-!
Waiting for the mutex. `k_task_update_state` hands a free mutex to the waiter
with the lowest index, whoever asked first. In a run that follows the pattern
of `main.c` (unlock, yield, lock) a waiter can therefore be passed only by
tasks below it: task 1 by nobody, task 2 once.
-/

namespace PascalScheduler

open Transition

/-- The pattern of the tasks of `main.c`: a task that has unlocked the mutex
yields before it locks it again. -/
def Usage.Polite (u : Usage) (s : Kernel) : Action → Prop
  | .mutexLock => s.currentTid ∉ u.released
  | _ => True

instance (u : Usage) (s : Kernel) (a : Action) : Decidable (u.Polite s a) :=
  match a with
  | .mutexLock => inferInstanceAs (Decidable (s.currentTid ∉ u.released))
  | .tick | .yield | .sleep _ | .mutexUnlock | .signalWait _ | .signalRaise _ | .register _ =>
      .isTrue trivial

def Usage.Disciplined (u : Usage) (s : Kernel) (a : Action) : Prop :=
  u.Lawful s a ∧ u.Polite s a

instance (u : Usage) (s : Kernel) (a : Action) : Decidable (u.Disciplined s a) :=
  inferInstanceAs (Decidable (_ ∧ _))

def disciplinedSystem (board : Board) : System (Kernel × Usage) Action :=
  (system board).observed Usage.none Usage.Disciplined Usage.record

def WaitsForMutex (s : Kernel) (t : Nat) : Prop :=
  s.registered t ∧ (s.tasks t).state = taskMutexBlocked

/-- The tasks other than `t` that acquire the mutex in one action. -/
def passes (t : Nat) (s : Kernel) (a : Action) : List Nat :=
  (acquires s a).filter (fun i => i != t)

/-- How often the mutex is acquired by others than `t` along a run. -/
def bypasses (t : Nat) : List (Event (Kernel × Usage) Action) → Nat
  | [] => 0
  | e :: tr => (passes t e.pre.1 e.label).length + bypasses t tr

/-- While task `t` of `n` waits for the mutex, others acquire it at most
`n - 1` times. -/
def BoundedBypass (board : Board) (n t : Nat) : Prop :=
  ∀ p q tr, Reachable (disciplinedSystem board) p → p.1.registeredTasks = n →
    WaitsForMutex p.1 t → Path (disciplinedSystem board) p tr q →
    (∀ e ∈ tr, WaitsForMutex e.post.1 t) → bypasses t tr ≤ n - 1

variable {board : Board} {s s' o : Kernel} {a : Action} {u : Usage} {t : Nat}

theorem disciplined_step {p : Kernel × Usage} (hdisc : p.2.Disciplined p.1 a)
    (hstep : (system board).step p.1 a s') :
    (disciplinedSystem board).step p a (s', p.2.record p.1 a s') :=
  ⟨hdisc, hstep, rfl⟩

theorem bypasses_append (t : Nat) (tr tr' : List (Event (Kernel × Usage) Action)) :
    bypasses t (tr ++ tr') = bypasses t tr + bypasses t tr' := by
  induction tr with
  | nil => exact (Nat.zero_add _).symm
  | cons e tr ih =>
      rw [List.cons_append, bypasses, bypasses, ih, Nat.add_assoc]

theorem WaitsForMutex.ne_current (hs : Wellformed s) (h : WaitsForMutex s t) :
    t ≠ s.currentTid := by
  rintro rfl
  exact running_ne_mutexBlocked (hs.running.symm.trans h.2)

/-- A waiter awaits the mutex at every decision. -/
theorem WaitsForMutex.awaits (hs : Wellformed s) (h : WaitsForMutex s t)
    (hleave : leave s a = some o) : o.awaitsMutex t := by
  have hleft := leave_leaves hleave
  have hreg : o.registered t := by
    rw [Kernel.registered, hleft.registeredTasks]
    exact h.1
  refine (awaitsMutex_iff (leave_parked hs hleave hreg)).mpr ⟨hreg, ?_⟩
  rw [hleft.other t (h.ne_current hs)]
  exact h.2

/-- What a decision says about the tasks still waiting after it: they were
waiting before it, were not granted the mutex, and the mutex is taken. -/
theorem decision_waiting (hs : Wellformed s) (hleave : leave s a = some o)
    (hdec : Decision o s') (h : WaitsForMutex s' t) :
    o.awaitsMutex t ∧ ¬ o.granted t ∧ s'.mutex ≠ 0 := by
  have hreg : o.registered t := by
    rw [Kernel.registered, ← hdec.registeredTasks]
    exact h.1
  have hwaits : o.awaitsMutex t := by
    refine (awaitsMutex_iff (leave_parked hs hleave hreg)).mpr ⟨hreg, ?_⟩
    by_contra hawake
    exact decision_awake hdec hawake h.2
  refine ⟨hwaits, fun hg => decision_granted_awake hdec (.inr hg) h.2, ?_⟩
  by_cases hg : ∃ i, o.granted i
  · obtain ⟨i, hi⟩ := hg
    exact Kernel.mutex_taken (hdec.mutexGranted i hi)
  · rw [hdec.mutexKept (fun i hi => hg ⟨i, hi⟩)]
    intro hfree
    obtain ⟨i, _, hi⟩ := Kernel.exists_granted hfree hwaits
    exact hg ⟨i, hi⟩

/-- While somebody waits, the mutex is taken, or the running task is the one
that has just released it. -/
def Guarded (s : Kernel) (u : Usage) : Prop :=
  ∀ t, WaitsForMutex s t → s.mutex = 0 → s.currentTid ∈ u.released

theorem guarded_step (hs : Wellformed s) (hguard : Guarded s u)
    (h : (system board).step s a s') : Guarded s' (u.record s a s') := by
  cases step_steps hs h with
  | decide hleave hdec =>
      intro t ht hfree
      exact absurd hfree (decision_waiting hs hleave hdec ht).2.2
  | lock => exact fun _ _ hfree => absurd hfree (Kernel.mutex_taken rfl)
  | unlock => exact fun _ _ _ => Finset.mem_insert_self _ _
  | wait | raise | full => exact hguard
  | register taskFunc hroom =>
      obtain ⟨hframe, hother, hnew⟩ := kTaskRegister_room board taskFunc hroom
      intro t ht hfree
      have hreg := ht.1
      rw [hframe] at hfree hreg ⊢
      by_cases hlast : t = s.registeredTasks + 1
      · have hstate := ht.2
        rw [hlast, hnew] at hstate
        exact absurd hstate ready_ne_mutexBlocked
      · rw [WaitsForMutex, hother t hlast] at ht
        have hle : t ≤ s.registeredTasks + 1 := hreg.2
        exact hguard t ⟨⟨hreg.1, by omega⟩, ht.2⟩ hfree

/-- What the runs of disciplined tasks keep. -/
structure Disciplined (p : Kernel × Usage) : Prop where
  wellformed : Wellformed p.1
  owned : Owned p.1 p.2
  guarded : Guarded p.1 p.2

theorem disciplined_invariant (board : Board) :
    Invariant (disciplinedSystem board) Disciplined where
  init p h := by
    obtain ⟨hwf, howned⟩ := (owned_invariant board).init p h
    refine ⟨hwf, howned, ?_⟩
    rintro t ⟨⟨hpos, hle⟩, _⟩
    obtain ⟨timer, memory, heq⟩ := h.1
    rw [heq] at hle
    have hzero : t ≤ 0 := hle
    omega
  step p a q hp h := by
    obtain ⟨hguard, hstep, hrecord⟩ := h
    have hnext := (owned_invariant board).step p a q ⟨hp.wellformed, hp.owned⟩
      ⟨hguard.1, hstep, hrecord⟩
    refine ⟨hnext.1, hnext.2, ?_⟩
    rw [hrecord]
    exact guarded_step hp.wellformed hp.guarded hstep

/-- Nobody who acquires the mutex past a waiter has a higher index. -/
theorem passes_lower (hs : Wellformed s) (hguard : Guarded s u)
    (hdisc : u.Disciplined s a) (h : (system board).step s a s')
    (hbefore : WaitsForMutex s t) (hafter : WaitsForMutex s' t) {i : Nat}
    (hi : i ∈ passes t s a) :
    ∃ o, leave s a = some o ∧ o.granted i ∧ i < t := by
  obtain ⟨hacq, hne⟩ := List.mem_filter.mp hi
  cases step_steps hs h with
  | decide hleave hdec =>
      rw [acquires_decide hleave] at hacq
      have hg := (mem_handedOver (fun i hi => leave_parked hs hleave hi) i).mp hacq
      obtain ⟨hwaits, _, _⟩ := decision_waiting hs hleave hdec hafter
      refine ⟨_, hleave, hg, ?_⟩
      by_contra hlow
      have hother : i ≠ t := by simpa using hne
      exact hg.2.2 t (by omega) hwaits
  | lock hfree => exact absurd (hguard t hbefore hfree) hdisc.2
  | unlock | wait | raise | register | full => cases hacq

/-- One action passes a waiter at most once. -/
theorem passes_length (hs : Wellformed s) (hguard : Guarded s u)
    (hdisc : u.Disciplined s a) (h : (system board).step s a s')
    (hbefore : WaitsForMutex s t) (hafter : WaitsForMutex s' t) :
    (passes t s a).length ≤ 1 := by
  have hall : ∀ i ∈ passes t s a, ∀ j ∈ passes t s a, i = j := by
    intro i hi j hj
    obtain ⟨o, hleave, hg, _⟩ := passes_lower hs hguard hdisc h hbefore hafter hi
    obtain ⟨o', hleave', hg', _⟩ := passes_lower hs hguard hdisc h hbefore hafter hj
    obtain rfl := Option.some.inj (hleave.symm.trans hleave')
    exact Kernel.granted_unique hg hg'
  have hnodup : (passes t s a).Nodup := (acquires_nodup s a).filter _
  rw [← List.toFinset_card_of_nodup hnodup, Finset.card_le_one]
  intro i hi j hj
  exact hall i (List.mem_toFinset.mp hi) j (List.mem_toFinset.mp hj)

/-- Task 1 cannot pass a waiter any more: it holds the mutex, or has just
released it and still runs. -/
def Served (s : Kernel) (u : Usage) : Prop :=
  1 ∈ u.holders ∨ (s.mutex = 0 ∧ s.currentTid = 1)

theorem mutex_zero_of_granted {i : Nat} (hleave : leave s a = some o) (hg : o.granted i) :
    s.mutex = 0 :=
  (leave_leaves hleave).mutex ▸ hg.1

/-- The running task is not granted the mutex: it only starts to wait for one
that is taken. -/
theorem granted_ne_current {i : Nat} (hs : Wellformed s) (hleave : leave s a = some o)
    (hg : o.granted i) : i ≠ s.currentTid := by
  rintro rfl
  have hreg := hg.2.1.1
  have hstate := ((awaitsMutex_iff (leave_parked hs hleave hreg)).mp hg.2.1).2
  exact (leave_mutexBlocked hleave hstate).2 (mutex_zero_of_granted hleave hg)

/-- A step that passes task 2 serves task 1, which was not served before. -/
theorem passed_served (hs : Wellformed s) (howned : Owned s u) (hguard : Guarded s u)
    (hdisc : u.Disciplined s a) (h : (system board).step s a s')
    (hbefore : WaitsForMutex s 2) (hafter : WaitsForMutex s' 2) {i : Nat}
    (hi : i ∈ passes 2 s a) : ¬ Served s u ∧ Served s' (u.record s a s') := by
  obtain ⟨o, hleave, hg, hlow⟩ := passes_lower hs hguard hdisc h hbefore hafter hi
  have hpos := hg.2.1.1.1
  obtain rfl : i = 1 := by omega
  have hfree := mutex_zero_of_granted hleave hg
  constructor
  · rintro (hholds | ⟨_, hcur⟩)
    · cases howned with
      | free _ hnone => exact absurd (hnone ▸ hholds) (Finset.notMem_empty 1)
      | held _ hmutex => exact Kernel.mutex_taken hmutex hfree
    · exact granted_ne_current hs hleave hg hcur.symm
  · left
    rw [record_decide hleave, Finset.mem_union, List.mem_toFinset]
    exact .inr ((mem_handedOver (fun i hi => leave_parked hs hleave hi) 1).mpr hg)

/-- Task 1 stays served as long as task 2 waits. -/
theorem served_step (hs : Wellformed s) (howned : Owned s u)
    (hdisc : u.Disciplined s a) (h : (system board).step s a s')
    (hbefore : WaitsForMutex s 2) (hafter : WaitsForMutex s' 2) (hserved : Served s u) :
    Served s' (u.record s a s') := by
  cases step_steps hs h with
  | @decide _ o _ hleave hdec =>
      rcases hserved with hholds | ⟨hfree, hcur⟩
      · left
        rw [record_decide hleave]
        exact Finset.mem_union_left _ hholds
      · -- the free mutex goes to task 2 at this decision, so 2 does not wait on
        have hzero : o.mutex = 0 := (leave_leaves hleave).mutex.trans hfree
        obtain ⟨i, hle, hg⟩ := Kernel.exists_granted hzero (hbefore.awaits hs hleave)
        have hpos := hg.2.1.1.1
        have hne := granted_ne_current hs hleave hg
        obtain rfl : i = 2 := by omega
        exact absurd hg (decision_waiting hs hleave hdec hafter).2.1
  | lock hfree =>
      rcases hserved with hholds | ⟨_, hcur⟩
      · exact .inl (Finset.mem_union_left _ hholds)
      · left
        refine Finset.mem_union_right _ (List.mem_toFinset.mpr ?_)
        simp only [acquires, leave, if_pos hfree, hcur, List.mem_singleton]
  | unlock =>
      have hlawful : s.currentTid ∈ u.holders := hdisc.1
      cases howned with
      | free _ hnone => exact absurd (hnone ▸ hlawful) (Finset.notMem_empty _)
      | held owner hmutex howner =>
          rcases hserved with hholds | ⟨hfree, _⟩
          · right
            rw [howner, Finset.mem_singleton] at hlawful hholds
            exact ⟨rfl, hlawful.trans hholds.symm⟩
          · exact absurd hfree (Kernel.mutex_taken hmutex)
  | wait | raise | full =>
      refine hserved.imp (fun hholds => ?_) id
      exact Finset.mem_union_left _ hholds
  | register taskFunc hroom =>
      obtain ⟨hframe, _, _⟩ := kTaskRegister_room board taskFunc hroom
      refine hserved.imp (fun hholds => ?_) (fun hlast => ?_)
      · exact Finset.mem_union_left _ hholds
      · rw [hframe]
        exact hlast

/-- While task 1 waits, nobody passes it. -/
theorem bypasses_first {p q : Kernel × Usage} {tr : List (Event (Kernel × Usage) Action)}
    (hp : Disciplined p) (hwaits : WaitsForMutex p.1 1)
    (hpath : Path (disciplinedSystem board) p tr q)
    (hstay : ∀ e ∈ tr, WaitsForMutex e.post.1 1) : bypasses 1 tr = 0 := by
  induction hpath with
  | nil => rfl
  | @cons p v q a tr hstep _ ih =>
      obtain ⟨hfirst, hrest⟩ := List.forall_mem_cons.mp hstay
      have hnone : passes 1 p.1 a = [] := by
        rw [List.eq_nil_iff_forall_not_mem]
        intro i hi
        obtain ⟨o, _, hg, hlow⟩ :=
          passes_lower hp.wellformed hp.guarded hstep.1 hstep.2.1 hwaits hfirst hi
        have hpos := hg.2.1.1.1
        omega
      rw [bypasses, ih ((disciplined_invariant board).step _ _ _ hp hstep) hfirst hrest, hnone]
      rfl

/-- While task 2 waits, task 1 passes it at most once, and not at all once it
is served. -/
theorem bypasses_second {p q : Kernel × Usage} {tr : List (Event (Kernel × Usage) Action)}
    (hp : Disciplined p) (hwaits : WaitsForMutex p.1 2)
    (hpath : Path (disciplinedSystem board) p tr q)
    (hstay : ∀ e ∈ tr, WaitsForMutex e.post.1 2) :
    bypasses 2 tr ≤ 1 ∧ (Served p.1 p.2 → bypasses 2 tr = 0) := by
  induction hpath with
  | nil => exact ⟨Nat.zero_le 1, fun _ => rfl⟩
  | @cons p v q a tr hstep _ ih =>
      obtain ⟨hfirst, hrest⟩ := List.forall_mem_cons.mp hstay
      obtain ⟨hbound, hnone⟩ :=
        ih ((disciplined_invariant board).step _ _ _ hp hstep) hfirst hrest
      obtain ⟨hdisc, hone, hrecord⟩ := hstep
      rw [bypasses]
      by_cases hempty : passes 2 p.1 a = []
      · rw [hempty, List.length_nil, Nat.zero_add]
        refine ⟨hbound, fun hserved => hnone ?_⟩
        rw [hrecord]
        exact served_step hp.wellformed hp.owned hdisc hone hwaits hfirst hserved
      · obtain ⟨i, hi⟩ := List.exists_mem_of_ne_nil _ hempty
        obtain ⟨hnot, hserved⟩ :=
          passed_served hp.wellformed hp.owned hp.guarded hdisc hone hwaits hfirst hi
        rw [← hrecord] at hserved
        have hlength := passes_length hp.wellformed hp.guarded hdisc hone hwaits hfirst
        refine ⟨?_, fun h => absurd h hnot⟩
        change (passes 2 p.1 a).length + bypasses 2 tr ≤ 1
        rw [hnone hserved]
        exact hlength

end PascalScheduler
