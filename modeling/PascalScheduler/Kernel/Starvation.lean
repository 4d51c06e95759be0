import PascalScheduler.Kernel.Bypass

/-!
Starvation of the tasks above 2. Tasks 1 and 2 can pass the mutex to each other
for ever, each of them waiting whenever the other unlocks, while every other
task waits for it. The schedule is followed through states in which each
registered task is either READY or MUTEX_BLOCKED.
-/

namespace PascalScheduler

open Transition RoundRobin

/-- The state of a task that is READY or waits for the mutex. -/
def crowdState (ready : Finset Nat) (i : Nat) : UInt32 :=
  if i ∈ ready then taskReady else taskMutexBlocked

/-- `n` tasks of which `c` runs and the others are READY, those of `ready`, or
wait for the mutex. -/
structure Crowd (n c : Nat) (ready : Finset Nat) (m : Int32) (s : Kernel) : Prop where
  wellformed : Wellformed s
  count : s.registeredTasks = n
  current : s.currentTid = c
  mutex : s.mutex = m
  flag : s.signalFlag = 0
  states : ∀ i, 1 ≤ i → i ≤ n → i ≠ c → (s.tasks i).state = crowdState ready i

/-- The tasks that the next decision hands the mutex to. -/
def HandsTo (n : Nat) (ready : Finset Nat) (m : Int32) (handed : Finset Nat) : Prop :=
  ∀ i, i ∈ handed ↔ m = 0 ∧ 1 ≤ i ∧ i ≤ n ∧ i ∉ ready ∧ ∀ j, 1 ≤ j → j < i → j ∈ ready

variable {board : Board} {s s' o : Kernel} {a : Action} {n c t x : Nat} {m : Int32}
  {ready handed : Finset Nat} {p : Kernel × Usage}

/-- Whether the running task counts as READY does not matter. -/
theorem Crowd.congr {ready' : Finset Nat} (h : Crowd n c ready m s)
    (hiff : ∀ i, i ≠ c → (i ∈ ready ↔ i ∈ ready')) : Crowd n c ready' m s where
  wellformed := h.wellformed
  count := h.count
  current := h.current
  mutex := h.mutex
  flag := h.flag
  states i hpos hle hne := by
    rw [h.states i hpos hle hne, crowdState, crowdState]
    simp only [hiff i hne]

theorem Crowd.waits (h : Crowd n c ready m s) (hpos : 1 ≤ t) (hle : t ≤ n) (hne : t ≠ c)
    (hnot : t ∉ ready) : WaitsForMutex s t := by
  refine ⟨⟨hpos, h.count.symm ▸ hle⟩, ?_⟩
  rw [h.states t hpos hle hne, crowdState, if_neg hnot]

theorem crowdState_isReady (i : Nat) :
    (crowdState ready i &&& taskReady != 0) = decide (i ∈ ready) := by
  unfold crowdState
  split_ifs with hi
  · rw [decide_eq_true hi]
    decide
  · rw [decide_eq_false hi]
    decide

theorem crowdState_isMutexBlocked (i : Nat) :
    (crowdState ready i &&& taskMutexBlocked != 0) = !decide (i ∈ ready) := by
  unfold crowdState
  split_ifs with hi
  · rw [decide_eq_true hi]
    decide
  · rw [decide_eq_false hi]
    decide

theorem crowdState_not_blocked (i : Nat) : (crowdState ready i &&& taskBlocked != 0) = false := by
  unfold crowdState
  split_ifs <;> decide

/-- The kernel a decision starts from, when the running task stops in a state
that fits the crowd. -/
structure Queue (n : Nat) (ready : Finset Nat) (m : Int32) (o : Kernel) : Prop where
  count : o.registeredTasks = n
  mutex : o.mutex = m
  states : ∀ i, 1 ≤ i → i ≤ n → (o.tasks i).state = crowdState ready i

theorem Crowd.queue (h : Crowd n c ready m s) (hleave : leave s a = some o)
    (hout : 1 ≤ c → (leftEntry s a).state = crowdState ready c) : Queue n ready m o := by
  have hleft := leave_leaves hleave
  refine ⟨hleft.registeredTasks.trans h.count, hleft.mutex.trans h.mutex, ?_⟩
  intro i hpos hle
  by_cases hcur : i = c
  · rw [hcur, ← h.current, hleft.entry, h.current]
    exact hout (hcur ▸ hpos)
  · rw [hleft.other i (h.current.symm ▸ hcur)]
    exact h.states i hpos hle hcur

theorem Queue.registered (h : Queue n ready m o) (i : Nat) :
    o.registered i ↔ 1 ≤ i ∧ i ≤ n := by
  rw [Kernel.registered, h.count]

theorem Queue.not_wakes (h : Queue n ready m o) (i : Nat) : ¬ o.wakes i := by
  rintro ⟨hreg, hbit, _⟩
  obtain ⟨hpos, hle⟩ := (h.registered i).mp hreg
  rw [Kernel.isBlocked, h.states i hpos hle, crowdState_not_blocked] at hbit
  cases hbit

theorem Queue.awaits_iff (h : Queue n ready m o) (i : Nat) :
    o.awaitsMutex i ↔ 1 ≤ i ∧ i ≤ n ∧ i ∉ ready := by
  rw [Kernel.awaitsMutex, h.registered, Kernel.isMutexBlocked]
  constructor
  · rintro ⟨⟨hpos, hle⟩, hbit, _⟩
    rw [h.states i hpos hle, crowdState_isMutexBlocked] at hbit
    exact ⟨hpos, hle, by simpa using hbit⟩
  · rintro ⟨hpos, hle, hnot⟩
    rw [h.states i hpos hle, crowdState_isMutexBlocked]
    exact ⟨⟨hpos, hle⟩, by simpa using hnot, h.not_wakes i⟩

theorem Queue.granted_iff (h : Queue n ready m o) (hhands : HandsTo n ready m handed)
    (i : Nat) : o.granted i ↔ i ∈ handed := by
  rw [hhands i, Kernel.granted, h.mutex, h.awaits_iff]
  constructor
  · rintro ⟨hfree, ⟨hpos, hle, hnot⟩, hfirst⟩
    refine ⟨hfree, hpos, hle, hnot, ?_⟩
    intro j hj hlt
    by_contra hout
    exact hfirst j hlt ((h.awaits_iff j).mpr ⟨hj, by omega, hout⟩)
  · rintro ⟨hfree, hpos, hle, hnot, hfirst⟩
    refine ⟨hfree, ⟨hpos, hle, hnot⟩, ?_⟩
    intro j hlt hwaits
    obtain ⟨hj, _, hout⟩ := (h.awaits_iff j).mp hwaits
    exact hout (hfirst j hj hlt)

theorem Queue.readied_iff (h : Queue n ready m o) (hhands : HandsTo n ready m handed)
    (i : Nat) : o.readied i ↔ i ∈ handed := by
  rw [← h.granted_iff hhands]
  exact ⟨fun hr => hr.resolve_left (h.not_wakes i), .inr⟩

/-- A decision in a crowd: the mutex is handed over as foreseen, and the next
task runs. -/
theorem Crowd.decide (h : Crowd n c ready m s) (hleave : leave s a = some o)
    (hout : 1 ≤ c → (leftEntry s a).state = crowdState ready c)
    (hhands : HandsTo n ready m handed)
    (hpicks : Picks n (fun i => i ∈ ready ∪ handed) c x)
    (hwf : Wellformed s') (hdec : Decision o s') (hflag : o.signalFlag = 0) :
    Crowd n x (ready ∪ handed) (if handed = ∅ then m else 1) s' := by
  have hqueue := h.queue hleave hout
  have hleft := leave_leaves hleave
  have hreadied := hqueue.readied_iff hhands
  have hcurrent : s'.currentTid = x := by
    have hfirst := hdec.picks
    rw [hqueue.count, hleft.currentTid, h.current] at hfirst
    refine (hfirst.congr ?_).unique hpicks
    intro i hpos hle
    rw [Kernel.readyNext, hreadied, Kernel.isReady, hqueue.states i hpos hle,
      crowdState_isReady, decide_eq_true_iff, Finset.mem_union]
    exact or_comm
  refine ⟨hwf, hdec.registeredTasks.trans hqueue.count, hcurrent, ?_,
    hdec.signalFlag.trans hflag, ?_⟩
  · split_ifs with hempty
    · rw [hdec.mutexKept, hqueue.mutex]
      intro i hg
      have hmem := (hqueue.granted_iff hhands i).mp hg
      rw [hempty] at hmem
      exact Finset.notMem_empty i hmem
    · obtain ⟨i, hi⟩ := Finset.nonempty_iff_ne_empty.mpr hempty
      exact hdec.mutexGranted i ((hqueue.granted_iff hhands i).mpr hi)
  · intro i hpos hle hne
    rw [← hcurrent] at hne
    by_cases hr : i ∈ handed
    · rw [hdec.readied i hne ((hreadied i).mpr hr), crowdState,
        if_pos (Finset.mem_union_right _ hr)]
    · rw [hdec.kept i hne (fun hc => hr ((hreadied i).mp hc)), hqueue.states i hpos hle]
      simp only [crowdState, Finset.mem_union, hr, or_false]

/-- A crowd with what the run says about the mutex. -/
structure Stage (n c : Nat) (ready : Finset Nat) (m : Int32) (u : Usage)
    (p : Kernel × Usage) : Prop where
  crowd : Crowd n c ready m p.1
  usage : p.2 = u

theorem Stage.decide {u : Usage} (board : Board) (h : Stage n c ready m u p)
    (henabled : Enabled p.1 a) (hdisc : u.Disciplined p.1 a)
    (hleave : leave p.1 a = some o)
    (hout : 1 ≤ c → (leftEntry p.1 a).state = crowdState ready c)
    (hhands : HandsTo n ready m handed)
    (hpicks : Picks n (fun i => i ∈ ready ∪ handed) c x) :
    ∃ q, (disciplinedSystem board).step p a q ∧
      Stage n x (ready ∪ handed) (if handed = ∅ then m else 1)
        ⟨u.holders ∪ handed, u.releasedAfter p.1 a⟩ q ∧
      ∀ i ∈ handed, i ≠ t → 1 ≤ (passes t p.1 a).length := by
  have hwf := h.crowd.wellformed
  obtain ⟨s', hstep⟩ := enabled_steps board hwf henabled
  have hqueue := h.crowd.queue hleave hout
  have hmem : ∀ i, i ∈ handedOver o ↔ i ∈ handed := fun i =>
    (mem_handedOver (fun i hi => leave_parked hwf hleave hi) i).trans
      (hqueue.granted_iff hhands i)
  refine ⟨_, disciplined_step (h.usage ▸ hdisc) hstep, ⟨?_, ?_⟩, ?_⟩
  · rcases (step_steps hwf hstep).decides_or_quiet with ⟨o', hleave', hdec⟩ | ⟨hnone, _⟩
    · obtain rfl := Option.some.inj (hleave.symm.trans hleave')
      exact h.crowd.decide hleave hout hhands hpicks (wellformed_step hwf hstep) hdec
        (leave_signalFlag henabled hleave)
    · rw [hnone] at hleave
      cases hleave
  · have hholders := record_decide (u := u) (t := s') hleave
    have hlist : (handedOver o).toFinset = handed := by
      ext i
      rw [List.mem_toFinset, hmem]
    rw [hlist] at hholders
    rw [h.usage, ← hholders]
    rfl
  · intro i hi hne
    refine List.length_pos_of_mem (a := i) (List.mem_filter.mpr ⟨?_, by simpa using hne⟩)
    rw [acquires_decide hleave]
    exact (hmem i).mpr hi

section Steps

variable {u : Usage}

theorem Stage.enabled (h : Stage n c ready m u p) (hc : 1 ≤ c) :
    p.1.currentTid ≠ 0 ∧ p.1.signalFlag = 0 := by
  refine ⟨?_, h.crowd.flag⟩
  rw [h.crowd.current]
  omega

/-- The running task yields. -/
theorem Stage.yield (board : Board) (t : Nat) (h : Stage n c ready m u p) (hc : 1 ≤ c)
    (hready : c ∈ ready) (hhands : HandsTo n ready m handed)
    (hpicks : Picks n (fun i => i ∈ ready ∪ handed) c x) :
    ∃ q, (disciplinedSystem board).step p .yield q ∧
      Stage n x (ready ∪ handed) (if handed = ∅ then m else 1)
        ⟨u.holders ∪ handed, u.released.erase c⟩ q ∧
      ∀ i ∈ handed, i ≠ t → 1 ≤ (passes t p.1 .yield).length := by
  rw [← h.crowd.current]
  refine h.decide board (h.enabled hc) ⟨trivial, trivial⟩ rfl ?_ hhands hpicks
  intro _
  rw [crowdState, if_pos hready]
  rfl

/-- The running task locks a mutex that is taken. -/
theorem Stage.lock (board : Board) (h : Stage n c ready 1 u p) (hc : 1 ≤ c)
    (hready : c ∉ ready) (hholders : c ∉ u.holders) (hreleased : c ∉ u.released)
    (hpicks : Picks n (fun i => i ∈ ready) c x) :
    ∃ q, (disciplinedSystem board).step p .mutexLock q ∧ Stage n x ready 1 u q := by
  have hhands : HandsTo n ready 1 ∅ := by
    intro i
    exact ⟨fun hi => absurd hi (Finset.notMem_empty i), fun hi => absurd hi.1 (by decide)⟩
  have hleave : leave p.1 .mutexLock = some (leaveLock p.1) := by
    rw [leave, if_neg (Kernel.mutex_taken h.crowd.mutex)]
  rw [← h.crowd.current] at hholders hreleased
  obtain ⟨q, hstep, hstage, _⟩ := h.decide (a := .mutexLock) (t := 0) board (h.enabled hc)
    ⟨hholders, hreleased⟩ hleave
    (fun _ => by rw [crowdState, if_neg hready]; rfl) hhands
    (by simpa only [Finset.union_empty] using hpicks)
  refine ⟨q, hstep, ?_⟩
  rw [Finset.union_empty, Finset.union_empty, if_pos rfl] at hstage
  exact hstage

/-- The running task locks a free mutex, or unlocks the one it holds. -/
theorem Stage.lock_free (board : Board) (h : Stage n c ready 0 Usage.none p) (hc : 1 ≤ c) :
    ∃ q, (disciplinedSystem board).step p .mutexLock q ∧ Stage n c ready 1 ⟨{c}, ∅⟩ q := by
  have hwf := h.crowd.wellformed
  have hfree := h.crowd.mutex
  have hstep : (system board).step p.1 .mutexLock { p.1 with mutex := 1 } := by
    refine ⟨h.enabled hc, ?_⟩
    change kMutexLock p.1 = _
    rw [kMutexLock, if_pos hfree]
  have hacq : acquires p.1 .mutexLock = [c] := by
    simp only [acquires, leave, if_pos hfree, h.crowd.current]
  have hdisc : p.2.Disciplined p.1 .mutexLock := by
    rw [h.usage]
    exact ⟨Finset.notMem_empty _, Finset.notMem_empty _⟩
  refine ⟨_, disciplined_step hdisc hstep, ⟨?_, ?_⟩⟩
  · exact ⟨wellformed_step hwf hstep, h.crowd.count, h.crowd.current, rfl, h.crowd.flag,
      h.crowd.states⟩
  · have hholders : Usage.none.holders ∪ (acquires p.1 .mutexLock).toFinset = {c} := by
      rw [hacq]
      rfl
    rw [h.usage, ← hholders]
    rfl

theorem Stage.unlock (board : Board) (h : Stage n c ready 1 ⟨{c}, ∅⟩ p) (hc : 1 ≤ c) :
    ∃ q, (disciplinedSystem board).step p .mutexUnlock q ∧
      Stage n c ready 0 ⟨∅, {c}⟩ q := by
  have hcur := h.crowd.current
  have hstep : (system board).step p.1 .mutexUnlock { p.1 with mutex := 0 } :=
    ⟨h.enabled hc, rfl⟩
  have hdisc : p.2.Disciplined p.1 .mutexUnlock := by
    refine ⟨?_, trivial⟩
    rw [h.usage]
    exact Finset.mem_singleton.mpr hcur
  refine ⟨_, disciplined_step hdisc hstep, ⟨?_, ?_⟩⟩
  · exact ⟨wellformed_step h.crowd.wellformed hstep, h.crowd.count, hcur, rfl, h.crowd.flag,
      h.crowd.states⟩
  · have hholders : ({c} : Finset Nat).erase p.1.currentTid = ∅ := by
      rw [hcur, Finset.erase_singleton]
    have hreleased : insert p.1.currentTid (∅ : Finset Nat) = {c} := by
      rw [hcur]
      rfl
    rw [h.usage]
    exact congrArg₂ Usage.mk hholders hreleased

end Steps

/-- One round of two tasks: the holder `h` unlocks and yields to `k`, which was
granted the mutex; `k` yields back, and `h` blocks on the mutex. -/
theorem Stage.round (board : Board) {h k : Nat} (hpair : (h = 1 ∧ k = 2) ∨ (h = 2 ∧ k = 1))
    (hp : Stage n h ∅ 1 ⟨{h}, ∅⟩ p) (ht : 3 ≤ t ∧ t ≤ n) :
    ∃ tr q, Path (disciplinedSystem board) p tr q ∧ Stage n k ∅ 1 ⟨{k}, ∅⟩ q ∧
      (∀ e ∈ tr, WaitsForMutex e.post.1 t) ∧ 1 ≤ bypasses t tr := by
  obtain ⟨q₁, hstep₁, hq₁⟩ := hp.unlock board (by omega)
  have hq₁' : Stage n h {h} 0 ⟨∅, {h}⟩ q₁ :=
    ⟨hq₁.crowd.congr (by simp), hq₁.usage⟩
  -- the free mutex goes to the lowest waiter, which is `k`
  have hhands : HandsTo n {h} 0 {k} := by
    intro i
    simp only [Finset.mem_singleton, true_and]
    constructor
    · rintro rfl
      exact ⟨by omega, by omega, by omega, fun j _ _ => by omega⟩
    · rintro ⟨hpos, _, hne, hlow⟩
      have hfirst := hlow k
      omega
  obtain ⟨q₂, hstep₂, hq₂, hpass⟩ := hq₁'.yield board t (by omega)
    (Finset.mem_singleton_self h) hhands
    (Picks.only (x := k) (by omega) (by omega) (by omega) (by simp) (by simp))
  rw [if_neg (Finset.singleton_ne_empty k), Finset.erase_singleton, Finset.empty_union] at hq₂
  have hnobody : HandsTo n ({h} ∪ {k}) 1 ∅ := by
    intro i
    simp
  obtain ⟨q₃, hstep₃, hq₃, _⟩ := hq₂.yield board t (by omega) (by simp) hnobody
    (Picks.only (x := h) (by omega) (by omega) (by omega) (by simp) (by simp))
  rw [if_pos rfl, Finset.union_empty, Finset.union_empty, Finset.erase_empty] at hq₃
  have hq₃' : Stage n h {k} 1 ⟨{k}, ∅⟩ q₃ :=
    ⟨hq₃.crowd.congr (by simp +contextual), hq₃.usage⟩
  obtain ⟨q₄, hstep₄, hq₄⟩ := hq₃'.lock board (by omega) (by simp; omega) (by simp; omega)
    (by simp) (Picks.only (x := k) (by omega) (by omega) (by omega) (by simp) (by simp))
  have hlast : Stage n k ∅ 1 ⟨{k}, ∅⟩ q₄ :=
    ⟨hq₄.crowd.congr (by simp), hq₄.usage⟩
  refine ⟨_, q₄, .cons hstep₁ (.cons hstep₂ (.cons hstep₃ (.single hstep₄))), hlast, ?_, ?_⟩
  · have hne : t ≠ h ∧ t ≠ k := by omega
    simp only [List.forall_mem_cons]
    refine ⟨?_, ?_, ?_, ?_, by simp⟩
    · exact hq₁.crowd.waits (by omega) ht.2 hne.1 (by simp)
    · exact hq₂.crowd.waits (by omega) ht.2 hne.2 (by simp; omega)
    · exact hq₃.crowd.waits (by omega) ht.2 hne.1 (by simp; omega)
    · exact hlast.crowd.waits (by omega) ht.2 hne.2 (by simp)
  · have hone := hpass k (Finset.mem_singleton_self k) (by omega)
    simp only [bypasses]
    omega

/-- As many rounds as wanted. -/
theorem Stage.rounds (board : Board) (ht : 3 ≤ t ∧ t ≤ n)
    (hp : Stage n 1 ∅ 1 ⟨{1}, ∅⟩ p) (count : Nat) :
    ∃ tr q, Path (disciplinedSystem board) p tr q ∧
      (Stage n 1 ∅ 1 ⟨{1}, ∅⟩ q ∨ Stage n 2 ∅ 1 ⟨{2}, ∅⟩ q) ∧
      (∀ e ∈ tr, WaitsForMutex e.post.1 t) ∧ count ≤ bypasses t tr := by
  induction count with
  | zero => exact ⟨[], p, .nil p, .inl hp, by simp, Nat.zero_le _⟩
  | succ count ih =>
      obtain ⟨tr, q, hpath, hq, hwaits, hcount⟩ := ih
      have hround : ∃ tr' q', Path (disciplinedSystem board) q tr' q' ∧
          (Stage n 1 ∅ 1 ⟨{1}, ∅⟩ q' ∨ Stage n 2 ∅ 1 ⟨{2}, ∅⟩ q') ∧
          (∀ e ∈ tr', WaitsForMutex e.post.1 t) ∧ 1 ≤ bypasses t tr' := by
        rcases hq with hq | hq
        · obtain ⟨tr', q', hpath', hq', hrest⟩ := hq.round board (.inl ⟨rfl, rfl⟩) ht
          exact ⟨tr', q', hpath', .inr hq', hrest⟩
        · obtain ⟨tr', q', hpath', hq', hrest⟩ := hq.round board (.inr ⟨rfl, rfl⟩) ht
          exact ⟨tr', q', hpath', .inl hq', hrest⟩
      obtain ⟨tr', q', hpath', hq', hwaits', hone⟩ := hround
      refine ⟨tr ++ tr', q', hpath.append hpath', hq', ?_, ?_⟩
      · exact fun e he => (List.mem_append.mp he).elim (hwaits e) (hwaits' e)
      · rw [bypasses_append]
        omega

/-- Start-up: `n` tasks are registered from idle. -/
theorem stage_registered (board : Board) (hn : n < maxTasks) :
    ∃ p, Reachable (disciplinedSystem board) p ∧
      Stage n 0 (Finset.Icc 1 n) 0 Usage.none p := by
  induction n with
  | zero =>
      have hboot : (disciplinedSystem board).init (boot board, Usage.none) :=
        ⟨⟨_, _, rfl⟩, rfl⟩
      refine ⟨(boot board, Usage.none), reachable_init hboot, ⟨⟨?_, rfl, rfl, rfl, rfl, ?_⟩, rfl⟩⟩
      · exact reachable_wellformed (boot_reachable board)
      · intro i hpos hle
        omega
  | succ n ih =>
      obtain ⟨p, hreach, hp⟩ := ih (by omega)
      have hroom : p.1.registeredTasks + 1 < maxTasks := by
        rw [hp.crowd.count]
        exact hn
      obtain ⟨hframe, hother, hnew⟩ := kTaskRegister_room board 0 hroom
      have hstep : (system board).step p.1 (.register 0) (kTaskRegister board 0 p.1).1 :=
        ⟨hp.crowd.flag, rfl⟩
      have hone := disciplined_step (a := .register 0) (p := p) ⟨trivial, trivial⟩ hstep
      refine ⟨_, hreach.next hone, ⟨⟨wellformed_step hp.crowd.wellformed hstep, ?_, ?_, ?_,
        ?_, ?_⟩, ?_⟩⟩
      · rw [hframe, ← hp.crowd.count]
      · rw [hframe]
        exact hp.crowd.current
      · rw [hframe]
        exact hp.crowd.mutex
      · rw [hframe]
        exact hp.crowd.flag
      · intro i hpos hle hne
        rw [crowdState, if_pos (Finset.mem_Icc.mpr ⟨hpos, hle⟩)]
        by_cases hlast : i = n + 1
        · rw [hlast, ← hp.crowd.count, hnew]
        · rw [hother i (by rw [hp.crowd.count]; exact hlast),
            hp.crowd.states i hpos (by omega) hne, crowdState,
            if_pos (Finset.mem_Icc.mpr ⟨hpos, by omega⟩)]
      · rw [hp.usage]
        rfl

/-- Task 1 takes the mutex and yields; the tasks up to `j - 1` have blocked on
it in turn. -/
theorem stage_blocked (board : Board) (hn : n < maxTasks) {j : Nat} (hj : 2 ≤ j)
    (hle : j ≤ n) :
    ∃ p, Reachable (disciplinedSystem board) p ∧
      Stage n j (insert 1 (Finset.Ioc j n)) 1 ⟨{1}, ∅⟩ p := by
  induction j, hj using Nat.le_induction with
  | base =>
      obtain ⟨p, hreach, hp⟩ := stage_registered board hn
      have hall : HandsTo n (Finset.Icc 1 n) 0 ∅ := by
        intro i
        simp only [Finset.notMem_empty, Finset.mem_Icc, false_iff]
        omega
      obtain ⟨p₁, hstep₁, hp₁, _⟩ := hp.decide (a := .tick) (t := 0) board trivial
        ⟨trivial, trivial⟩ rfl (by omega) hall (.next (by omega) (by simp; omega))
      rw [if_pos rfl, Finset.union_empty] at hp₁
      obtain ⟨p₂, hstep₂, hp₂⟩ := Stage.lock_free board hp₁ (le_refl 1)
      have hnobody : HandsTo n (Finset.Icc 1 n) 1 ∅ := by
        intro i
        simp
      obtain ⟨p₃, hstep₃, hp₃, _⟩ := hp₂.yield board 0 (le_refl 1)
        (by simp; omega) hnobody (.next hle (by simp; omega))
      rw [if_pos rfl] at hp₃
      refine ⟨p₃, ((hreach.next hstep₁).next hstep₂).next hstep₃,
        ⟨hp₃.crowd.congr ?_, hp₃.usage⟩⟩
      intro i hne
      simp only [Finset.union_empty, Finset.mem_Icc, Finset.mem_insert, Finset.mem_Ioc]
      omega
  | succ j hj ih =>
      obtain ⟨p, hreach, hp⟩ := ih (by omega)
      obtain ⟨q, hstep, hq⟩ := hp.lock board (by omega) (by simp; omega)
        (by simp; omega) (by simp) (.next hle (by simp; omega))
      refine ⟨q, hreach.next hstep, ⟨hq.crowd.congr ?_, hq.usage⟩⟩
      intro i hne
      simp only [Finset.mem_insert, Finset.mem_Ioc]
      omega

/-- In some run task 1 holds the mutex and all the others wait for it. -/
theorem stage_contended (board : Board) (hn : n < maxTasks) (htwo : 2 ≤ n) :
    ∃ p, Reachable (disciplinedSystem board) p ∧ Stage n 1 ∅ 1 ⟨{1}, ∅⟩ p := by
  obtain ⟨p, hreach, hp⟩ := stage_blocked board hn htwo (le_refl n)
  rw [Finset.Ioc_self] at hp
  obtain ⟨q, hstep, hq⟩ := hp.lock board (x := 1) (by omega) (by simp; omega)
    (by simp; omega) (by simp)
    (Picks.only (le_refl 1) (by omega) (by omega) (by simp) (by simp))
  exact ⟨q, hreach.next hstep, ⟨hq.crowd.congr (by simp), hq.usage⟩⟩

/-- A task above 2 can be passed more often than there are other tasks. -/
theorem unbounded_bypass (board : Board) (hhigh : 3 ≤ t) (hle : t ≤ n) (hn : n < maxTasks) :
    ¬ BoundedBypass board n t := by
  intro hbound
  obtain ⟨p, hreach, hp⟩ := stage_contended board hn (by omega)
  obtain ⟨tr, q, hpath, _, hwaits, hcount⟩ := hp.rounds board ⟨hhigh, hle⟩ n
  have hstart := hp.crowd.waits (by omega) hle (by omega) (Finset.notMem_empty t)
  have hmost := hbound p q tr hreach hp.crowd.count hstart hpath hwaits
  omega

/-- While task `t` waits, others acquire the mutex at most `n - 1` times in
every run of disciplined tasks, if and only if `t` is task 1 or task 2. -/
theorem bounded_bypass_iff (board : Board) (n t : Nat) (hpos : 1 ≤ t) (hle : t ≤ n)
    (hn : n < maxTasks) : BoundedBypass board n t ↔ t ≤ 2 := by
  constructor
  · intro hbound
    by_contra hhigh
    exact unbounded_bypass board (by omega) hle hn hbound
  · intro hlow p q tr hreach hcount hwaits hpath hstay
    have hp := (disciplined_invariant board).reachable hreach
    rcases Nat.le_one_iff_eq_zero_or_eq_one.mp (Nat.sub_le_sub_right hlow 1) with hone | htwo
    · obtain rfl : t = 1 := by omega
      rw [bypasses_first hp hwaits hpath hstay]
      exact Nat.zero_le _
    · obtain rfl : t = 2 := by omega
      have hbound := (bypasses_second hp hwaits hpath hstay).1
      omega

/-- Task 3 of three starves: 1 and 2 pass it three times and more. -/
theorem bounded_bypass_fails_third_task : ¬ BoundedBypass xmc1100 3 3 :=
  unbounded_bypass xmc1100 (by decide) (by decide) (by decide)

/-- Task 2 of three does not. -/
theorem bounded_bypass_iff_second_task : BoundedBypass xmc1100 3 2 :=
  (bounded_bypass_iff xmc1100 3 2 (by decide) (by decide) (by decide)).mpr (by decide)

end PascalScheduler
