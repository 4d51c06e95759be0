import PascalScheduler.Kernel.Sleep

/-!
The sleep window: a sleep of `s` ticks begun at `J` ends by a dispatch no
earlier than tick `J + s + 1` and no later than tick `J + s + n`, with `n`
registered tasks, as long as the counter does not reach its largest value.
-/

namespace PascalScheduler

open Transition

variable {board : Board} {s s' : Kernel} {a : Action} {t : Nat} {d : Int32}
  {tr : List (Event Kernel Action)}

theorem ticks_le_dispatches (tr : List (Event Kernel Action)) :
    ticks tr ≤ (dispatches tr).length := by
  induction tr with
  | nil => exact le_refl _
  | cons e rest ih =>
      obtain ⟨pre, label, post⟩ := e
      rw [ticks_cons]
      cases hleave : leave pre label with
      | none =>
          have hlist : dispatches (⟨pre, label, post⟩ :: rest) = dispatches rest :=
            List.filterMap_cons_none (dispatched_quiet hleave)
          rw [hlist, leave_tick_iff hleave]
          simpa using ih
      | some o =>
          have hlist : dispatches (⟨pre, label, post⟩ :: rest) =
              post.currentTid :: dispatches rest :=
            List.filterMap_cons_some (dispatched_decide hleave)
          rw [hlist, List.length_cons]
          split <;> omega

/-- Without registrations the number of tasks is fixed, and bounds every task
dispatched. -/
theorem path_registered (hs : Wellformed s) (hpath : Path (system board) s tr s')
    (hnoreg : NoRegistration tr) :
    s'.registeredTasks = s.registeredTasks ∧
      ∀ x ∈ dispatches tr, x ≤ s.registeredTasks := by
  induction hpath with
  | nil => exact ⟨rfl, by simp [dispatches]⟩
  | @cons s u s' a tr hstep _ ih =>
      have hu := wellformed_step hs hstep
      obtain ⟨hlabel, hrest⟩ := List.forall_mem_cons.mp hnoreg
      obtain ⟨hcount, hall⟩ := ih hu hrest
      have hsame : u.registeredTasks = s.registeredTasks := by
        cases step_steps hs hstep with
        | decide hleave hdec =>
            exact hdec.registeredTasks.trans (leave_leaves hleave).registeredTasks
        | lock | unlock | wait | raise | full => rfl
        | register => cases hlabel
      refine ⟨hcount.trans hsame, ?_⟩
      intro x hx
      obtain ⟨e, he, hdisp⟩ := List.mem_filterMap.mp hx
      rcases List.mem_cons.mp he with rfl | hmem
      · have hx' : u.currentTid = x := by
          rw [dispatched] at hdisp
          split at hdisp
          · exact Option.some.inj hdisp
          · cases hdisp
        rw [← hx', ← hsame]
        exact hu.current_le
      · rw [← hsame]
        exact hall x (List.mem_filterMap.mpr ⟨e, hmem, hdisp⟩)

/-- A run with more than `k` ticks can be cut before its tick number `k + 1`. -/
theorem exists_tick {k : Nat} (h : k < ticks tr) :
    ∃ before e after, tr = before ++ e :: after ∧ ticks before = k ∧
      e.label.isTick = true := by
  induction tr generalizing k with
  | nil => exact absurd h (Nat.not_lt_zero k)
  | cons e rest ih =>
      rw [ticks_cons] at h
      by_cases htick : e.label.isTick = true
      · cases k with
        | zero => exact ⟨[], e, rest, rfl, rfl, htick⟩
        | succ k =>
            rw [if_pos htick] at h
            obtain ⟨before, e', after, rfl, hk, he'⟩ := ih (k := k) (by omega)
            refine ⟨e :: before, e', after, rfl, ?_, he'⟩
            rw [ticks_cons, hk, if_pos htick]
      · rw [if_neg htick] at h
        obtain ⟨before, e', after, rfl, hk, he'⟩ := ih (k := k) (by omega)
        refine ⟨e :: before, e', after, rfl, ?_, he'⟩
        rw [ticks_cons, hk, if_neg htick]
        omega

/-- While asleep a task is never dispatched. -/
theorem Sleeping.not_dispatched (hs : Wellformed s) (h : Sleeping s t d)
    (hpath : Path (system board) s tr s') (hticks : s.jiffy.toInt + ticks tr ≤ d.toInt) :
    t ∉ dispatches tr := by
  intro hmem
  obtain ⟨e, he, hdisp⟩ := List.mem_filterMap.mp hmem
  obtain ⟨before, after, rfl⟩ := List.append_of_mem he
  obtain ⟨hfirst, hone, _⟩ := hpath.split_cons
  rw [ticks_append, ticks_cons] at hticks
  have hpost : Path (system board) s (before ++ [e]) e.post := hfirst.snoc hone
  have hsleep := h.path hs hpost (by
    rw [ticks_append, ticks_cons]
    simp only [ticks, List.countP_nil] at hticks ⊢
    omega)
  rw [dispatched] at hdisp
  split at hdisp
  · exact hsleep.notCurrent (Option.some.inj hdisp).symm
  · cases hdisp

/-- From the tick that wakes it, a task is dispatched within `n` ticks. -/
theorem Sleeping.dispatched_within (hs : Wellformed s) (h : Sleeping s t d)
    (hdue : s.jiffy = d) (hfit : d.toInt < 2 ^ 31 - 1) {e : Event Kernel Action}
    (hpath : Path (system board) s (e :: tr) s') (htick : e.label.isTick = true)
    (hnoreg : NoRegistration (e :: tr)) (hticks : s.registeredTasks ≤ ticks tr + 1) :
    t ∈ dispatches (e :: tr) := by
  by_contra hnot
  obtain ⟨hcount, hrange⟩ := path_registered hs hpath hnoreg
  obtain ⟨rfl, hone, htail⟩ := hpath.cons_inv
  rcases (step_steps hs hone).decides_or_quiet with
    ⟨o, hleave, hdec⟩ | ⟨hleave, _⟩
  · have hlist : dispatches (e :: tr) = e.post.currentTid :: dispatches tr :=
      List.filterMap_cons_some (dispatched_decide hleave)
    rw [hlist] at hnot hrange
    simp only [List.mem_cons, not_or] at hnot
    have hwakes : o.wakes t := by
      have hleft : leftJiffy e.pre e.label = e.pre.jiffy + 1 := by
        cases hlabel : e.label with
        | tick => rfl
        | yield | sleep | mutexLock | mutexUnlock | signalWait | signalRaise | register =>
            rw [hlabel] at htick
            cases htick
      rw [h.wakes_iff hleave, hleft, hdue, Int32.lt_iff_toInt_lt, Wrapping.toInt_succ hfit]
      omega
    obtain ⟨hpos, hahead, hwaits⟩ :=
      decision_ahead h.registered h.notCurrent (.inl (.inl hwakes)) hleave hdec
    obtain ⟨hchase, hall, _⟩ := (hwaits (Ne.symm hnot.1)).chase
      (wellformed_step hs hone) htail hnot.2
    have hlong : RoundRobin.Chase t e.pre.currentTid (e.post.currentTid :: dispatches tr) :=
      ⟨hahead, Ne.symm hnot.1, hchase⟩
    have hlt := hlong.length_lt h.registered.1 h.registered.2 (by
      intro x hx
      refine ⟨?_, hrange x hx⟩
      rcases List.mem_cons.mp hx with rfl | hmem
      · exact hpos
      · exact hall x hmem)
    have hle := ticks_le_dispatches tr
    rw [List.length_cons] at hlt
    omega
  · rw [leave_tick_iff hleave] at htick
    cases htick

/-- A task that is to sleep for `k` ticks is dispatched within `k + n`. -/
theorem Sleeping.dispatched_by {k : Nat} (hs : Wellformed s) (h : Sleeping s t d)
    (hdue : s.jiffy.toInt + k = d.toInt) (hfit : d.toInt < 2 ^ 31 - 1)
    (hpath : Path (system board) s tr s') (hnoreg : NoRegistration tr)
    (hpos : 1 ≤ s.registeredTasks) (hticks : ticks tr = k + s.registeredTasks) :
    t ∈ dispatches tr := by
  obtain ⟨before, e, after, rfl, hbefore, htick⟩ := exists_tick (show k < ticks tr by omega)
  obtain ⟨hfirst, hone, hrest⟩ := hpath.split_cons
  have hpre := h.path hs hfirst (by omega)
  have hcounter := path_jiffy hs hfirst (by omega)
  rw [ticks_append, ticks_cons, if_pos htick] at hticks
  have hreg : e.pre.registeredTasks = s.registeredTasks := by
    apply (path_registered hs hfirst _).1
    exact fun e' he' => hnoreg e' (List.mem_append_left _ he')
  have hnow : e.pre.jiffy = d := by
    rw [← Int32.toInt_inj, hcounter]
    omega
  have hin := hpre.dispatched_within (s := e.pre)
    (hfirst.preserves (fun _ _ _ => wellformed_step) hs) hnow hfit (.cons hone hrest) htick
    (fun e' he' => hnoreg e' (List.mem_append_right _ he')) (by omega)
  rw [dispatches, List.filterMap_append]
  exact List.mem_append_right _ hin

/-- The sleep window. A task that calls `k_task_sleep stime` when the counter
is `J` is not dispatched while the counter is at most `J + stime`, and is
dispatched at the latest at the tick that brings it to `J + stime + n`. -/
theorem sleep_window (board : Board) (s s' : Kernel) (stime : Int32)
    (hs : Reachable (system board) s) (hstep : (system board).step s (.sleep stime) s')
    (hstime : 0 ≤ stime.toInt) (hjiffy : 0 ≤ s.jiffy.toInt)
    (hfit : s.jiffy.toInt + stime.toInt + s.registeredTasks ≤ 2 ^ 31 - 1) :
    (∀ tr u, Path (system board) s' tr u → (ticks tr : Int) ≤ stime.toInt →
      u.jiffy.toInt = s.jiffy.toInt + ticks tr ∧
        (u.tasks s.currentTid).state ≠ taskRunning ∧ s.currentTid ∉ dispatches tr) ∧
    ∀ tr u, Path (system board) s' tr u → NoRegistration tr →
      (ticks tr : Int) = stime.toInt + s.registeredTasks →
      u.jiffy.toInt = s.jiffy.toInt + stime.toInt + s.registeredTasks ∧
        s.currentTid ∈ dispatches tr := by
  have hwf := reachable_wellformed hs
  have hwf' := wellformed_step hwf hstep
  obtain ⟨hsame, hcount, _, hsleeps⟩ := sleep_call hwf hstep
  have hd : (s.jiffy + stime).toInt = s.jiffy.toInt + stime.toInt :=
    Wrapping.toInt_add_of_le (by omega) (by omega)
  have hsleep : Sleeping s' s.currentTid (s.jiffy + stime) := by
    apply hsleeps
    rw [Int32.lt_iff_toInt_lt, hd]
    omega
  constructor
  · intro tr u hpath hticks
    have hle : s'.jiffy.toInt + ticks tr ≤ (s.jiffy + stime).toInt := by
      rw [hsame, hd]
      omega
    refine ⟨?_, ?_, hsleep.not_dispatched hwf' hpath hle⟩
    · rw [path_jiffy hwf' hpath (by rw [hsame]; omega), hsame]
    · exact fun hrunning => (hsleep.path hwf' hpath hle).not_awake (.inr hrunning)
  · intro tr u hpath hnoreg hticks
    have hpos : 1 ≤ s.registeredTasks := by
      have := Nat.pos_of_ne_zero hstep.1.1
      have := hwf.current_le
      omega
    refine ⟨?_, ?_⟩
    · rw [path_jiffy hwf' hpath (by rw [hsame]; omega), hsame]
      omega
    · apply hsleep.dispatched_by hwf' (k := stime.toInt.toNat) _ _ hpath hnoreg
      · omega
      · omega
      · rw [hsame, hd]
        omega
      · omega

/-- Two tasks; the first sleeps 3 ticks from tick 1 and is back by tick 6. -/
theorem sleep_window_three_ticks :
    ∃ s s', execute xmc1100 (boot xmc1100) [.register 0x10001100, .register 0x10001200,
        .tick] = some s ∧ (system xmc1100).step s (.sleep 3) s' ∧
      (∀ tr u, Path (system xmc1100) s' tr u → ticks tr ≤ 3 → 1 ∉ dispatches tr) ∧
      ∀ tr u, Path (system xmc1100) s' tr u → NoRegistration tr → ticks tr = 5 →
        u.jiffy.toInt = 6 ∧ 1 ∈ dispatches tr := by
  obtain ⟨s, hrun, hcur, hcount, hjiffy, hsleep⟩ := exists_of_any
    (by decide +kernel : (execute xmc1100 (boot xmc1100) [.register 0x10001100,
      .register 0x10001200, .tick]).any (fun s =>
        decide (s.currentTid = 1 ∧ s.registeredTasks = 2 ∧ s.jiffy = 1 ∧
          (next xmc1100 s (.sleep 3)).isSome = true)) = true)
  obtain ⟨s', hnext⟩ := Option.isSome_iff_exists.mp hsleep
  have hstep := next_step xmc1100 s (.sleep 3) s' hnext
  have hone : s.jiffy.toInt = 1 := by
    rw [hjiffy]
    decide
  have hthree : (3 : Int32).toInt = 3 := by decide
  obtain ⟨hlower, hupper⟩ := sleep_window xmc1100 s s' 3 (execute_reachable hrun) hstep
    (by omega) (by omega) (by omega)
  rw [hcur] at hlower hupper
  refine ⟨s, s', hrun, hstep, ?_, ?_⟩
  · intro tr u hpath hticks
    exact (hlower tr u hpath (by omega)).2.2
  · intro tr u hpath hnoreg hticks
    obtain ⟨hend, hmem⟩ := hupper tr u hpath hnoreg (by omega)
    exact ⟨by omega, hmem⟩

end PascalScheduler
