import PascalScheduler.Kernel.Fairness
import PascalScheduler.Library.Wrapping

/-!
Sleeping tasks. The deadline of a sleep is a wrapping sum compared with a plain
signed `>`; a sleep is exact as long as that sum stays below the largest value
of the tick counter. Once woken, a task is dispatched within one round of the
scheduler, which gives the upper end of the sleep window.
-/

namespace PascalScheduler

open Transition

def Action.isTick : Action → Bool
  | .tick => true
  | _ => false

def Action.isRegister : Action → Bool
  | .register _ => true
  | _ => false

/-- The number of ticks counted along a run. -/
def ticks (tr : List (Event Kernel Action)) : Nat :=
  tr.countP (fun e => e.label.isTick)

def NoRegistration (tr : List (Event Kernel Action)) : Prop :=
  ∀ e ∈ tr, e.label.isRegister = false

/-- `t` is registered, not running, and blocked until `jiffy > deadline`. -/
structure Sleeping (s : Kernel) (t : Nat) (deadline : Int32) : Prop where
  registered : s.registered t
  blocked : (s.tasks t).state = taskBlocked
  deadline : (s.tasks t).sleepUntil = deadline
  notCurrent : t ≠ s.currentTid

def Awake (s : Kernel) (t : Nat) : Prop :=
  (s.tasks t).state = taskReady ∨ (s.tasks t).state = taskRunning

variable {board : Board} {s s' o : Kernel} {a : Action} {t : Nat} {d : Int32}
  {tr : List (Event Kernel Action)}

theorem ticks_cons (e : Event Kernel Action) (tr : List (Event Kernel Action)) :
    ticks (e :: tr) = ticks tr + if e.label.isTick then 1 else 0 :=
  List.countP_cons

theorem ticks_append (tr tr' : List (Event Kernel Action)) :
    ticks (tr ++ tr') = ticks tr + ticks tr' :=
  List.countP_append

theorem Sleeping.not_awake (h : Sleeping s t d) : ¬ Awake s t := by
  rintro (hready | hrunning)
  · exact absurd (h.blocked.symm.trans hready) (by decide)
  · exact absurd (h.blocked.symm.trans hrunning) (by decide)

theorem leave_tick_iff (hleave : leave s a = none) : a.isTick = false := by
  cases a with
  | tick => cases hleave
  | yield | sleep | mutexLock | mutexUnlock | signalWait | signalRaise | register => rfl

/-- The tick counter counts ticks. -/
theorem step_jiffy (hs : Wellformed s) (h : (system board).step s a s') :
    s'.jiffy = if a.isTick then s.jiffy + 1 else s.jiffy := by
  rcases (step_steps hs h).decides_or_quiet with ⟨o, hleave, hdec⟩ | ⟨hleave, hquiet⟩
  · rw [hdec.jiffy, (leave_leaves hleave).jiffy]
    cases a <;> rfl
  · rw [hquiet.jiffy, leave_tick_iff hleave]
    rfl

/-- At the decision of a sleeping task's kernel, its entry is as it was. -/
theorem Sleeping.wakes_iff (h : Sleeping s t d) (hleave : leave s a = some o) :
    o.wakes t ↔ d < leftJiffy s a := by
  have hleft := leave_leaves hleave
  have htask : o.tasks t = s.tasks t := hleft.other t h.notCurrent
  have hreg : o.registered t := by
    rw [Kernel.registered, hleft.registeredTasks]
    exact h.registered
  have hbit : o.isBlocked t = true := by
    rw [Kernel.isBlocked, htask, h.blocked]
    decide
  rw [Kernel.wakes, htask, h.deadline, hleft.jiffy]
  exact ⟨fun hw => hw.2.2, fun hlt => ⟨hreg, hbit, hlt⟩⟩

/-- An entry that is neither READY nor MUTEX_BLOCKED, and is not woken, stays as
it is; its task is not the one dispatched. -/
theorem decision_dormant (hdec : Decision o s') (hreg : o.registered t)
    (hready : o.isReady t = false) (hmutex : o.isMutexBlocked t = false)
    (hnot : ¬ o.wakes t) : t ≠ s'.currentTid ∧ s'.tasks t = o.tasks t := by
  have hr : ¬ o.readied t := by
    rintro (hw | hg)
    · exact hnot hw
    · exact absurd (hmutex.symm.trans hg.2.1.2.1) (by decide)
  have hne : t ≠ s'.currentTid := by
    intro heq
    have hpos : s'.currentTid ≠ 0 := by
      have := hreg.1
      omega
    rcases hdec.picks.ready_of_pos hpos with hr' | hbit
    · exact hr (heq ▸ hr')
    · rw [← heq, hready] at hbit
      cases hbit
  exact ⟨hne, hdec.kept t hne hr⟩

theorem decision_blocked (hdec : Decision o s') (hreg : o.registered t)
    (hstate : (o.tasks t).state = taskBlocked) (hnot : ¬ o.wakes t) :
    t ≠ s'.currentTid ∧ s'.tasks t = o.tasks t := by
  apply decision_dormant hdec hreg _ _ hnot
  · rw [Kernel.isReady, hstate]
    decide
  · rw [Kernel.isMutexBlocked, hstate]
    decide

theorem decision_woken (hdec : Decision o s') (hw : o.wakes t) : Awake s' t := by
  by_cases hcur : t = s'.currentTid
  · exact .inr (by rw [hcur, hdec.running])
  · exact .inl (by rw [hdec.readied t hcur (.inl hw)])

/-- One step of a sleep: until the counter passes the deadline the task sleeps
on, and the tick that makes it pass wakes the task. -/
theorem Sleeping.step (hs : Wellformed s) (h : Sleeping s t d)
    (hstep : (system board).step s a s') :
    (¬ d < s'.jiffy → Sleeping s' t d) ∧ (a.isTick = true → d < s'.jiffy → Awake s' t) := by
  rcases (step_steps hs hstep).decides_or_quiet with
    ⟨o, hleave, hdec⟩ | ⟨hleave, hquiet⟩
  · have hleft := leave_leaves hleave
    have hjiffy : s'.jiffy = leftJiffy s a := hdec.jiffy.trans hleft.jiffy
    have htask : o.tasks t = s.tasks t := hleft.other t h.notCurrent
    have hreg : o.registered t := by
      rw [Kernel.registered, hleft.registeredTasks]
      exact h.registered
    constructor
    · intro hnot
      rw [hjiffy] at hnot
      obtain ⟨hne, hsame⟩ := decision_blocked hdec hreg (htask ▸ h.blocked)
        (fun hw => hnot ((h.wakes_iff hleave).mp hw))
      refine ⟨?_, ?_, ?_, hne⟩
      · rw [Kernel.registered, hdec.registeredTasks]
        exact hreg
      · rw [hsame, htask]
        exact h.blocked
      · rw [hsame, htask]
        exact h.deadline
    · intro _ hlt
      rw [hjiffy] at hlt
      exact decision_woken hdec ((h.wakes_iff hleave).mpr hlt)
  · constructor
    · intro _
      have htask := hquiet.tasks t h.registered.2
      refine ⟨⟨h.registered.1, h.registered.2.trans hquiet.registeredTasks⟩, ?_, ?_, ?_⟩
      · rw [htask]
        exact h.blocked
      · rw [htask]
        exact h.deadline
      · rw [hquiet.currentTid]
        exact h.notCurrent
    · intro htick
      rw [leave_tick_iff hleave] at htick
      cases htick

/-- Up to its largest value the counter is not wrapped. -/
theorem path_jiffy (hs : Wellformed s) (hpath : Path (system board) s tr s')
    (hfit : s.jiffy.toInt + ticks tr ≤ 2 ^ 31 - 1) :
    s'.jiffy.toInt = s.jiffy.toInt + ticks tr := by
  induction hpath with
  | nil => simp [ticks]
  | @cons s u s' a tr hstep _ ih =>
      have hjiffy := step_jiffy hs hstep
      rw [ticks_cons] at hfit ⊢
      generalize hk : (if a.isTick then 1 else 0 : Nat) = k at hfit ⊢
      have hcount : u.jiffy.toInt = s.jiffy.toInt + k := by
        rw [hjiffy, ← hk]
        split_ifs with htick
        · rw [← hk, if_pos htick] at hfit
          rw [Wrapping.toInt_succ (by omega)]
          rfl
        · simp
      have hend := ih (wellformed_step hs hstep) (by omega)
      omega

/-- A run of at most as many ticks as the deadline is away leaves the task
asleep. -/
theorem Sleeping.path (hs : Wellformed s) (h : Sleeping s t d)
    (hpath : Path (system board) s tr s') (hticks : s.jiffy.toInt + ticks tr ≤ d.toInt) :
    Sleeping s' t d := by
  induction hpath with
  | nil => exact h
  | @cons s u s' a tr hstep _ ih =>
      have hd := d.toInt_lt
      have hone : ticks [⟨s, a, u⟩] + ticks tr = ticks (⟨s, a, u⟩ :: tr) := by
        rw [← ticks_append, List.singleton_append]
      have hcount := path_jiffy hs (Path.single hstep) (by omega)
      have hnot : ¬ d < u.jiffy := by
        rw [Int32.lt_iff_toInt_lt]
        omega
      exact ih (wellformed_step hs hstep) ((h.step hs hstep).1 hnot) (by omega)

/-- The call of `k_task_sleep` by the running task, split by what the wrapped
deadline compares to. -/
theorem sleep_call (hs : Wellformed s) {stime : Int32}
    (hstep : (system board).step s (.sleep stime) s') :
    s'.jiffy = s.jiffy ∧ s'.registeredTasks = s.registeredTasks ∧
      (s.jiffy + stime < s.jiffy → Awake s' s.currentTid) ∧
      (¬ s.jiffy + stime < s.jiffy →
        Sleeping s' s.currentTid (s.jiffy + stime)) := by
  obtain ⟨hne, _⟩ := hstep.1
  have hleave : leave s (.sleep stime) = some (leaveSleep stime s) := rfl
  cases step_steps hs hstep with
  | decide hleave' hdec =>
      obtain rfl := Option.some.inj (hleave.symm.trans hleave')
      have hleft := leave_leaves hleave
      have hentry := hleft.entry
      have hreg : (leaveSleep stime s).registered s.currentTid := by
        rw [Kernel.registered, hleft.registeredTasks]
        exact ⟨Nat.pos_of_ne_zero hne, hs.current_le⟩
      have hstate : ((leaveSleep stime s).tasks s.currentTid).state = taskBlocked := by
        rw [hentry]
        rfl
      have hwakes : (leaveSleep stime s).wakes s.currentTid ↔ s.jiffy + stime < s.jiffy := by
        have hbit : (leaveSleep stime s).isBlocked s.currentTid = true := by
          rw [Kernel.isBlocked, hstate]
          decide
        rw [Kernel.wakes, hentry]
        exact ⟨fun hw => hw.2.2, fun hlt => ⟨hreg, hbit, hlt⟩⟩
      refine ⟨hdec.jiffy.trans hleft.jiffy,
        hdec.registeredTasks.trans hleft.registeredTasks, ?_, ?_⟩
      · intro hlt
        exact decision_woken hdec (hwakes.mpr hlt)
      · intro hnot
        obtain ⟨hother, hsame⟩ := decision_blocked hdec hreg hstate
          (fun hw => hnot (hwakes.mp hw))
        refine ⟨?_, ?_, ?_, hother⟩
        · rw [Kernel.registered, hdec.registeredTasks]
          exact hreg
        · rw [hsame]
          exact hstate
        · rw [hsame, hentry]
          rfl

end PascalScheduler
