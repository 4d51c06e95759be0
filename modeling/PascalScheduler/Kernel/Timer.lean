import PascalScheduler.Kernel.Sleep
import PascalScheduler.Kernel.WorkConservation

/-!
The kernel against its timer. SysTick counts cycles and raises a tick when
`LOAD + 1` of them have passed since it was last restarted; a pending tick is
taken before anything else. Every decision that selects a task, and
`signal_wait`, write `SysTick->VAL` and throw away the cycles counted so far.
-/

namespace PascalScheduler

open Transition

/-- A timer cycle passes, or the kernel acts. -/
inductive TimedAction where
  | cycle
  | act (action : Action)

def TimedAction.isCycle : TimedAction → Bool
  | .cycle => true
  | .act _ => false

def TimedAction.isTick : TimedAction → Bool
  | .cycle => false
  | .act a => a.isTick

def SysTick.period (timer : SysTick) : Nat :=
  timer.load.toNat + 1

def SysTick.count (timer : SysTick) : SysTick :=
  { timer with elapsed := timer.elapsed + 1 }

/-- The kernel and its timer. A tick comes exactly when a period has been
counted, and the count starts again with it. -/
def timedSystem (board : Board) : System Kernel TimedAction where
  init s := (system board).init s ∧ s.sysTick.elapsed < s.sysTick.period
  step s l t :=
    match l with
    | .cycle =>
        s.sysTick.elapsed < s.sysTick.period ∧ t = { s with sysTick := s.sysTick.count }
    | .act a =>
        if a.isTick then
          s.sysTick.elapsed = s.sysTick.period ∧
            (system board).step { s with sysTick := s.sysTick.writeVal } a t
        else s.sysTick.elapsed < s.sysTick.period ∧ (system board).step s a t

/-- The number of timer cycles of a run. -/
def cycles (tr : List (Event Kernel TimedAction)) : Nat :=
  tr.countP (fun e => e.label.isCycle)

def TickFree (tr : List (Event Kernel TimedAction)) : Prop :=
  ∀ e ∈ tr, e.label.isTick = false

/-- Every stretch of the run that is longer than a period has a tick in it,
and `jiffy` advances there. -/
def TicksEveryPeriod (period : Nat) (tr : List (Event Kernel TimedAction)) : Prop :=
  ∀ before mid after, tr = before ++ mid ++ after → period < cycles mid →
    ∃ e ∈ mid, e.label.isTick = true ∧ e.post.jiffy = e.pre.jiffy + 1

/-- The actions that write `SysTick->VAL` : a decision that finds a task to
run, and `signal_wait`. -/
def WritesVal (s : Kernel) : Action → Prop
  | .signalWait _ => True
  | a => ∃ o, leave s a = some o ∧ ∃ i, o.registered i ∧ i ≠ o.currentTid ∧ o.readyNext i

/-- A step other than a tick restarts the timer in the middle of a period. -/
def Restarts (s : Kernel) : TimedAction → Prop
  | .cycle => False
  | .act a => a.isTick = false ∧ WritesVal s a ∧ s.sysTick.elapsed ≠ 0

/-- The cycles already counted that a step throws away. -/
def discarded (e : Event Kernel TimedAction) : Nat :=
  if e.label.isCycle || e.label.isTick then 0
  else e.pre.sysTick.elapsed - e.post.sysTick.elapsed

def discards (tr : List (Event Kernel TimedAction)) : Nat :=
  (tr.map discarded).sum

/-- What holds of the kernel and its timer together. -/
structure Timed (s : Kernel) : Prop where
  wellformed : Wellformed s
  counted : s.sysTick.elapsed ≤ s.sysTick.period

variable {board : Board} {s t : Kernel} {a : Action} {l : TimedAction}
  {tr : List (Event Kernel TimedAction)}

theorem Wellformed.withTimer (h : Wellformed s) (timer : SysTick) :
    Wellformed { s with sysTick := timer } :=
  ⟨h.registered_lt, h.current_le, h.running, h.idle, h.parked, h.unused, h.spinning⟩

/-- What an action does to the timer. -/
theorem step_sysTick (hs : Wellformed s) (h : (system board).step s a t) :
    (WritesVal s a ∧ t.sysTick = s.sysTick.writeVal) ∨
      (¬ WritesVal s a ∧ t.sysTick = s.sysTick) := by
  have hquiet : leave s a = none → (∀ signal, a ≠ .signalWait signal) →
      ¬ WritesVal s a := by
    intro hleave hne hwrites
    cases a with
    | signalWait signal => exact hne signal rfl
    | tick | yield | sleep | mutexLock | mutexUnlock | signalRaise | register =>
        obtain ⟨o, ho, _⟩ := hwrites
        rw [hleave] at ho
        cases ho
  cases step_steps hs h with
  | @decide _ o _ hleave hdec =>
      have hwrites : WritesVal s a ↔ t.currentTid ≠ 0 := by
        rw [ne_eq, hdec.idle_iff, not_not]
        cases a with
        | signalWait => cases hleave
        | tick | yield | sleep | mutexLock | mutexUnlock | signalRaise | register =>
            simp only [WritesVal, hleave, Option.some.injEq, exists_eq_left']
      have hsame := (leave_leaves hleave).sysTick
      by_cases hidle : t.currentTid = 0
      · right
        refine ⟨fun hw => hwrites.mp hw hidle, ?_⟩
        rw [hdec.sysTick, if_pos hidle, hsame]
      · left
        refine ⟨hwrites.mpr hidle, ?_⟩
        rw [hdec.sysTick, if_neg hidle, hsame]
  | lock hfree =>
      refine .inr ⟨hquiet ?_ (by simp), rfl⟩
      rw [leave, if_pos hfree]
  | unlock => exact .inr ⟨hquiet rfl (by simp), rfl⟩
  | wait => exact .inl ⟨trivial, rfl⟩
  | raise => exact .inr ⟨hquiet rfl (by simp), rfl⟩
  | register taskFunc hroom =>
      obtain ⟨hframe, _, _⟩ := kTaskRegister_room board taskFunc hroom
      exact .inr ⟨hquiet rfl (by simp), by rw [hframe]⟩
  | full => exact .inr ⟨hquiet rfl (by simp), rfl⟩

theorem tick_jiffy (hs : Timed s) (h : (timedSystem board).step s l t)
    (htick : l.isTick = true) : t.jiffy = s.jiffy + 1 := by
  cases l with
  | cycle => cases htick
  | act a =>
      have ha : a.isTick = true := htick
      simp only [timedSystem, ha, if_true] at h
      rw [step_jiffy (hs.wellformed.withTimer _) h.2, if_pos ha]

/-- The reload value never changes. A tick comes with a full period counted and
leaves nothing counted. -/
theorem timed_step (hs : Timed s) (h : (timedSystem board).step s l t) :
    Timed t ∧ t.sysTick.load = s.sysTick.load ∧
      (l.isTick = true → s.sysTick.elapsed = s.sysTick.period ∧ t.sysTick.elapsed = 0) := by
  cases l with
  | cycle =>
      obtain ⟨hlt, rfl⟩ := h
      exact ⟨⟨hs.wellformed.withTimer _, hlt⟩, rfl, nofun⟩
  | act a =>
      simp only [timedSystem] at h
      cases htick : a.isTick with
      | true =>
          rw [htick, if_pos rfl] at h
          obtain ⟨hfull, hstep⟩ := h
          have hwf := hs.wellformed.withTimer s.sysTick.writeVal
          have htimer : t.sysTick = s.sysTick.writeVal := by
            rcases step_sysTick hwf hstep with ⟨_, h⟩ | ⟨_, h⟩
            · exact h
            · exact h
          refine ⟨⟨wellformed_step hwf hstep, ?_⟩, ?_, fun _ => ⟨hfull, ?_⟩⟩
          · rw [htimer]
            exact Nat.zero_le _
          · rw [htimer]
            rfl
          · rw [htimer]
            rfl
      | false =>
          rw [htick, if_neg Bool.false_ne_true] at h
          obtain ⟨hlt, hstep⟩ := h
          refine ⟨⟨wellformed_step hs.wellformed hstep, ?_⟩, ?_, ?_⟩
          · rcases step_sysTick hs.wellformed hstep with ⟨_, h⟩ | ⟨_, h⟩
            · rw [h]
              exact Nat.zero_le _
            · rw [h]
              exact hs.counted
          · rcases step_sysTick hs.wellformed hstep with ⟨_, h⟩ | ⟨_, h⟩
            · rw [h]
              rfl
            · rw [h]
          · intro h
            exact absurd (htick.symm.trans h) Bool.false_ne_true

/-- Without a tick, a step counts its cycle or throws counted cycles away, and
it throws some away exactly when it restarts a running timer. -/
theorem timed_step_counts (hs : Timed s) (h : (timedSystem board).step s l t)
    (hfree : l.isTick = false) :
    s.sysTick.elapsed + (if l.isCycle then 1 else 0) =
        t.sysTick.elapsed + discarded ⟨s, l, t⟩ ∧
      (discarded ⟨s, l, t⟩ = 0 ↔ ¬ Restarts s l) := by
  cases l with
  | cycle =>
      obtain ⟨_, rfl⟩ := h
      simp [discarded, Restarts, TimedAction.isCycle, SysTick.count]
  | act a =>
      have htick : a.isTick = false := hfree
      simp only [timedSystem, htick, Bool.false_eq_true, if_false] at h
      rcases step_sysTick hs.wellformed h.2 with ⟨hwrites, htimer⟩ | ⟨hkeeps, htimer⟩
      · simp [discarded, Restarts, TimedAction.isCycle, TimedAction.isTick, htick, hwrites,
          htimer, SysTick.writeVal]
      · simp [discarded, Restarts, TimedAction.isCycle, TimedAction.isTick, htick, hkeeps,
          htimer]

theorem cycles_cons (e : Event Kernel TimedAction) (tr : List (Event Kernel TimedAction)) :
    cycles (e :: tr) = cycles tr + if e.label.isCycle then 1 else 0 :=
  List.countP_cons

/-- Without a tick, the cycles that pass are counted or thrown away. -/
theorem tickFree_counts (hs : Timed s) (hpath : Path (timedSystem board) s tr t)
    (hfree : TickFree tr) :
    s.sysTick.elapsed + cycles tr = t.sysTick.elapsed + discards tr ∧
      (discards tr = 0 ↔ ∀ e ∈ tr, ¬ Restarts e.pre e.label) := by
  induction hpath with
  | nil => simp [cycles, discards]
  | @cons s u t l tr hstep _ ih =>
      have hone : l.isTick = false := hfree _ (List.mem_cons_self ..)
      obtain ⟨hcount, hdiscard⟩ := timed_step_counts hs hstep hone
      obtain ⟨hrest, hrestarts⟩ := ih (timed_step hs hstep).1
        (fun e he => hfree e (List.mem_cons_of_mem _ he))
      have hsum : discards (⟨s, l, u⟩ :: tr) = discarded ⟨s, l, u⟩ + discards tr := by
        simp [discards]
      rw [cycles_cons, hsum]
      constructor
      · dsimp only
        omega
      · simp only [Nat.add_eq_zero_iff, hdiscard, hrestarts, List.mem_cons, forall_eq_or_imp]

theorem timed_invariant (board : Board) : Invariant (timedSystem board) Timed where
  init s h := ⟨(wellformed_invariant board).init s h.1, Nat.le_of_lt h.2⟩
  step _ _ _ hs h := (timed_step hs h).1

theorem period_const (hs : Timed s) (hpath : Path (timedSystem board) s tr t) :
    t.sysTick.period = s.sysTick.period := by
  induction hpath with
  | nil => rfl
  | cons hstep _ ih =>
      obtain ⟨hnext, hload, _⟩ := timed_step hs hstep
      rw [ih hnext, SysTick.period, SysTick.period, hload]

/-- Between two consecutive ticks a period passes, and the cycles that were
thrown away with it. -/
theorem cycles_between_ticks {e e' : Event Kernel TimedAction}
    {mid after : List (Event Kernel TimedAction)} (hs : Timed s)
    (hpath : Path (timedSystem board) s (e :: mid ++ e' :: after) t)
    (he : e.label.isTick = true) (he' : e'.label.isTick = true) (hfree : TickFree mid) :
    cycles mid = s.sysTick.period + discards mid ∧
      (discards mid = 0 ↔ ∀ x ∈ mid, ¬ Restarts x.pre x.label) := by
  obtain ⟨rfl, hstep, htail⟩ := hpath.cons_inv
  obtain ⟨hmid, hlast, _⟩ := htail.split_cons
  obtain ⟨hnext, hload, hzero⟩ := timed_step hs hstep
  have hperiod : e'.pre.sysTick.period = e.pre.sysTick.period := by
    rw [period_const hnext hmid, SysTick.period, SysTick.period, hload]
  have hend : e'.pre.sysTick.elapsed = e'.pre.sysTick.period :=
    ((timed_step (hmid.preserves (timed_invariant board).step hnext) hlast).2.2 he').1
  obtain ⟨hcount, hdiscard⟩ := tickFree_counts hnext hmid hfree
  refine ⟨?_, hdiscard⟩
  have hstart := (hzero he).2
  omega

/-- Two tasks, one of which runs while the other is READY. -/
structure TakingTurns (s : Kernel) : Prop where
  wellformed : Wellformed s
  two : s.registeredTasks = 2
  task : s.currentTid ≠ 0
  quiet : s.signalFlag = 0
  ready : ∀ i, s.registered i → i ≠ s.currentTid → (s.tasks i).state = taskReady

/-- Once the running task has yielded, both are READY. -/
theorem TakingTurns.left_ready {o : Kernel} (hs : TakingTurns s)
    (hleave : leave s .yield = some o) {i : Nat} (hi : s.registered i) :
    (o.tasks i).state = taskReady := by
  have hleft := leave_leaves hleave
  by_cases hself : i = s.currentTid
  · rw [hself, hleft.entry]
    rfl
  · rw [hleft.other i hself]
    exact hs.ready i hi hself

/-- The decision then finds the other one. -/
theorem TakingTurns.selects {o : Kernel} (hs : TakingTurns s)
    (hleave : leave s .yield = some o) (hdec : Decision o t) : t.currentTid ≠ 0 := by
  have hleft := leave_leaves hleave
  have htwo := hs.two
  have htask := hs.task
  have hcur := hs.wellformed.current_le
  have hother : s.registered (3 - s.currentTid) := by
    constructor
    · omega
    · omega
  have hnext : o.readyNext (3 - s.currentTid) := by
    right
    rw [Kernel.isReady, hs.left_ready hleave hother]
    decide
  rw [ne_eq, hdec.idle_iff, not_not]
  refine ⟨3 - s.currentTid, ⟨hother.1, ?_⟩, ?_, hnext⟩
  · rw [hleft.registeredTasks]
    exact hother.2
  · rw [hleft.currentTid]
    omega

/-- Each yields to the other, and the timer starts again. -/
theorem TakingTurns.yield (board : Board) (hs : TakingTurns s) :
    ∃ t, (system board).step s .yield t ∧ TakingTurns t ∧ t.sysTick = s.sysTick.writeVal := by
  have henabled : Enabled s .yield := ⟨hs.task, hs.quiet⟩
  obtain ⟨t, hstep⟩ := enabled_steps board hs.wellformed henabled
  refine ⟨t, hstep, ?_⟩
  have hsteps := step_steps hs.wellformed hstep
  generalize haction : Action.yield = a at hsteps
  cases hsteps with
  | @decide _ o _ hleave hdec =>
      subst haction
      have hleft := leave_leaves hleave
      have htask : t.currentTid ≠ 0 := hs.selects hleave hdec
      refine ⟨⟨wellformed_step hs.wellformed hstep, ?_, htask, ?_, ?_⟩, ?_⟩
      · rw [hdec.registeredTasks, hleft.registeredTasks, hs.two]
      · rw [hdec.signalFlag]
        exact leave_signalFlag henabled hleave
      · intro i hi hne
        rw [hdec.registered_iff, hleft.registered_iff] at hi
        by_cases hr : o.readied i
        · rw [hdec.readied i hne hr]
        · rw [hdec.kept i hne hr]
          exact hs.left_ready hleave hi
      · rw [hdec.sysTick, if_neg htask, hleft.sysTick]
  | lock => cases haction
  | unlock => cases haction
  | wait => cases haction
  | raise => cases haction
  | register => cases haction
  | full => cases haction

/-- They can go on for ever without a tick. -/
theorem TakingTurns.starve (board : Board) (hs : TakingTurns s)
    (hzero : s.sysTick.elapsed = 0) (hload : 1 < s.sysTick.period) (n : Nat) :
    ∃ tr t, Path (timedSystem board) s tr t ∧ TickFree tr ∧ cycles tr = n ∧
      TakingTurns t ∧ t.sysTick.elapsed = 0 ∧ t.sysTick.period = s.sysTick.period := by
  induction n generalizing s with
  | zero => exact ⟨[], s, .nil s, nofun, rfl, hs, hzero, rfl⟩
  | succ n ih =>
      let u : Kernel := { s with sysTick := s.sysTick.count }
      have hu : TakingTurns u :=
        ⟨hs.wellformed.withTimer _, hs.two, hs.task, hs.quiet, hs.ready⟩
      have helapsed : u.sysTick.elapsed = 1 := congrArg (· + 1) hzero
      have hcycle : (timedSystem board).step s .cycle u := ⟨by omega, rfl⟩
      obtain ⟨v, hyield, hv, htimer⟩ := hu.yield board
      have hact : (timedSystem board).step u (.act .yield) v :=
        ⟨helapsed ▸ hload, hyield⟩
      have hperiod : v.sysTick.period = s.sysTick.period := by
        rw [htimer]
        rfl
      obtain ⟨tr, t, hpath, hfree, hcycles, hturns, hend, hsame⟩ :=
        ih hv (by rw [htimer]; rfl) (hperiod ▸ hload)
      refine ⟨_, t, .cons hcycle (.cons hact hpath), ?_, ?_, hturns, hend, hsame.trans hperiod⟩
      · simpa [TickFree, TimedAction.isTick, Action.isTick] using hfree
      · simp [cycles_cons, TimedAction.isCycle, hcycles]

/-- The kernel with its timer at another count. -/
def Kernel.atCount (s : Kernel) (elapsed : Nat) : Kernel :=
  { s with sysTick := { s.sysTick with elapsed := elapsed } }

/-- Nothing but cycles, up to the end of the period. -/
theorem wait_path (board : Board) (s : Kernel) (n : Nat) (hfit : n ≤ s.sysTick.period) :
    ∃ tr, Path (timedSystem board) (s.atCount 0) tr (s.atCount n) ∧
      ∀ e ∈ tr, e.label = .cycle := by
  induction n with
  | zero => exact ⟨[], .nil _, nofun⟩
  | succ n ih =>
      obtain ⟨tr, hpath, hcycles⟩ := ih (by omega)
      have hcycle : (timedSystem board).step (s.atCount n) .cycle (s.atCount (n + 1)) :=
        ⟨hfit, rfl⟩
      refine ⟨_, hpath.snoc hcycle, ?_⟩
      intro e he
      rcases List.mem_append.mp he with hmem | hlast
      · exact hcycles e hmem
      · rw [List.mem_singleton.mp hlast]

/-- Nothing but cycles, and then the tick. -/
theorem wait_tick (board : Board) (hzero : s.sysTick.elapsed = 0)
    (htick : (system board).step s .tick t) :
    ∃ tr e, Path (timedSystem board) s (tr ++ [e]) t ∧ (∀ x ∈ tr, x.label = .cycle) ∧
      e.label = .act .tick := by
  obtain ⟨tr, hpath, hcycles⟩ := wait_path board s s.sysTick.period (le_refl _)
  have hsame : s.atCount 0 = s := by
    rw [Kernel.atCount, ← hzero]
  have hstep : (timedSystem board).step (s.atCount s.sysTick.period) (.act .tick) t := by
    refine ⟨rfl, ?_⟩
    change (system board).step (s.atCount 0) .tick t
    rw [hsame]
    exact htick
  rw [hsame] at hpath
  exact ⟨tr, _, hpath.snoc hstep, hcycles, rfl⟩

/-- The tick can be put off as long as they like. -/
theorem TakingTurns.late_tick (board : Board) (hs : TakingTurns s)
    (hzero : s.sysTick.elapsed = 0) (hload : 1 < s.sysTick.period) (n : Nat) :
    ∃ mid e t, Path (timedSystem board) s (mid ++ [e]) t ∧ TickFree mid ∧ n ≤ cycles mid ∧
      e.label = .act .tick := by
  obtain ⟨yields, u, hyields, hfree, hcycles, hu, hstart, _⟩ := hs.starve board hzero hload n
  obtain ⟨t, htick⟩ := enabled_steps board hu.wellformed (a := .tick) trivial
  obtain ⟨wait, e, hwait, hlabels, he⟩ := wait_tick board hstart htick
  refine ⟨yields ++ wait, e, t, ?_, ?_, ?_, he⟩
  · rw [List.append_assoc]
    exact hyields.append hwait
  · intro x hx
    rcases List.mem_append.mp hx with hmem | hmem
    · exact hfree x hmem
    · rw [hlabels x hmem]
      rfl
  · rw [cycles, List.countP_append, ← cycles, hcycles]
    omega

/-- Two tasks on an XMC1100, just after the first tick. -/
theorem xmc1100_first_tick :
    ∃ before e s, (timedSystem xmc1100).init (boot xmc1100) ∧
      Path (timedSystem xmc1100) (boot xmc1100) (before ++ [e]) s ∧
      (∀ x ∈ before, ¬ Restarts x.pre x.label) ∧ e.label = .act .tick ∧
      TakingTurns s ∧ s.sysTick.elapsed = 0 := by
  let s₁ := (kTaskRegister xmc1100 0x10001100 (boot xmc1100)).1
  let s₂ := (kTaskRegister xmc1100 0x10001200 s₁).1
  have hinit : (timedSystem xmc1100).init (boot xmc1100) := ⟨⟨_, _, rfl⟩, Nat.succ_pos _⟩
  have hregister : Path (timedSystem xmc1100) (boot xmc1100)
      [⟨boot xmc1100, .act (.register 0x10001100), s₁⟩,
        ⟨s₁, .act (.register 0x10001200), s₂⟩] s₂ :=
    .cons ⟨Nat.succ_pos _, rfl, rfl⟩ (.single ⟨Nat.succ_pos _, rfl, rfl⟩)
  obtain ⟨s₃, hsched, hcur, hflag, hcount, hready, hzero⟩ := exists_of_any
    (by decide +kernel : (scheduler s₂).any (fun s => decide (s.currentTid = 1 ∧
      s.signalFlag = 0 ∧ s.registeredTasks = 2 ∧ (s.tasks 2).state = taskReady ∧
      s.sysTick.elapsed = 0)) = true)
  have hstep : (system xmc1100).step s₂ .tick s₃ := ⟨trivial, hsched⟩
  obtain ⟨wait, tick, hwait, hcycles, htick⟩ := wait_tick xmc1100 rfl hstep
  have hpath := hregister.append hwait
  have hthree := hpath.preserves (timed_invariant xmc1100).step
    ((timed_invariant xmc1100).init _ hinit)
  rw [← List.append_assoc] at hpath
  refine ⟨_, tick, s₃, hinit, hpath, ?_, htick, ?_, hzero⟩
  · intro x hx
    simp only [List.mem_append, List.mem_cons, List.not_mem_nil, or_false] at hx
    rcases hx with (rfl | rfl) | hmem
    · exact fun h => h.2.2 rfl
    · exact fun h => h.2.2 rfl
    · rw [hcycles x hmem]
      exact id
  · refine ⟨hthree.wellformed, hcount, by omega, hflag, ?_⟩
    rintro i ⟨hpos, hle⟩ hne
    obtain rfl : i = 2 := by omega
    exact hready

/-- In every run in which no step but a tick restarts a running timer, ticks
come every period. Two consecutive ticks of any run are one period apart if and
only if there is no such step between them. -/
theorem tick_not_starved (board : Board) (s₀ s : Kernel)
    (tr : List (Event Kernel TimedAction)) (hinit : (timedSystem board).init s₀)
    (hpath : Path (timedSystem board) s₀ tr s) :
    ((∀ e ∈ tr, ¬ Restarts e.pre e.label) → TicksEveryPeriod s₀.sysTick.period tr) ∧
      ∀ before e mid e' after, tr = before ++ (e :: mid ++ e' :: after) →
        e.label.isTick = true → e'.label.isTick = true → TickFree mid →
        (cycles mid ≤ s₀.sysTick.period ↔ ∀ x ∈ mid, ¬ Restarts x.pre x.label) := by
  have hstart : Timed s₀ := (timed_invariant board).init s₀ hinit
  constructor
  · rintro hquiet before mid after rfl hlong
    rw [List.append_assoc] at hpath
    obtain ⟨u, hbefore, hrest⟩ := hpath.split
    obtain ⟨v, hmid, _⟩ := hrest.split
    have hu := hbefore.preserves (timed_invariant board).step hstart
    have hv := hmid.preserves (timed_invariant board).step hu
    have hperiod : v.sysTick.period = s₀.sysTick.period :=
      (period_const hu hmid).trans (period_const hstart hbefore)
    by_contra hnone
    have hfree : TickFree mid := by
      intro e he
      by_contra htick
      rw [Bool.not_eq_false] at htick
      obtain ⟨first, rest, rfl⟩ := List.append_of_mem he
      obtain ⟨hfirst, hstep, _⟩ := hmid.split_cons
      have hpre := hfirst.preserves (timed_invariant board).step hu
      exact hnone ⟨e, he, htick, tick_jiffy hpre hstep htick⟩
    obtain ⟨hcount, hdiscard⟩ := tickFree_counts hu hmid hfree
    have hnone : discards mid = 0 := by
      apply hdiscard.mpr
      intro e he
      exact hquiet e (by simp [he])
    have hcounted := hv.counted
    omega
  · rintro before e mid e' after rfl he he' hfree
    obtain ⟨u, hbefore, hrest⟩ := hpath.split
    have hu := hbefore.preserves (timed_invariant board).step hstart
    obtain ⟨hcount, hdiscard⟩ := cycles_between_ticks hu hrest he he' hfree
    rw [← hdiscard, hcount, period_const hstart hbefore]
    omega

/-- The two tasks yield to each other after one cycle each. After 32001 yields
the second tick has not come; they stop there, and it comes a period later. -/
theorem tick_starved :
    ∃ tr s, (timedSystem xmc1100).init (boot xmc1100) ∧
      Path (timedSystem xmc1100) (boot xmc1100) tr s ∧
      (∃ before e mid e', tr = before ++ (e :: mid ++ [e']) ∧ e.label = .act .tick ∧
        e'.label = .act .tick ∧ TickFree mid ∧
        (boot xmc1100).sysTick.period < cycles mid) ∧
      ¬ TicksEveryPeriod (boot xmc1100).sysTick.period tr := by
  obtain ⟨before, e, s, hinit, hfirst, _, he, hturns, hzero⟩ := xmc1100_first_tick
  have hperiod := period_const ((timed_invariant xmc1100).init _ hinit) hfirst
  obtain ⟨mid, e', t, hsecond, hfree, hlong, he'⟩ :=
    hturns.late_tick xmc1100 hzero (hperiod ▸ (by decide)) ((boot xmc1100).sysTick.period + 1)
  refine ⟨before ++ (e :: mid ++ [e']), t, hinit, ?_, ⟨before, e, mid, e', rfl, he, he', hfree,
    hlong⟩, ?_⟩
  · simpa using hfirst.append hsecond
  · intro hticks
    obtain ⟨x, hx, htick, _⟩ := hticks (before ++ [e]) mid [e'] (by simp) hlong
    rw [hfree x hx] at htick
    cases htick

/-- A run in which the tasks only compute: from the first tick on, more than a
period passes, and a second tick has come. -/
theorem tick_not_starved_two_ticks :
    ∃ first e mid e' c s,
      Path (timedSystem xmc1100) (boot xmc1100) (first ++ e :: (mid ++ [e', c])) s ∧
      e.label = .act .tick ∧ e'.label = .act .tick ∧
      (boot xmc1100).sysTick.period < cycles (mid ++ [e', c]) ∧
      TicksEveryPeriod (boot xmc1100).sysTick.period (first ++ e :: (mid ++ [e', c])) := by
  obtain ⟨first, e, s, hinit, hfirst, hquiet, he, hturns, hzero⟩ := xmc1100_first_tick
  obtain ⟨t, htick⟩ := enabled_steps xmc1100 hturns.wellformed (a := .tick) trivial
  obtain ⟨mid, e', hsecond, hcycles, he'⟩ := wait_tick xmc1100 hzero htick
  have htimed := (timed_invariant xmc1100).init _ hinit
  have hs := hfirst.preserves (timed_invariant xmc1100).step htimed
  obtain ⟨hmid, hlast, hend⟩ := hsecond.split_cons
  obtain rfl := hend.nil_inv
  have hpre := hmid.preserves (timed_invariant xmc1100).step hs
  obtain ⟨hfull, hrestarted⟩ := (timed_step hpre hlast).2.2 (by rw [he']; rfl)
  have hcycle : (timedSystem xmc1100).step e'.post .cycle
      { e'.post with sysTick := e'.post.sysTick.count } := by
    refine ⟨?_, rfl⟩
    rw [hrestarted]
    exact Nat.succ_pos _
  have hpath := hfirst.append (hsecond.snoc hcycle)
  rw [List.append_assoc, List.append_assoc, List.singleton_append] at hpath
  refine ⟨first, e, mid, e', _, _, hpath, he, he', ?_, ?_⟩
  · -- nothing but cycles lies between the two ticks
    have hfree : TickFree mid := by
      intro x hx
      rw [hcycles x hx]
      rfl
    have hcount := (tickFree_counts hs hmid hfree).1
    have hperiod := (period_const hs hmid).trans (period_const htimed hfirst)
    rw [cycles, List.countP_append, ← cycles, ← hperiod]
    simp only [List.countP_cons, List.countP_nil, TimedAction.isCycle, if_true]
    omega
  · apply (tick_not_starved xmc1100 _ _ _ hinit hpath).1
    intro x hx
    simp only [List.mem_append, List.mem_cons, List.not_mem_nil, or_false] at hx
    rcases hx with hmem | rfl | hmem | rfl | rfl
    · exact hquiet x hmem
    · rw [he]
      exact fun h => absurd h.1 (by decide)
    · rw [hcycles x hmem]
      exact id
    · rw [he']
      exact fun h => absurd h.1 (by decide)
    · exact id

end PascalScheduler
