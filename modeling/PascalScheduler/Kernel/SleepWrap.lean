import PascalScheduler.Kernel.Sleep

/-!
Sleeps near the end of the tick counter. The deadline `jiffy + stime` wraps and
is compared with a plain `>`, so a sleep is exact if and only if the deadline,
computed without wrapping, stays below the largest value of the counter: a
deadline that wraps lies in the past and wakes the task in the call itself, and
the largest value is never exceeded, so that the task never wakes.
-/

namespace PascalScheduler

open Transition

/-- From `s'`, the state after the call, `t` stays blocked for `n` ticks and is
woken by the decision of the tick after them, in every run. -/
def SleepsExactly (board : Board) (s' : Kernel) (t n : Nat) : Prop :=
  (∀ tr u, Path (system board) s' tr u → ticks tr ≤ n → ¬ Awake u t) ∧
  ∀ tr e u, Path (system board) s' (tr ++ [e]) u → ticks tr = n →
    e.label.isTick = true → Awake u t

variable {board : Board} {s s' : Kernel} {t : Nat} {d : Int32}
  {tr : List (Event Kernel Action)}

/-- Time can always pass. -/
theorem exists_ticks (board : Board) (hs : Wellformed s) (n : Nat) :
    ∃ tr s', Path (system board) s tr s' ∧ ticks tr = n ∧ Wellformed s' := by
  induction n with
  | zero => exact ⟨[], s, .nil s, rfl, hs⟩
  | succ n ih =>
      obtain ⟨tr, u, hpath, hticks, hu⟩ := ih
      obtain ⟨v, hstep⟩ := enabled_steps board (a := .tick) hu trivial
      refine ⟨tr ++ [⟨u, .tick, v⟩], v, hpath.snoc hstep, ?_, wellformed_step hu hstep⟩
      rw [ticks_append, hticks]
      rfl

/-- A deadline at the largest value of the counter never passes. -/
theorem Sleeping.forever (hs : Wellformed s) (h : Sleeping s t d)
    (hd : d.toInt = 2 ^ 31 - 1) (hpath : Path (system board) s tr s') :
    Sleeping s' t d := by
  induction hpath with
  | nil => exact h
  | @cons s u s' a tr hstep _ ih =>
      have hnot : ¬ d < u.jiffy := by
        have hmax := u.jiffy.toInt_lt
        rw [Int32.lt_iff_toInt_lt]
        omega
      exact ih (wellformed_step hs hstep) ((h.step hs hstep).1 hnot)

theorem Sleeping.exact (hs : Wellformed s) (h : Sleeping s t d) {n : Nat}
    (hn : s.jiffy.toInt + n = d.toInt) (hd : d.toInt < 2 ^ 31 - 1) :
    SleepsExactly board s t n := by
  constructor
  · intro tr u hpath hticks
    exact (h.path hs hpath (by omega)).not_awake
  · intro tr e u hpath hticks htick
    obtain ⟨hfirst, hone, hlast⟩ := hpath.split_cons
    obtain rfl := hlast.nil_inv
    have hpre := hfirst.preserves (fun _ _ _ => wellformed_step) hs
    have hcount := path_jiffy hs hfirst (by omega)
    have hjiffy := step_jiffy hpre hone
    apply ((h.path hs hfirst (by omega)).step hpre hone).2 htick
    rw [hjiffy, if_pos htick, Int32.lt_iff_toInt_lt, Wrapping.toInt_succ (by omega)]
    omega

/-- In every reachable state, a sleep of `stime ≥ 0` ticks is exact if and only
if its deadline stays below the largest value of the tick counter. -/
theorem sleep_exact_iff (board : Board) (s s' : Kernel) (stime : Int32)
    (hs : Reachable (system board) s) (hstime : 0 ≤ stime.toInt)
    (hstep : (system board).step s (.sleep stime) s') :
    SleepsExactly board s' s.currentTid stime.toInt.toNat ↔
      s.jiffy.toInt + stime.toInt < 2 ^ 31 - 1 := by
  have hwf := reachable_wellformed hs
  have hwf' := wellformed_step hwf hstep
  obtain ⟨hsame, _, hwakes, hsleeps⟩ := sleep_call hwf hstep
  have hlow := s.jiffy.le_toInt
  constructor
  · intro hexact
    by_contra hover
    rcases Int.lt_or_eq_of_le (Int.not_lt.mp hover) with hgt | heq
    · -- the deadline wraps into the past
      have hd := Wrapping.toInt_add_of_gt (x := s.jiffy) (y := stime) (by omega)
      have hmax := stime.toInt_lt
      have hawake : Awake s' s.currentTid := by
        apply hwakes
        rw [Int32.lt_iff_toInt_lt, hd]
        omega
      exact hexact.1 [] s' (.nil s') (Nat.zero_le _) hawake
    · -- the deadline is never passed
      have hd := Wrapping.toInt_add_of_le (x := s.jiffy) (y := stime) (by omega) (by omega)
      have hsleep : Sleeping s' s.currentTid (s.jiffy + stime) := by
        apply hsleeps
        rw [Int32.lt_iff_toInt_lt, hd]
        omega
      obtain ⟨tr, u, hpath, hticks, hu⟩ := exists_ticks board hwf' stime.toInt.toNat
      obtain ⟨v, hone⟩ := enabled_steps board (a := .tick) hu trivial
      have hlong := hpath.snoc hone
      have hawake := hexact.2 tr ⟨u, .tick, v⟩ v hlong hticks rfl
      exact (hsleep.forever hwf' (by omega) hlong).not_awake hawake
  · intro hfit
    have hd := Wrapping.toInt_add_of_le (x := s.jiffy) (y := stime) (by omega) (by omega)
    have hsleep : Sleeping s' s.currentTid (s.jiffy + stime) := by
      apply hsleeps
      rw [Int32.lt_iff_toInt_lt, hd]
      omega
    exact hsleep.exact hwf' (by rw [hsame, hd]; omega) (by omega)

/-- One task, at tick 1: a sleep of `2^31 - 1` ticks ends in its own call. -/
theorem sleep_exact_fails_at_wrap :
    ∃ s s', Reachable (system xmc1100) s ∧ s.jiffy = 1 ∧
      (system xmc1100).step s (.sleep 2147483647) s' ∧
      ¬ SleepsExactly xmc1100 s' s.currentTid 2147483647 := by
  obtain ⟨s, hrun, hjiffy, hready⟩ := exists_of_any
    (by decide +kernel : (execute xmc1100 (boot xmc1100) [.register 0x10001100,
      .tick]).any (fun s => decide (s.jiffy = 1 ∧
        (next xmc1100 s (.sleep 2147483647)).any
          (fun s' => decide ((s'.tasks s.currentTid).state = taskReady)) = true)) = true)
  obtain ⟨s', hnext, hstate⟩ := exists_of_any hready
  refine ⟨s, s', execute_reachable hrun, hjiffy, next_step _ _ _ _ hnext, ?_⟩
  intro hexact
  exact hexact.1 [] s' (.nil s') (Nat.zero_le _) (.inl hstate)

/-- The same task, at tick 1, with a sleep of 100 ticks. -/
theorem sleep_exact_iff_hundred :
    ∃ s s', Reachable (system xmc1100) s ∧
      (system xmc1100).step s (.sleep 100) s' ∧
      SleepsExactly xmc1100 s' s.currentTid 100 := by
  obtain ⟨s, hrun, hjiffy, hready⟩ := exists_of_any
    (by decide +kernel : (execute xmc1100 (boot xmc1100) [.register 0x10001100,
      .tick]).any (fun s => decide (s.jiffy = 1 ∧
        (next xmc1100 s (.sleep 100)).isSome = true)) = true)
  obtain ⟨s', hnext⟩ := Option.isSome_iff_exists.mp hready
  have hreach := execute_reachable hrun
  have hstep := next_step _ _ _ _ hnext
  refine ⟨s, s', hreach, hstep, ?_⟩
  have hiff := sleep_exact_iff xmc1100 s s' 100 hreach (by decide) hstep
  exact hiff.mpr (by rw [hjiffy]; decide)

end PascalScheduler
