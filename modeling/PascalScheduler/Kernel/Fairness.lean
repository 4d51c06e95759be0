import PascalScheduler.Kernel.Invariant

/-!
Round-robin fairness. The scan of `k_task_peek_next` starts from another place
when idle runs, and tasks are woken, blocked and registered between decisions.
What survives all of this is that each decision answers with a task ahead of
the previous one on the way to any task that stays READY.
-/

namespace PascalScheduler

open Transition

/-- The task a step dispatches, if it makes a scheduling decision. -/
def dispatched (e : Event Kernel Action) : Option Nat :=
  if (leave e.pre e.label).isSome then some e.post.currentTid else none

def dispatches (tr : List (Event Kernel Action)) : List Nat :=
  tr.filterMap dispatched

/-- `t` is registered, READY and not running. -/
structure WaitsForCpu (s : Kernel) (t : Nat) : Prop where
  registered : s.registered t
  ready : (s.tasks t).state = taskReady
  notCurrent : t ≠ s.currentTid

variable {board : Board} {s s' : Kernel} {a : Action} {t : Nat}

theorem dispatched_decide {o : Kernel} (h : leave s a = some o) :
    dispatched ⟨s, a, s'⟩ = some s'.currentTid := by
  simp only [dispatched, h, Option.isSome_some, if_true]

theorem dispatched_quiet (h : leave s a = none) : dispatched ⟨s, a, s'⟩ = none := by
  simp only [dispatched, h, Option.isSome_none, Bool.false_eq_true, if_false]

theorem WaitsForCpu.quiet (h : WaitsForCpu s t) (hquiet : Quiet s s') :
    WaitsForCpu s' t where
  registered := ⟨h.registered.1, h.registered.2.trans hquiet.registeredTasks⟩
  ready := by
    rw [hquiet.tasks t h.registered.2]
    exact h.ready
  notCurrent := by
    rw [hquiet.currentTid]
    exact h.notCurrent

/-- A decision at which `t` is READY brings the cursor closer to `t`, and
leaves `t` READY unless it is the task dispatched. -/
theorem decision_ahead {o : Kernel} (hreg : s.registered t) (hne : t ≠ s.currentTid)
    (hready : o.readied t ∨ (o.tasks t).state = taskReady)
    (hleave : leave s a = some o) (hdec : Decision o s') :
    1 ≤ s'.currentTid ∧ RoundRobin.Ahead s.currentTid t s'.currentTid ∧
      (s'.currentTid ≠ t → WaitsForCpu s' t) := by
  have hleft := leave_leaves hleave
  have hnext : o.readyNext t := by
    rcases hready with hr | hstate
    · exact .inl hr
    · right
      rw [Kernel.isReady, hstate]
      decide
  have hle : t ≤ o.registeredTasks := hleft.registeredTasks ▸ hreg.2
  obtain ⟨hpos, hahead⟩ :=
    hdec.picks.ahead hreg.1 hle (hleft.currentTid ▸ hne) hnext
  rw [hleft.currentTid] at hahead
  refine ⟨hpos, hahead, ?_⟩
  intro hother
  refine ⟨⟨hreg.1, hdec.registeredTasks ▸ hle⟩, ?_, hother.symm⟩
  by_cases hr : o.readied t
  · rw [hdec.readied t hother.symm hr]
  · rw [hdec.kept t hother.symm hr]
    exact hready.resolve_left hr

theorem WaitsForCpu.decision {o : Kernel} (h : WaitsForCpu s t)
    (hleave : leave s a = some o) (hdec : Decision o s') :
    1 ≤ s'.currentTid ∧ RoundRobin.Ahead s.currentTid t s'.currentTid ∧
      (s'.currentTid ≠ t → WaitsForCpu s' t) := by
  refine decision_ahead h.registered h.notCurrent (.inr ?_) hleave hdec
  rw [(leave_leaves hleave).other t h.notCurrent]
  exact h.ready

/-- While `t` stays READY and is not dispatched, the dispatched tasks form a
chase of `t`, and `t` is still waiting at the end. -/
theorem WaitsForCpu.chase {tr : List (Event Kernel Action)} (hs : Wellformed s)
    (h : WaitsForCpu s t) (hpath : Path (system board) s tr s')
    (hnot : t ∉ dispatches tr) :
    RoundRobin.Chase t s.currentTid (dispatches tr) ∧
      (∀ x ∈ dispatches tr, 1 ≤ x) ∧ WaitsForCpu s' t := by
  induction hpath with
  | nil => exact ⟨trivial, by simp [dispatches], h⟩
  | @cons s u s' a tr hstep _ ih =>
      have hu := wellformed_step hs hstep
      rcases (step_steps hs hstep).decides_or_quiet with
        ⟨o, hleave, hdec⟩ | ⟨hleave, hquiet⟩
      · have hlist : dispatches (⟨s, a, u⟩ :: tr) = u.currentTid :: dispatches tr :=
          List.filterMap_cons_some (dispatched_decide hleave)
        rw [hlist] at hnot ⊢
        simp only [List.mem_cons, not_or] at hnot
        obtain ⟨hfirst, hrest⟩ := hnot
        obtain ⟨hpos, hahead, hwaits⟩ := h.decision hleave hdec
        obtain ⟨hchase, hall, hend⟩ := ih hu (hwaits (Ne.symm hfirst)) hrest
        refine ⟨⟨hahead, Ne.symm hfirst, hchase⟩, ?_, hend⟩
        intro x hx
        rcases List.mem_cons.mp hx with rfl | hmem
        · exact hpos
        · exact hall x hmem
      · have hlist : dispatches (⟨s, a, u⟩ :: tr) = dispatches tr :=
          List.filterMap_cons_none (dispatched_quiet hleave)
        rw [hlist] at hnot ⊢
        rw [← hquiet.currentTid]
        exact ih hu (h.quiet hquiet) hnot

/-- Round-robin fairness: before a READY task is dispatched, every other task,
idle included, is dispatched at most once. -/
theorem round_robin_fairness (board : Board) (s s' : Kernel) (t : Nat)
    (tr : List (Event Kernel Action)) (hs : Reachable (system board) s)
    (hready : WaitsForCpu s t) (hpath : Path (system board) s tr s')
    (hbefore : t ∉ dispatches tr) (x : Nat) :
    (dispatches tr).count x ≤ 1 := by
  obtain ⟨hchase, _, _⟩ := hready.chase (reachable_wellformed hs) hpath hbefore
  exact List.nodup_iff_count_le_one.mp hchase.nodup x

/-- Three tasks; the third waits while the first runs and a tick dispatches the
second. -/
theorem round_robin_fairness_three_tasks :
    ∃ s s' tr, execute xmc1100 (boot xmc1100) [.register 0x10001100,
        .register 0x10001200, .register 0x10001300, .tick] = some s ∧
      Path (system xmc1100) s tr s' ∧ dispatches tr = [2] ∧
      ∀ x, (dispatches tr).count x ≤ 1 := by
  obtain ⟨s, hrun, hstate, hcur, hcount, htick⟩ := exists_of_any
    (by decide +kernel : (execute xmc1100 (boot xmc1100) [.register 0x10001100,
      .register 0x10001200, .register 0x10001300, .tick]).any (fun s =>
        decide ((s.tasks 3).state = taskReady ∧ s.currentTid = 1 ∧
          s.registeredTasks = 3 ∧
          (next xmc1100 s .tick).map Kernel.currentTid = some 2)) = true)
  obtain ⟨s', hstep, hsecond⟩ := Option.map_eq_some_iff.mp htick
  have hpath := Path.single (next_step xmc1100 s .tick s' hstep)
  have hlist : dispatches [⟨s, .tick, s'⟩] = [2] := by
    simp [dispatches, dispatched, leave, hsecond]
  have hwaits : WaitsForCpu s 3 := ⟨⟨by decide, by omega⟩, hstate, by omega⟩
  refine ⟨s, s', _, hrun, hpath, hlist, ?_⟩
  exact round_robin_fairness xmc1100 s s' 3 _ (execute_reachable hrun) hwaits hpath
    (by rw [hlist]; decide)

end PascalScheduler
