import PascalScheduler.Kernel.Invariant

/-!
Work conservation: when idle runs after a scheduling decision, no registered
task is READY. The scan from idle tests every task before it gives up. The scan
from a task gives up when it is back at that task, which it never tests, so
what the law asks of it is that the task itself is not READY or some other is.
-/

namespace PascalScheduler

open Transition

/-- After a decision for idle, nothing is left that could run. -/
def Conserves (e : Event Kernel Action) : Prop :=
  (leave e.pre e.label).isSome → e.post.currentTid = 0 →
    ∀ i, e.post.registered i → ¬ e.post.isReady i = true

def WorkConserving (tr : List (Event Kernel Action)) : Prop :=
  ∀ e ∈ tr, Conserves e

/-- The scan cannot miss the only READY task: it starts from idle, or the task
it starts from is not READY after the wake-ups, or another one is. -/
def ScanSuffices (s : Kernel) (a : Action) : Prop :=
  ∀ o, leave s a = some o →
    s.currentTid = 0 ∨ ¬ o.readyNext s.currentTid ∨
      ∃ i, o.registered i ∧ i ≠ s.currentTid ∧ o.readyNext i

variable {board : Board} {s o t : Kernel} {a : Action}

/-- A task the decision did not dispatch is READY exactly when it was after the
wake-ups. -/
theorem Decision.isReady_iff (h : Decision o t) {i : Nat} (hne : i ≠ t.currentTid) :
    t.isReady i = true ↔ o.readyNext i := by
  by_cases hr : o.readied i
  · have hready : t.isReady i = true := by
      simp only [Kernel.isReady, h.readied i hne hr]
      decide
    exact ⟨fun _ => .inl hr, fun _ => hready⟩
  · simp [Kernel.readyNext, Kernel.isReady, h.kept i hne hr, hr]

/-- Idle is dispatched when no task but the one that stops is READY. -/
theorem Decision.idle_iff (h : Decision o t) :
    t.currentTid = 0 ↔ ¬ ∃ i, o.registered i ∧ i ≠ o.currentTid ∧ o.readyNext i := by
  have hpicks := h.picks
  generalize t.currentTid = x at hpicks
  cases hpicks with
  | found hpos hle hne hready _ =>
      constructor
      · omega
      · intro hnone
        exact absurd ⟨_, ⟨hpos, hle⟩, hne, hready⟩ hnone
  | none hempty =>
      simp only [true_iff]
      rintro ⟨i, hreg, hne, hready⟩
      exact hempty i hreg.1 hreg.2 hne hready

/-- One decision: idle with nothing left to run. -/
theorem decision_conserves_iff (hs : Wellformed s) (hleave : leave s a = some o)
    (hdec : Decision o t) : Conserves ⟨s, a, t⟩ ↔ ScanSuffices s a := by
  have hleft := leave_leaves hleave
  simp only [Conserves, ScanSuffices, hleave, Option.isSome_some, forall_const,
    Option.some.injEq, forall_eq']
  constructor
  · intro hconserves
    by_cases hother : ∃ i, o.registered i ∧ i ≠ s.currentTid ∧ o.readyNext i
    · exact .inr (.inr hother)
    · have hidle : t.currentTid = 0 := by
        apply hdec.idle_iff.mpr
        rw [hleft.currentTid]
        exact hother
      by_cases hcur : s.currentTid = 0
      · exact .inl hcur
      · right
        left
        intro hready
        have hcurreg : o.registered s.currentTid :=
          ⟨by omega, hleft.registeredTasks ▸ hs.current_le⟩
        apply hconserves hidle _ ((hdec.registered_iff _).mpr hcurreg)
        exact (hdec.isReady_iff (by omega)).mpr hready
  · intro hsuffices hidle i hi hready
    have hnone := hdec.idle_iff.mp hidle
    rw [hleft.currentTid] at hnone
    have hpos : 1 ≤ i := hi.1
    have hnext : o.readyNext i := (hdec.isReady_iff (by omega)).mp hready
    -- the only task that can be READY is the one the scan started from
    have hself : i = s.currentTid := by
      by_contra hne
      exact hnone ⟨i, (hdec.registered_iff i).mp hi, hne, hnext⟩
    rcases hsuffices with hcur | hasleep | hother
    · omega
    · exact hasleep (hself ▸ hnext)
    · exact hnone hother

theorem step_conserves_iff (hs : Wellformed s) (h : (system board).step s a t) :
    Conserves ⟨s, a, t⟩ ↔ ScanSuffices s a := by
  rcases (step_steps hs h).decides_or_quiet with ⟨o, hleave, hdec⟩ | ⟨hleave, _⟩
  · exact decision_conserves_iff hs hleave hdec
  · simp [Conserves, ScanSuffices, hleave]

/-- A contended `k_mutex_lock` always conserves work: the task that stops waits
for the mutex, which the decision does not hand over. -/
theorem lock_scanSuffices (s : Kernel) : ScanSuffices s .mutexLock := by
  intro o hleave
  right
  left
  have hleft := leave_leaves hleave
  have hheld : s.mutex ≠ 0 := by
    intro hfree
    rw [leave, if_pos hfree] at hleave
    cases hleave
  have hstate : (o.tasks s.currentTid).state = taskMutexBlocked := by
    rw [hleft.entry]
    rfl
  rintro ((⟨_, hblocked, _⟩ | ⟨hfree, _⟩) | hready)
  · rw [Kernel.isBlocked, hstate] at hblocked
    exact absurd hblocked (by decide)
  · exact hheld (hleft.mutex ▸ hfree)
  · rw [Kernel.isReady, hstate] at hready
    exact absurd hready (by decide)

/-- In every run from the start, work is conserved at each decision if and only
if the scan of that decision does not start from the only READY task. -/
theorem work_conserving_iff (board : Board) (s₀ s : Kernel)
    (tr : List (Event Kernel Action)) (hinit : (system board).init s₀)
    (hpath : Path (system board) s₀ tr s) :
    WorkConserving tr ↔ ∀ e ∈ tr, ScanSuffices e.pre e.label := by
  have hevent : ∀ e ∈ tr, (Conserves e ↔ ScanSuffices e.pre e.label) := by
    intro e he
    obtain ⟨hpre, hstep, _⟩ := hpath.event_reachable (reachable_init hinit) he
    exact step_conserves_iff (reachable_wellformed hpre) hstep
  constructor
  · intro hwork e he
    exact (hevent e he).mp (hwork e he)
  · intro hscan e he
    exact (hevent e he).mpr (hscan e he)

/-- One task, started by the first tick, yields: idle runs and the task, which
could, does not. -/
theorem work_lost_on_yield :
    ∃ tr s, Path (system xmc1100) (boot xmc1100) tr s ∧
      tr.map Event.label = [.register 0x10001100, .tick, .yield] ∧
      s.currentTid = 0 ∧ s.isReady 1 = true ∧ ¬ WorkConserving tr := by
  obtain ⟨s, hrun, hnext⟩ := exists_of_any
    (by decide +kernel : (execute xmc1100 (boot xmc1100) [.register 0x10001100,
      .tick]).any (fun s => decide ((next xmc1100 s .yield).any (fun s' =>
        decide (s'.currentTid = 0 ∧ s'.registeredTasks = 1 ∧ s'.isReady 1 = true)) = true)) =
          true)
  obtain ⟨s', hone, hidle, hcount, hready⟩ := exists_of_any hnext
  obtain ⟨tr, hpath, hlabels⟩ := run_path (next_step xmc1100) hrun
  have hstep := next_step _ _ _ _ hone
  refine ⟨tr ++ [⟨s, .yield, s'⟩], s', hpath.snoc hstep, ?_, hidle, hready, ?_⟩
  · rw [List.map_append, hlabels]
    rfl
  · intro hwork
    have hregistered : s'.registered 1 := ⟨le_refl _, by omega⟩
    exact hwork ⟨s, .yield, s'⟩ (by simp) rfl hidle 1 hregistered hready

/-- With two tasks the yield finds the other one. -/
theorem work_conserving_iff_two_tasks :
    ∃ tr s, Path (system xmc1100) (boot xmc1100) tr s ∧
      tr.map Event.label = [.register 0x10001100, .register 0x10001200, .tick, .yield] ∧
      s.currentTid = 2 ∧ WorkConserving tr := by
  let s₁ := (kTaskRegister xmc1100 0x10001100 (boot xmc1100)).1
  let s₂ := (kTaskRegister xmc1100 0x10001200 s₁).1
  obtain ⟨s₃, hsched, hcur, hflag, hcount, hready, hyield⟩ := exists_of_any
    (by decide +kernel : (scheduler s₂).any (fun s => decide (s.currentTid = 1 ∧
      s.signalFlag = 0 ∧ s.registeredTasks = 2 ∧ (leaveYield s).isReady 2 = true ∧
      (kTaskYield s).any (fun s' => decide (s'.currentTid = 2)) = true)) = true)
  obtain ⟨s₄, hone, hsecond⟩ := exists_of_any hyield
  have henabled : Enabled s₃ .yield := ⟨by omega, hflag⟩
  have hpath : Path (system xmc1100) (boot xmc1100)
      [⟨boot xmc1100, .register 0x10001100, s₁⟩, ⟨s₁, .register 0x10001200, s₂⟩,
        ⟨s₂, .tick, s₃⟩, ⟨s₃, .yield, s₄⟩] s₄ :=
    .cons ⟨rfl, rfl⟩ (.cons ⟨rfl, rfl⟩ (.cons ⟨trivial, hsched⟩ (.single ⟨henabled, hone⟩)))
  refine ⟨_, _, hpath, rfl, hsecond, ?_⟩
  apply (work_conserving_iff xmc1100 _ _ _ ⟨_, _, rfl⟩ hpath).mpr
  intro e he
  simp only [List.mem_cons, List.not_mem_nil, or_false] at he
  rcases he with rfl | rfl | rfl | rfl
  · exact nofun
  · exact nofun
  · exact fun _ _ => .inl rfl
  · intro o hleave
    obtain rfl := Option.some.inj hleave
    have hregistered : (leaveYield s₃).registered 2 := ⟨by omega, by exact hcount.ge⟩
    have hother : (2 : Nat) ≠ s₃.currentTid := by omega
    exact .inr (.inr ⟨2, hregistered, hother, .inr hready⟩)

end PascalScheduler
