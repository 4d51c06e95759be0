import PascalScheduler.Kernel.Sleep

/-!
Waiting for a signal. A tick records the wait with `sleep_until = 0`, the
wake-up test only compares `jiffy` with `sleep_until`, and nothing reads the
raised bits. So a wait blocks exactly as long as no scheduling decision finds a
positive tick counter, whatever is raised, and the recorded signal is never
taken back.
-/

namespace PascalScheduler

open Transition

/-- The raise of a signal that has a bit in common with `sig`. -/
def Action.raises (sig : UInt32) : Action → Bool
  | .signalRaise signal => signal &&& sig != 0
  | _ => false

/-- A tick that records the wait of the running task. -/
def Records (e : Event Kernel Action) : Prop :=
  e.label.isTick = true ∧ e.pre.signalFlag ≠ 0

/-- What waiting for a signal is meant to do. After a tick has recorded that
`t` waits for `sig`, the task is neither READY nor RUNNING before a raise that
matches `sig`, and whenever it is, its entry records no signal. -/
def SignalsBlock (board : Board) (tr : List (Event Kernel Action)) : Prop :=
  ∀ before e after rest, tr = before ++ e :: after ++ rest → Records e →
    ∀ u, Path (system board) e.pre (e :: after) u →
      ((∀ f ∈ after, f.label.raises e.pre.signalFlag.toUInt32 = false) →
        ¬ Awake u e.pre.currentTid) ∧
      (Awake u e.pre.currentTid → (u.tasks e.pre.currentTid).signalFlag = 0)

/-- `t` is recorded as waiting for a signal. -/
def WaitsForSignal (s : Kernel) (t : Nat) : Prop :=
  s.registered t ∧ s.isBlocked t = true ∧ (s.tasks t).signalFlag ≠ 0

/-- No decision is made with a positive tick counter while a task is recorded
as waiting, or is being recorded by the tick that decides. -/
def NoLateWait (tr : List (Event Kernel Action)) : Prop :=
  ∀ e ∈ tr, (leave e.pre e.label).isSome = true →
    (Records e ∨ ∃ t, WaitsForSignal e.pre t) → ¬ 0 < leftJiffy e.pre e.label

variable {board : Board} {s s' o : Kernel} {a : Action} {t : Nat}
  {tr : List (Event Kernel Action)}

/-- What a recorded wait says about its entry. -/
def SignalEntries (s : Kernel) : Prop :=
  ∀ i, (s.tasks i).signalFlag ≠ 0 →
    (s.tasks i).sleepUntil = 0 ∧ (s.tasks i).state ≠ taskBlocked

theorem leftEntry_signal (hs : SignalEntries s) (hflag : (leftEntry s a).signalFlag ≠ 0) :
    (leftEntry s a).sleepUntil = 0 ∧ (leftEntry s a).state ≠ taskBlocked := by
  have hready : taskReady ≠ taskBlocked := by decide
  have hsignal : taskCreated ||| taskBlocked ≠ taskBlocked := by decide
  have hmutex : taskMutexBlocked ≠ taskBlocked := by decide
  cases a with
  | tick =>
      simp only [leftEntry] at hflag ⊢
      split
      · rename_i hnone
        rw [if_pos hnone] at hflag
        exact ⟨(hs s.currentTid hflag).1, hready⟩
      · exact ⟨rfl, hsignal⟩
  | sleep => exact absurd rfl hflag
  | mutexLock => exact ⟨(hs s.currentTid hflag).1, hmutex⟩
  | yield | mutexUnlock | signalWait | signalRaise | register =>
      exact ⟨(hs s.currentTid hflag).1, hready⟩

theorem decision_signalEntries (hs : SignalEntries s) (hleave : leave s a = some o)
    (hdec : Decision o s') : SignalEntries s' := by
  have hleft := leave_leaves hleave
  have ho : SignalEntries o := by
    intro i hflag
    by_cases hcur : i = s.currentTid
    · rw [hcur, hleft.entry] at hflag ⊢
      exact leftEntry_signal hs hflag
    · rw [hleft.other i hcur] at hflag ⊢
      exact hs i hflag
  intro i hflag
  have hentry := hdec.entry i
  have hold : (o.tasks i).signalFlag ≠ 0 := by
    rw [hentry] at hflag
    exact hflag
  refine ⟨?_, ?_⟩
  · rw [hentry]
    exact (ho i hold).1
  · by_cases hcur : i = s'.currentTid
    · rw [hcur, hdec.running]
      exact (by decide : taskRunning ≠ taskBlocked)
    · by_cases hr : o.readied i
      · rw [hdec.readied i hcur hr]
        exact (by decide : taskReady ≠ taskBlocked)
      · rw [hdec.kept i hcur hr]
        exact (ho i hold).2

theorem signalEntries_step (hwf : Wellformed s) (hs : SignalEntries s)
    (h : (system board).step s a s') : SignalEntries s' := by
  cases step_steps hwf h with
  | decide hleave hdec => exact decision_signalEntries hs hleave hdec
  | lock | unlock | wait | raise | full => exact hs
  | register taskFunc hroom =>
      obtain ⟨_, hother, hnew⟩ := kTaskRegister_room board taskFunc hroom
      intro i hflag
      by_cases hlast : i = s.registeredTasks + 1
      · rw [hlast, hnew] at hflag ⊢
        exact ⟨(hs _ hflag).1, (by decide : taskReady ≠ taskBlocked)⟩
      · rw [hother i hlast] at hflag ⊢
        exact hs i hflag

theorem signalEntries_invariant (board : Board) :
    Invariant (system board) (fun s => Wellformed s ∧ SignalEntries s) :=
  (wellformed_invariant board).under
    (by
      rintro s ⟨timer, memory, rfl⟩ i hflag
      have hzero : ((schedulerInit board (startUp timer memory)).tasks i).signalFlag = 0 := by
        change ((Kernel.setState _ 0 taskRunning).tasks i).signalFlag = 0
        rw [Kernel.setState_tasks]
        split <;> rfl
      exact absurd hzero hflag)
    (fun _ _ _ hwf hs h => signalEntries_step hwf hs h)

/-- A waiting entry carries exactly the state the tick recorded. -/
theorem WaitsForSignal.entry (hwf : Wellformed s) (hs : SignalEntries s)
    (h : WaitsForSignal s t) :
    t ≠ s.currentTid ∧ (s.tasks t).state = (taskCreated ||| taskBlocked) ∧
      (s.tasks t).sleepUntil = 0 := by
  obtain ⟨hreg, hbit, hflag⟩ := h
  have hne : t ≠ s.currentTid := by
    rintro rfl
    rw [Kernel.isBlocked, hwf.running] at hbit
    exact absurd hbit (by decide)
  refine ⟨hne, ?_, (hs t hflag).1⟩
  rw [Kernel.isBlocked] at hbit
  rcases hwf.parked t hreg hne with hp | hp | hp | hp
  · exact absurd (hp ▸ hbit) (by decide)
  · exact absurd hp (hs t hflag).2
  · exact hp
  · exact absurd (hp ▸ hbit) (by decide)

/-- A recorded wait, seen from the kernel a decision starts from. -/
structure SignalEntry (o : Kernel) (t : Nat) : Prop where
  registered : o.registered t
  state : (o.tasks t).state = (taskCreated ||| taskBlocked)
  sleepUntil : (o.tasks t).sleepUntil = 0
  signal : (o.tasks t).signalFlag ≠ 0

theorem SignalEntry.isBlocked (h : SignalEntry o t) : o.isBlocked t = true := by
  rw [Kernel.isBlocked, h.state]
  decide

theorem SignalEntry.wakes_iff (h : SignalEntry o t) : o.wakes t ↔ 0 < o.jiffy := by
  rw [Kernel.wakes, h.sleepUntil]
  exact ⟨fun hw => hw.2.2, fun hlt => ⟨h.registered, h.isBlocked, hlt⟩⟩

/-- A decision with a positive counter wakes the waiting task, and its entry
still records the signal. -/
theorem SignalEntry.woken (h : SignalEntry o t) (hdec : Decision o s')
    (hlate : 0 < o.jiffy) : Awake s' t ∧ (s'.tasks t).signalFlag ≠ 0 := by
  refine ⟨decision_woken hdec (h.wakes_iff.mpr hlate), ?_⟩
  rw [hdec.entry t]
  exact h.signal

/-- A decision with any other counter leaves the wait as it is. -/
theorem SignalEntry.kept (h : SignalEntry o t) (hdec : Decision o s')
    (hearly : ¬ 0 < o.jiffy) : SignalEntry s' t ∧ t ≠ s'.currentTid := by
  have hready : o.isReady t = false := by
    rw [Kernel.isReady, h.state]
    decide
  have hmutex : o.isMutexBlocked t = false := by
    rw [Kernel.isMutexBlocked, h.state]
    decide
  obtain ⟨hne, hsame⟩ := decision_dormant hdec h.registered hready hmutex
    (fun hw => hearly (h.wakes_iff.mp hw))
  refine ⟨⟨?_, hsame ▸ h.state, hsame ▸ h.sleepUntil, hsame ▸ h.signal⟩, hne⟩
  rw [Kernel.registered, hdec.registeredTasks]
  exact h.registered

theorem SignalEntry.not_awake (h : SignalEntry s t) : ¬ Awake s t := by
  rintro (hready | hrunning)
  · exact absurd (h.state.symm.trans hready) (by decide)
  · exact absurd (h.state.symm.trans hrunning) (by decide)

theorem SignalEntry.waits (h : SignalEntry s t) : WaitsForSignal s t :=
  ⟨h.registered, h.isBlocked, h.signal⟩

/-- The entry a recording tick hands to its own decision. -/
theorem records_entry (hwf : Wellformed s) (hleave : leave s a = some o)
    (htick : a.isTick = true) (hflag : s.signalFlag ≠ 0) :
    SignalEntry o s.currentTid := by
  have hleft := leave_leaves hleave
  have hcur := hwf.current_le
  have hpos := hwf.spinning hflag
  have hentry := hleft.entry
  cases a with
  | tick =>
      rw [leftEntry, if_neg hflag] at hentry
      refine ⟨?_, by rw [hentry], by rw [hentry], ?_⟩
      · rw [Kernel.registered, hleft.registeredTasks]
        omega
      · rw [hentry]
        intro hzero
        have hword : s.signalFlag.toUInt32 = 0 := hzero
        apply hflag
        rw [← Int32.toInt32_toUInt32 s.signalFlag, hword]
        rfl
  | yield | sleep | mutexLock | mutexUnlock | signalWait | signalRaise | register =>
      cases htick

/-- A wait that was already recorded, seen from the decision. -/
theorem WaitsForSignal.left (hwf : Wellformed s) (hs : SignalEntries s)
    (h : WaitsForSignal s t) (hleave : leave s a = some o) : SignalEntry o t := by
  obtain ⟨hne, hstate, hsleep⟩ := h.entry hwf hs
  have hleft := leave_leaves hleave
  have htask := hleft.other t hne
  refine ⟨?_, htask ▸ hstate, htask ▸ hsleep, htask ▸ h.2.2⟩
  rw [Kernel.registered, hleft.registeredTasks]
  exact h.1

/-- Along a run that keeps to `NoLateWait` a recorded wait lasts. -/
theorem SignalEntry.path (hwf : Wellformed s) (hs : SignalEntries s)
    (h : SignalEntry s t) (hpath : Path (system board) s tr s')
    (hcond : NoLateWait tr) : SignalEntry s' t := by
  induction hpath with
  | nil => exact h
  | @cons s u s' a tr hstep _ ih =>
      obtain ⟨hfirst, hrest⟩ := List.forall_mem_cons.mp hcond
      apply ih (wellformed_step hwf hstep) (signalEntries_step hwf hs hstep) _ hrest
      rcases (step_steps hwf hstep).decides_or_quiet with
        ⟨o, hleave, hdec⟩ | ⟨hleave, hquiet⟩
      · have hearly := hfirst (by rw [hleave]; rfl) (.inr ⟨t, h.waits⟩)
        rw [← (leave_leaves hleave).jiffy] at hearly
        exact ((h.waits.left hwf hs hleave).kept hdec hearly).1
      · have htask := hquiet.tasks t h.registered.2
        exact ⟨⟨h.registered.1, h.registered.2.trans hquiet.registeredTasks⟩,
          htask ▸ h.state, htask ▸ h.sleepUntil, htask ▸ h.signal⟩

/-- Only a recording tick makes an entry record a signal. -/
theorem signalFlag_step (hwf : Wellformed s) (h : (system board).step s a s')
    (hflag : (s'.tasks t).signalFlag ≠ 0) :
    (s.tasks t).signalFlag ≠ 0 ∨
      (a.isTick = true ∧ s.signalFlag ≠ 0 ∧ s.currentTid = t) := by
  cases step_steps hwf h with
  | decide hleave hdec =>
      have hleft := leave_leaves hleave
      rw [hdec.entry t] at hflag
      by_cases hcur : t = s.currentTid
      · have hflag' : (leftEntry s a).signalFlag ≠ 0 := by
          rw [← hleft.entry, ← hcur]
          exact hflag
        cases a with
        | tick =>
            by_cases hpending : s.signalFlag = 0
            · rw [leftEntry, if_pos hpending] at hflag'
              exact .inl (hcur ▸ hflag')
            · exact .inr ⟨rfl, hpending, hcur.symm⟩
        | sleep => exact absurd rfl hflag'
        | yield | mutexLock | mutexUnlock | signalWait | signalRaise | register =>
            exact .inl (hcur ▸ hflag')
      · rw [← hleft.other t hcur]
        exact .inl hflag
  | lock | unlock | wait | raise | full => exact .inl hflag
  | register taskFunc hroom =>
      obtain ⟨_, hother, hnew⟩ := kTaskRegister_room board taskFunc hroom
      by_cases hlast : t = s.registeredTasks + 1
      · rw [hlast, hnew] at hflag
        exact .inl (hlast ▸ hflag)
      · rw [hother t hlast] at hflag
        exact .inl hflag

/-- A recorded signal was recorded by a tick of the run. -/
theorem recorded_before (hinit : (system board).init s)
    (hpath : Path (system board) s tr s') (hflag : (s'.tasks t).signalFlag ≠ 0) :
    ∃ before e after, tr = before ++ e :: after ∧ Records e ∧ e.pre.currentTid = t := by
  have hinv := (signalEntries_invariant board)
  have hnone : (s.tasks t).signalFlag = 0 := by
    obtain ⟨timer, memory, rfl⟩ := hinit
    change ((Kernel.setState _ 0 taskRunning).tasks t).signalFlag = 0
    rw [Kernel.setState_tasks]
    split <;> rfl
  revert hflag
  refine hpath.accumulate (P := fun u done => (u.tasks t).signalFlag ≠ 0 →
    ∃ before e after, done = before ++ e :: after ∧ Records e ∧ e.pre.currentTid = t) ?_ ?_
  · exact fun hflag => absurd hnone hflag
  · intro done u a v hdone ih hstep hflag
    have hwf : Wellformed u :=
      reachable_wellformed (hdone.reachable (reachable_init hinit))
    rcases signalFlag_step hwf hstep hflag with hold | ⟨htick, hpending, hcur⟩
    · obtain ⟨before, e, after, rfl, hrec, htid⟩ := ih hold
      exact ⟨before, e, after ++ [⟨u, a, v⟩], by simp, hrec, htid⟩
    · exact ⟨done, ⟨u, a, v⟩, [], by simp, ⟨htick, hpending⟩, hcur⟩

/-- A run that records a wait and stays early keeps it recorded. -/
theorem signal_blocks (hs : Reachable (system board) s) {e : Event Kernel Action}
    {after : List (Event Kernel Action)} (hrec : Records e)
    (hpath : Path (system board) e.pre (e :: after) s')
    (hpre : e.pre = s) (hcond : NoLateWait (e :: after)) :
    SignalEntry s' e.pre.currentTid := by
  obtain ⟨hfirst, hrest⟩ := List.forall_mem_cons.mp hcond
  obtain ⟨hwf, hent⟩ := (signalEntries_invariant board).reachable (hpre ▸ hs)
  obtain ⟨_, hstep, htail⟩ := hpath.cons_inv
  obtain ⟨o, hleave⟩ : ∃ o, leave e.pre e.label = some o := by
    cases hlabel : e.label with
    | tick => exact ⟨_, rfl⟩
    | yield | sleep | mutexLock | mutexUnlock | signalWait | signalRaise | register =>
        rw [Records, hlabel] at hrec
        cases hrec.1
  have hearly := hfirst (by rw [hleave]; rfl) (.inl hrec)
  rcases (step_steps hwf hstep).decides_or_quiet with ⟨o', hleave', hdec⟩ | ⟨hnone, _⟩
  · obtain rfl := Option.some.inj (hleave.symm.trans hleave')
    rw [← (leave_leaves hleave).jiffy] at hearly
    have hentry := ((records_entry hwf hleave hrec.1 hrec.2).kept hdec hearly).1
    exact hentry.path (wellformed_step hwf hstep) (signalEntries_step hwf hent hstep)
      htail hrest
  · rw [hnone] at hleave
    cases hleave

/-- A late decision wakes a task whose entry still records its signal. -/
theorem late_wakes (hwf : Wellformed s) (hent : SignalEntries s)
    (hstep : (system board).step s a s') (hdecides : (leave s a).isSome = true)
    (hlate : 0 < leftJiffy s a) :
    (a.isTick = true → s.signalFlag ≠ 0 →
      Awake s' s.currentTid ∧ (s'.tasks s.currentTid).signalFlag ≠ 0) ∧
    ∀ t, WaitsForSignal s t → Awake s' t ∧ (s'.tasks t).signalFlag ≠ 0 := by
  rcases (step_steps hwf hstep).decides_or_quiet with ⟨o, hleave, hdec⟩ | ⟨hnone, _⟩
  · rw [← (leave_leaves hleave).jiffy] at hlate
    constructor
    · intro htick hflag
      exact (records_entry hwf hleave htick hflag).woken hdec hlate
    · intro t hwaits
      exact (hwaits.left hwf hent hleave).woken hdec hlate
  · rw [hnone] at hdecides
    cases hdecides

/-- In every run from the start, waiting for a signal blocks if and only if no
decision comes with a positive tick counter while a wait is recorded. -/
theorem signals_block_iff (board : Board) (s₀ s : Kernel)
    (tr : List (Event Kernel Action)) (hinit : (system board).init s₀)
    (hpath : Path (system board) s₀ tr s) :
    SignalsBlock board tr ↔ NoLateWait tr := by
  have hstart : Reachable (system board) s₀ := reachable_init hinit
  constructor
  · intro hblock e he hdecides hwaiting hlate
    obtain ⟨before, after, rfl⟩ := List.append_of_mem he
    obtain ⟨hfirst, hstep, _⟩ := hpath.split_cons
    obtain ⟨hwf, hent⟩ :=
      (signalEntries_invariant board).reachable (hfirst.reachable hstart)
    obtain ⟨hrecording, hwaits⟩ := late_wakes hwf hent hstep hdecides hlate
    rcases hwaiting with hrec | ⟨t, ht⟩
    · obtain ⟨hawake, hflag⟩ := hrecording hrec.1 hrec.2
      have hmeant := hblock before e [] after (by simp) hrec e.post (Path.single hstep)
      exact hflag (hmeant.2 hawake)
    · -- the wait was recorded by an earlier tick of the run
      obtain ⟨hawake, hflag⟩ := hwaits t ht
      obtain ⟨first, r, between, rfl, hrec, rfl⟩ := recorded_before hinit hfirst ht.2.2
      obtain ⟨_, hone, hmiddle⟩ := hfirst.split_cons
      have hlong : Path (system board) r.pre (r :: (between ++ [e])) e.post :=
        .cons hone (hmiddle.snoc hstep)
      have hmeant := hblock first r (between ++ [e]) after (by simp) hrec e.post hlong
      exact hflag (hmeant.2 hawake)
  · rintro hcond before e after rest rfl hrec u hlong
    rw [List.append_assoc, List.cons_append] at hpath hcond
    obtain ⟨hfirst, _, _⟩ := hpath.split_cons
    have hpart : NoLateWait (e :: after) := by
      intro f hf
      apply hcond f
      simp only [List.mem_cons, List.mem_append] at hf ⊢
      tauto
    have hentry := signal_blocks (hfirst.reachable hstart) hrec hlong rfl hpart
    exact ⟨fun _ => hentry.not_awake, fun hawake => absurd hawake hentry.not_awake⟩

/-- One task, started by the first tick, waits for signal 4. The second tick
records the wait and makes the task READY again at once. -/
theorem signals_block_fails_after_tick :
    ∃ tr s, Path (system xmc1100) (boot xmc1100) tr s ∧
      tr.map Event.label = [.register 0x10001100, .tick, .signalWait 4, .tick] ∧
      ¬ SignalsBlock xmc1100 tr := by
  obtain ⟨s, hrun, hflag, hnext⟩ := exists_of_any
    (by decide +kernel : (execute xmc1100 (boot xmc1100) [.register 0x10001100, .tick,
      .signalWait 4]).any (fun s => decide (s.signalFlag = 4 ∧
        (next xmc1100 s .tick).any
          (fun s' => decide ((s'.tasks s.currentTid).state = taskReady)) = true)) = true)
  obtain ⟨s', hone, hready⟩ := exists_of_any hnext
  obtain ⟨tr, hpath, hlabels⟩ := run_path (next_step xmc1100) hrun
  have hstep := next_step _ _ _ _ hone
  refine ⟨tr ++ [⟨s, .tick, s'⟩], s', hpath.snoc hstep, ?_, ?_⟩
  · rw [List.map_append, hlabels]
    rfl
  · intro hblock
    have hrec : Records ⟨s, .tick, s'⟩ := by
      refine ⟨rfl, ?_⟩
      rw [hflag]
      decide
    have hmeant := hblock tr ⟨s, .tick, s'⟩ [] [] (by simp) hrec s' (Path.single hstep)
    exact hmeant.1 nofun (.inl hready)

section Alone

/-- One task, which runs at every other tick, and no signal anywhere. -/
structure Alone (s : Kernel) : Prop where
  wellformed : Wellformed s
  one : s.registeredTasks = 1
  quiet : s.signalFlag = 0
  unrecorded : (s.tasks 1).signalFlag = 0
  ready : s.currentTid = 0 → (s.tasks 1).state = taskReady

/-- No step from there records a wait or finds one. -/
theorem Alone.none_waits (hs : Alone s) : ¬ (Records ⟨s, a, s'⟩ ∨ ∃ t, WaitsForSignal s t) := by
  rintro (⟨_, hpending⟩ | ⟨t, ⟨hpos, hle⟩, _, hrecorded⟩)
  · exact hpending hs.quiet
  · rw [hs.one] at hle
    obtain rfl : t = 1 := Nat.le_antisymm hle hpos
    exact hrecorded hs.unrecorded

/-- A tick takes the processor from the task to idle, or back. -/
theorem Alone.tick (board : Board) (hs : Alone s) :
    ∃ s', (system board).step s .tick s' ∧ Alone s' ∧ (s'.currentTid = 0 ↔ s.currentTid ≠ 0) ∧
      s'.jiffy = s.jiffy + 1 := by
  obtain ⟨s', hstep⟩ := enabled_steps board hs.wellformed (a := .tick) trivial
  have hwf := wellformed_step hs.wellformed hstep
  rcases (step_steps hs.wellformed hstep).decides_or_quiet with ⟨o, hleave, hdec⟩ | ⟨hnone, _⟩
  · have hleft := leave_leaves hleave
    have hle := hs.wellformed.current_le
    have hone : (o.tasks 1).state = taskReady ∧ (o.tasks 1).signalFlag = 0 := by
      by_cases hcur : s.currentTid = 1
      · have hentry := hleft.entry
        rw [leftEntry, if_pos hs.quiet, hcur] at hentry
        rw [hentry]
        exact ⟨rfl, hs.unrecorded⟩
      · rw [hleft.other 1 (Ne.symm hcur)]
        exact ⟨hs.ready (by have := hs.one; omega), hs.unrecorded⟩
    have hnext : s'.currentTid = 0 ↔ s.currentTid ≠ 0 := by
      have hready : o.readyNext 1 := by
        right
        rw [Kernel.isReady, hone.1]
        decide
      have hpicks := hdec.picks
      rw [hleft.registeredTasks, hleft.currentTid, hs.one] at hpicks
      rw [hs.one] at hle
      generalize s'.currentTid = x at hpicks ⊢
      cases hpicks with
      | found hpos hle' hne => omega
      | none hempty =>
          refine iff_of_true rfl ?_
          intro hidle
          exact hempty 1 (le_refl 1) (le_refl 1) (by omega) hready
    refine ⟨s', hstep, ⟨hwf, ?_, ?_, ?_, ?_⟩, hnext, step_jiffy hs.wellformed hstep⟩
    · rw [hdec.registeredTasks, hleft.registeredTasks, hs.one]
    · rw [hdec.signalFlag, hleft.signalFlag]
      rfl
    · rw [hdec.entry 1]
      exact hone.2
    · intro hidle
      have hne : 1 ≠ s'.currentTid := by omega
      by_cases hr : o.readied 1
      · rw [hdec.readied 1 hne hr]
      · rw [hdec.kept 1 hne hr]
        exact hone.1
  · cases hnone

/-- After an even number of ticks it runs again. -/
theorem Alone.ticks (board : Board) (hs : Alone s) (hcur : s.currentTid = 1) (n : Nat) :
    ∃ tr s', Path (system board) s tr s' ∧ NoLateWait tr ∧ Alone s' ∧ s'.currentTid = 1 ∧
      s'.jiffy = s.jiffy + Int32.ofNat (2 * n) := by
  induction n with
  | zero =>
      refine ⟨[], s, .nil s, ?_, hs, hcur, (Int32.add_zero _).symm⟩
      exact fun e he => absurd he List.not_mem_nil
  | succ n ih =>
      obtain ⟨tr, u, hpath, hnone, hu, htask, hjiffy⟩ := ih
      obtain ⟨v, hleaves, hv, hidle, hfirst⟩ := hu.tick board
      obtain ⟨w, hreturns, hw, hback, hsecond⟩ := hv.tick board
      have hle := hw.wellformed.current_le
      rw [hw.one] at hle
      refine ⟨_, w, (hpath.snoc hleaves).snoc hreturns, ?_, hw, by omega, ?_⟩
      · intro e he hdecides hwaits
        rcases List.mem_append.mp he with hmem | hlast
        · rcases List.mem_append.mp hmem with hmem | hlast
          · exact hnone e hmem hdecides hwaits
          · rw [List.mem_singleton.mp hlast] at hwaits
            exact absurd hwaits hu.none_waits
        · rw [List.mem_singleton.mp hlast] at hwaits
          exact absurd hwaits hv.none_waits
      · rw [hsecond, hfirst, hjiffy, Nat.mul_succ, Int32.ofNat_add]
        grind

end Alone

/-- The same task, when the tick counter has wrapped: the tick that follows the
call records the wait, and the task is blocked. -/
theorem signals_block_iff_wrapped :
    ∃ tr s, Path (system xmc1100) (boot xmc1100) tr s ∧ (∃ e ∈ tr, Records e) ∧
      SignalsBlock xmc1100 tr := by
  let s₁ := (kTaskRegister xmc1100 0x10001100 (boot xmc1100)).1
  obtain ⟨s₂, hsched, hcur, hone, hflag, hentry, hjiffy⟩ := exists_of_any
    (by decide +kernel : (scheduler s₁).any (fun s => decide (s.currentTid = 1 ∧
      s.registeredTasks = 1 ∧ s.signalFlag = 0 ∧ (s.tasks 1).signalFlag = 0 ∧ s.jiffy = 1)) = true)
  have hfirst : Path (system xmc1100) (boot xmc1100)
      [⟨boot xmc1100, .register 0x10001100, s₁⟩, ⟨s₁, .tick, s₂⟩] s₂ :=
    .cons ⟨rfl, rfl⟩ (.single ⟨trivial, hsched⟩)
  have hs₂ : Alone s₂ := by
    refine ⟨reachable_wellformed (hfirst.reachable (boot_reachable xmc1100)), hone, hflag,
      hentry, ?_⟩
    intro hidle
    omega
  obtain ⟨tr, u, hticks, hnone, hu, htask, hlate⟩ := hs₂.ticks xmc1100 hcur (2 ^ 30)
  have hwait : (system xmc1100).step u (.signalWait 4) (signalWait 4 u) :=
    ⟨⟨by omega, hu.quiet⟩, rfl⟩
  obtain ⟨v, hrecord⟩ := enabled_steps xmc1100 (wellformed_step hu.wellformed hwait)
    (a := .tick) trivial
  have hpath := ((hfirst.append hticks).snoc hwait).snoc hrecord
  refine ⟨_, v, hpath, ⟨_, List.mem_append_right _ (List.mem_singleton_self _), rfl, ?_⟩, ?_⟩
  · change (4 : UInt32).toInt32 ≠ 0
    decide
  · refine (signals_block_iff xmc1100 _ _ _ ⟨_, _, rfl⟩ hpath).mpr ?_
    intro e he hdecides hwaits hpositive
    simp only [List.mem_append, List.mem_cons, List.not_mem_nil, or_false] at he
    rcases he with (((rfl | rfl) | hmem) | rfl) | rfl
    · cases hdecides
    · rcases hwaits with hrec | ⟨t, ⟨hpos, hle⟩, hblocked, _⟩
      · exact absurd rfl hrec.2
      · obtain rfl : t = 1 := Nat.le_antisymm hle hpos
        have hready : s₁.isBlocked 1 = false := by decide
        exact absurd (hready.symm.trans hblocked) (by decide)
    · exact hnone e hmem hdecides hwaits hpositive
    · cases hdecides
    · have hnegative : leftJiffy (signalWait 4 u) .tick = s₂.jiffy + Int32.ofNat (2 * 2 ^ 30) + 1 :=
        congrArg (· + 1) hlate
      rw [hnegative, hjiffy] at hpositive
      exact absurd hpositive (by decide)

end PascalScheduler
