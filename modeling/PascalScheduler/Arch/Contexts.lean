import PascalScheduler.Arch.ContextSwitch

/-!
The registers of the tasks over whole runs. The history value of a run is, for
each task, the context in which an exception last took it from the processor.
-/

namespace PascalScheduler

open Transition Thumb

def cpuSystem (board : Board) (img : Image) : System (Cpu Kernel) Happening where
  init c := (system board).init c.memory
  step := CpuStep board img

/-- The contexts the tasks were suspended in. -/
abbrev Suspended := Nat → Option Context

def recordContext (g : Suspended) (c : Cpu Kernel) (h : Happening) (_ : Cpu Kernel) : Suspended :=
  if h.isException then Function.update g c.memory.currentTid (some (contextOf c)) else g

def contextSystem (board : Board) (img : Image) : System (Cpu Kernel × Suspended) Happening :=
  (cpuSystem board img).observed (fun _ => none) (fun _ _ _ => True) recordContext

/-- The context of the task that runs after `e`, when it was last suspended. -/
def resumed (e : Event (Cpu Kernel × Suspended) Happening) : Option Context :=
  if e.label.isException then e.post.2 e.post.1.memory.currentTid else none

/-- Every task is resumed in the context it was suspended in. -/
def ContextsKept (tr : List (Event (Cpu Kernel × Suspended) Happening)) : Prop :=
  ∀ e ∈ tr, ∀ ctx, resumed e = some ctx → contextOf e.post.1 = ctx

/-- When a task is to be resumed, `r8` to `r11` hold what they held when it was
suspended: the tasks in between left them alone, or put them back. -/
def HighUntouched (tr : List (Event (Cpu Kernel × Suspended) Happening)) : Prop :=
  ∀ e ∈ tr, ∀ ctx, resumed e = some ctx → highRegisters e.pre.1.r = ctx.high

/-- A step in which the running task does not change `r8` to `r11`. -/
def LeavesHigh (e : Event (Cpu Kernel × Suspended) Happening) : Prop :=
  ∀ r psp, e.label = .compute r psp → highRegisters r = highRegisters e.pre.1.r

/-- The table is indexed within its bounds. -/
structure InRange (s : Kernel) : Prop where
  current_le : s.currentTid ≤ s.registeredTasks
  registered_lt : s.registeredTasks < maxTasks

/-- The saved context of a suspended task is in the table, `r8` to `r11` apart. -/
structure Saved (p : Cpu Kernel × Suspended) : Prop where
  range : InRange p.1.memory
  context : ∀ i ctx, p.2 i = some ctx → i ≤ p.1.memory.registeredTasks ∧
    (p.1.memory.tasks i).sp = ctx.psp ∧ (p.1.memory.tasks i).registers = ctx.low

variable {board : Board} {img : Image} {s t : Kernel} {a : Action} {c d : Cpu Kernel}

/-- No action of the kernel touches a saved context. -/
theorem Steps.context (h : Steps board s a t) {i : Nat} (hi : i ≤ s.registeredTasks) :
    (t.tasks i).sp = (s.tasks i).sp ∧ (t.tasks i).registers = (s.tasks i).registers := by
  rcases h.decides_or_quiet with ⟨o, hleave, hdec⟩ | ⟨_, hquiet⟩
  · obtain ⟨hsp, hregisters⟩ := (leave_leaves hleave).context i
    rw [hdec.entry i]
    exact ⟨hsp, hregisters⟩
  · rw [hquiet.tasks i hi]
    exact ⟨rfl, rfl⟩

theorem Steps.inRange (h : Steps board s a t) (hs : InRange s) :
    InRange t ∧ s.registeredTasks ≤ t.registeredTasks := by
  cases h with
  | decide hleave hdec =>
      have hcount := hdec.registeredTasks.trans (leave_leaves hleave).registeredTasks
      have hle := hdec.picks.le
      rw [← hdec.registeredTasks] at hle
      exact ⟨⟨hle, hcount ▸ hs.registered_lt⟩, hcount.ge⟩
  | lock | unlock | wait | raise | full => exact ⟨⟨hs.current_le, hs.registered_lt⟩, le_refl _⟩
  | register taskFunc hroom =>
      obtain ⟨hframe, _, _⟩ := kTaskRegister_room board taskFunc hroom
      rw [hframe]
      exact ⟨⟨Nat.le_succ_of_le hs.current_le, hroom⟩, Nat.le_succ _⟩

/-- The kernel after `task_save_context`. -/
def savedKernel (c : Cpu Kernel) : Kernel :=
  c.memory.setTask c.memory.currentTid
    { c.memory.tasks c.memory.currentTid with sp := c.psp, registers := lowRegisters c.r }

/-- Both handlers save the context before they call C code. -/
theorem handlerEntry_exec (img : Image) (a : Action) (htid : c.memory.currentTid < maxTasks) :
    ∃ d, exec img.bus (handlerEntry img a) c = some d ∧ d.memory = savedKernel c ∧
      highRegisters d.r = highRegisters c.r := by
  obtain ⟨d, hrun, hmemory, _, hr⟩ := taskSaveContext_exec img htid
  have hhigh : highRegisters d.r = highRegisters c.r := by
    rw [highRegisters, hr 8 (by decide), hr 9 (by decide), hr 10 (by decide), hr 11 (by decide),
      highRegisters]
  have hsvc : exec img.bus (taskSaveContext img ++ [.mrsPsp 0]) c = some (d.set 0 d.psp) := by
    rw [exec_append, hrun, Option.bind_some]
    rfl
  cases a with
  | tick => exact ⟨d, hrun, hmemory, hhigh⟩
  | yield | sleep | mutexLock | mutexUnlock | signalWait | signalRaise | register =>
      exact ⟨d.set 0 d.psp, hsvc, hmemory, hhigh⟩

theorem highRegisters_kept (h : Kept c d) : highRegisters d.r = highRegisters c.r := by
  rw [highRegisters, h.callee 8 (by decide) (by decide), h.callee 9 (by decide) (by decide),
    h.callee 10 (by decide) (by decide), h.callee 11 (by decide) (by decide), highRegisters]

/-- What an exception does: the kernel's action on the saved table, then the
context of the entry it chose, with `r8` to `r11` as they are. -/
structure Switches (board : Board) (a : Action) (c d : Cpu Kernel) : Prop where
  perform : perform board (savedKernel c) a = some d.memory
  psp : d.psp = (d.memory.tasks d.memory.currentTid).sp
  low : lowRegisters d.r = (d.memory.tasks d.memory.currentTid).registers
  high : highRegisters d.r = highRegisters c.r
  /-- The return goes to thread mode and the process stack. -/
  lr : d.lr = 0xfffffffd

theorem savedKernel_steps (hc : InRange c.memory)
    (h : perform board (savedKernel c) a = some t) :
    Steps board (savedKernel c) a t ∧ InRange t ∧
      c.memory.registeredTasks ≤ t.registeredTasks := by
  have hsteps : Steps board (savedKernel c) a t := perform_steps hc.current_le h
  exact ⟨hsteps, hsteps.inRange ⟨hc.current_le, hc.registered_lt⟩⟩

theorem exception_switches (hc : InRange c.memory) (hexc : a.isException = true)
    (h : CpuStep board img c (.act a) d) : Switches board a c d := by
  cases h with
  | call _ hthread => rw [hthread] at hexc; cases hexc
  | exception _ _ hsaved hcalls hrestored =>
      obtain ⟨d', hrun, hmemory, hhigh⟩ :=
        handlerEntry_exec img a (Nat.lt_of_le_of_lt hc.current_le hc.registered_lt)
      obtain rfl := Option.some.inj (hrun.symm.trans hsaved)
      have hperform := hcalls.perform
      rw [hmemory] at hperform
      have hnext := (savedKernel_steps hc hperform).2.1
      obtain ⟨f, hrun', hkernel, hpsp, hlow, hhigh', hlr⟩ :=
        taskRestoreContext_exec img (Nat.lt_of_le_of_lt hnext.current_le hnext.registered_lt)
      obtain rfl := Option.some.inj (hrun'.symm.trans hrestored)
      rw [← hkernel] at hperform hpsp hlow
      exact ⟨hperform, hpsp, hlow,
        hhigh'.trans ((highRegisters_kept hcalls.kept).trans hhigh), hlr⟩

/-- Exceptions always go through, whatever the C code leaves in the registers
it may use. -/
theorem exception_total (board : Board) (img : Image) (hc : InRange c.memory)
    (hexc : a.isException = true) : ∃ d, CpuStep board img c (.act a) d := by
  obtain ⟨d, hrun, hmemory, _⟩ :=
    handlerEntry_exec img a (Nat.lt_of_le_of_lt hc.current_le hc.registered_lt)
  obtain ⟨t, hperform⟩ := perform_total board (s := savedKernel c) a hc.current_le
  have hnext := (savedKernel_steps hc hperform).2.1
  rw [← hmemory] at hperform
  obtain ⟨f, hrun', _⟩ := taskRestoreContext_exec (c := { d with memory := t }) img
    (Nat.lt_of_le_of_lt hnext.current_le hnext.registered_lt)
  have hcalls : CallsC board a d { d with memory := t } := ⟨hperform, ⟨rfl, fun _ _ _ => rfl⟩⟩
  exact ⟨f, .exception a hexc hrun hcalls hrun'⟩

variable {g : Suspended} {h : Happening}

theorem recordContext_exception (hexc : a.isException = true) :
    recordContext g c (.act a) d =
      Function.update g c.memory.currentTid (some (contextOf c)) := by
  rw [recordContext, Happening.isException, if_pos hexc]

/-- After `task_save_context` the table holds every suspended context, the one
just saved included. -/
theorem savedKernel_context (hp : Saved (c, g)) {i : Nat} {ctx : Context}
    (hi : Function.update g c.memory.currentTid (some (contextOf c)) i = some ctx) :
    i ≤ c.memory.registeredTasks ∧ ((savedKernel c).tasks i).sp = ctx.psp ∧
      ((savedKernel c).tasks i).registers = ctx.low := by
  rw [savedKernel, Kernel.setTask_tasks]
  rw [Function.update_apply] at hi
  split_ifs at hi ⊢ with hcur
  · obtain rfl := Option.some.inj hi
    exact ⟨hcur ▸ hp.range.current_le, rfl, rfl⟩
  · exact hp.context i ctx hi

/-- Every step keeps the suspended contexts in the table. -/
theorem saved_step (hp : Saved (c, g)) (hstep : CpuStep board img c h d) :
    Saved (d, recordContext g c h d) := by
  cases hstep with
  | compute r psp => exact ⟨hp.range, hp.context⟩
  | call a hthread hcalls =>
      have hsteps : Steps board c.memory a d.memory :=
        perform_steps hp.range.current_le hcalls.perform
      obtain ⟨hrange, hcount⟩ := hsteps.inRange hp.range
      rw [recordContext, Happening.isException, hthread]
      refine ⟨hrange, ?_⟩
      intro i ctx hi
      obtain ⟨hle, hsp, hregisters⟩ := hp.context i ctx hi
      obtain ⟨hsp', hregisters'⟩ := hsteps.context hle
      exact ⟨Nat.le_trans hle hcount, hsp'.trans hsp, hregisters'.trans hregisters⟩
  | exception a hexc hsaved hcalls hrestored =>
      have hswitch := exception_switches hp.range hexc
        (.exception a hexc hsaved hcalls hrestored)
      obtain ⟨hsteps, hrange, hcount⟩ := savedKernel_steps hp.range hswitch.perform
      rw [recordContext_exception hexc]
      refine ⟨hrange, ?_⟩
      intro i ctx hi
      obtain ⟨hle, hsp, hregisters⟩ := savedKernel_context hp hi
      obtain ⟨hsp', hregisters'⟩ := hsteps.context (i := i) hle
      exact ⟨Nat.le_trans hle hcount, hsp'.trans hsp, hregisters'.trans hregisters⟩

theorem saved_invariant (board : Board) (img : Image) :
    Invariant (contextSystem board img) Saved where
  init p hinit := by
    obtain ⟨hkernel, hnone⟩ := hinit
    have hwf := (wellformed_invariant board).init p.1.memory hkernel
    refine ⟨⟨hwf.current_le, hwf.registered_lt⟩, ?_⟩
    intro i ctx hi
    rw [hnone] at hi
    cases hi
  step p h q hp hstep := by
    obtain ⟨_, hone, hrecord⟩ := hstep
    have hnext := saved_step hp hone
    rw [← hrecord] at hnext
    exact hnext

/-- A resumed task finds its stack pointer and `r4` to `r7` as they were, and
`r8` to `r11` as the exception found them. -/
theorem resumed_context {p q : Cpu Kernel × Suspended} {ctx : Context} (hp : Saved p)
    (hstep : (contextSystem board img).step p h q) (hctx : resumed ⟨p, h, q⟩ = some ctx) :
    contextOf q.1 = ⟨ctx.psp, ctx.low, highRegisters p.1.r⟩ := by
  have hq := (saved_invariant board img).step p h q hp hstep
  obtain ⟨_, hone, _⟩ := hstep
  rw [resumed] at hctx
  split_ifs at hctx with hexc
  obtain ⟨_, hsp, hlow⟩ := hq.context _ ctx hctx
  cases h with
  | compute => cases hexc
  | act a =>
      have hswitch := exception_switches hp.range hexc hone
      rw [contextOf, hswitch.psp, hswitch.low, hswitch.high, hsp, hlow]

/-- Only the running task changes `r8` to `r11`. -/
theorem high_step {p q : Cpu Kernel × Suspended} (hp : Saved p)
    (hstep : (contextSystem board img).step p h q) (hleaves : LeavesHigh ⟨p, h, q⟩) :
    highRegisters q.1.r = highRegisters p.1.r := by
  obtain ⟨_, hone, _⟩ := hstep
  cases h with
  | compute r psp =>
      generalize q.1 = d at hone
      cases hone
      exact hleaves r psp rfl
  | act a =>
      by_cases hexc : a.isException = true
      · exact (exception_switches hp.range hexc hone).high
      · generalize q.1 = d at hone
        cases hone with
        | call _ _ hcalls => exact highRegisters_kept hcalls.kept
        | exception _ hyes => exact absurd hyes hexc

theorem recordContext_cases {i : Nat} {ctx : Context}
    (hi : recordContext g c h d i = some ctx) : g i = some ctx ∨ ctx = contextOf c := by
  rw [recordContext] at hi
  split_ifs at hi
  · rw [Function.update_apply] at hi
    split_ifs at hi
    · exact .inr (Option.some.inj hi).symm
    · exact .inl hi
  · exact .inl hi

/-- Along a run that leaves `r8` to `r11` alone they are the same everywhere,
in the processor and in the suspended contexts. -/
theorem high_constant {p q : Cpu Kernel × Suspended}
    {tr : List (Event (Cpu Kernel × Suspended) Happening)} (hp : Saved p)
    (hsuspended : ∀ i ctx, p.2 i = some ctx → ctx.high = highRegisters p.1.r)
    (hpath : Path (contextSystem board img) p tr q) (hcond : ∀ e ∈ tr, LeavesHigh e) :
    HighUntouched tr := by
  induction hpath with
  | nil => exact fun e he => absurd he List.not_mem_nil
  | @cons p v q h tr hstep _ ih =>
      obtain ⟨hleaves, hrest⟩ := List.forall_mem_cons.mp hcond
      have hsame := high_step hp hstep hleaves
      have hnext : ∀ i ctx, v.2 i = some ctx → ctx.high = highRegisters p.1.r := by
        intro i ctx hi
        rw [hstep.2.2] at hi
        rcases recordContext_cases hi with hold | rfl
        · exact hsuspended i ctx hold
        · rfl
      refine List.forall_mem_cons.mpr ⟨?_, ?_⟩
      · intro ctx hctx
        rw [resumed] at hctx
        split_ifs at hctx
        exact (hnext _ ctx hctx).symm
      · exact ih ((saved_invariant board img).step _ _ _ hp hstep)
          (fun i ctx hi => (hnext i ctx hi).trans hsame.symm) hrest

/-- In every run the tasks are resumed in the contexts they were suspended in if
and only if `r8` to `r11` are untouched whenever a task is resumed; and so they
are in every run whose steps leave these registers alone. -/
theorem contexts_kept_iff (board : Board) (img : Image) (p q : Cpu Kernel × Suspended)
    (tr : List (Event (Cpu Kernel × Suspended) Happening))
    (hinit : (contextSystem board img).init p) (hpath : Path (contextSystem board img) p tr q) :
    (ContextsKept tr ↔ HighUntouched tr) ∧
      ((∀ e ∈ tr, LeavesHigh e) → ContextsKept tr) := by
  have hp := (saved_invariant board img).init p hinit
  have hresume : ∀ e ∈ tr, ∀ ctx, resumed e = some ctx →
      contextOf e.post.1 = ⟨ctx.psp, ctx.low, highRegisters e.pre.1.r⟩ := by
    intro e he ctx hctx
    obtain ⟨hreach, hone, _⟩ := hpath.event_reachable (reachable_init hinit) he
    exact resumed_context ((saved_invariant board img).reachable hreach) hone hctx
  have hiff : ContextsKept tr ↔ HighUntouched tr := by
    constructor
    · intro hkept e he ctx hctx
      have hsame := hkept e he ctx hctx
      rw [hresume e he ctx hctx] at hsame
      exact congrArg Context.high hsame
    · intro hhigh e he ctx hctx
      rw [hresume e he ctx hctx, hhigh e he ctx hctx]
  refine ⟨hiff, fun hcond => hiff.mpr (high_constant hp ?_ hpath hcond)⟩
  intro i ctx hi
  rw [hinit.2] at hi
  cases hi

/-- A processor whose C code touches no register: a step that can be run. -/
def cpuNext (board : Board) (img : Image) (c : Cpu Kernel) : Happening → Option (Cpu Kernel)
  | .compute r psp => some { c with r := r, psp := psp }
  | .act a =>
      if a.isException then
        (exec img.bus (handlerEntry img a) c).bind fun d =>
          (perform board d.memory a).bind fun s =>
            exec img.bus (taskRestoreContext img) { d with memory := s }
      else (perform board c.memory a).map fun s => { c with memory := s }

theorem cpuNext_step (board : Board) (img : Image) (c : Cpu Kernel) (h : Happening)
    (d : Cpu Kernel) (hnext : cpuNext board img c h = some d) :
    (cpuSystem board img).step c h d := by
  cases h with
  | compute r psp =>
      obtain rfl := Option.some.inj hnext
      exact .compute c r psp
  | act a =>
      rw [cpuNext] at hnext
      split_ifs at hnext with hexc
      · obtain ⟨e, hsaved, hrest⟩ := Option.bind_eq_some_iff.mp hnext
        obtain ⟨s, hperform, hrestored⟩ := Option.bind_eq_some_iff.mp hrest
        exact .exception (e := { e with memory := s }) a hexc hsaved
          ⟨hperform, ⟨rfl, fun _ _ _ => rfl⟩⟩ hrestored
      · obtain ⟨s, hperform, rfl⟩ := Option.map_eq_some_iff.mp hnext
        exact .call a (Bool.eq_false_iff.mpr hexc) ⟨hperform, ⟨rfl, fun _ _ _ => rfl⟩⟩

/-- An image with the two variables at the start of `.bss`. -/
def smallTable : Image where
  tasks := 0x20000100
  currentTid := 0x20000200
  apart := by decide +kernel

def bootCpu : Cpu Kernel where
  r _ := 0
  psp := 0x20002400
  lr := 0
  memory := boot xmc1100

/-- The run of a list of happenings from `bootCpu`. -/
def runCpu (hs : List Happening) : Option (Cpu Kernel × Suspended) :=
  run (observe (cpuNext xmc1100 smallTable) (fun _ _ _ => True) recordContext)
    (bootCpu, fun _ => none) hs

theorem runCpu_path {hs : List Happening} {q : Cpu Kernel × Suspended}
    (hrun : runCpu hs = some q) :
    ∃ tr, Path (contextSystem xmc1100 smallTable) (bootCpu, fun _ => none) tr q ∧
      tr.map Event.label = hs :=
  run_path (observe_step (cpuNext_step xmc1100 smallTable) _) hrun

/-- Two tasks. The first one puts 1 into `r8`, the second one 2, and the tick
that resumes the first one finds and leaves 2 there. -/
theorem contexts_lost_high_register :
    ∃ p tr, Path (contextSystem xmc1100 smallTable) (bootCpu, fun _ => none) tr p ∧
      tr.map Event.label = [.act (.register 0x10001100), .act (.register 0x10001200),
        .act .tick, .compute (fun i => if i = 8 then 1 else 0) 0x20001800, .act .tick,
        .compute (fun i => if i = 8 then 2 else 0) 0x20001000, .act .tick] ∧
      ¬ ContextsKept tr := by
  obtain ⟨p, hrun, hcur, hctx, hnext⟩ := exists_of_any
    (by decide +kernel : (runCpu [.act (.register 0x10001100), .act (.register 0x10001200),
      .act .tick, .compute (fun i => if i = 8 then 1 else 0) 0x20001800, .act .tick,
      .compute (fun i => if i = 8 then 2 else 0) 0x20001000]).any (fun p =>
        decide (p.1.memory.currentTid = 2 ∧
          (p.2 1).any (fun ctx => decide (ctx.high 0 = 1)) = true ∧
          (cpuNext xmc1100 smallTable p.1 (.act .tick)).any (fun d =>
            decide (d.memory.currentTid = 1 ∧ d.r 8 = 2)) = true)) = true)
  obtain ⟨d, hstep, hresumed, hr⟩ := exists_of_any hnext
  obtain ⟨ctx, hsuspended, hhigh⟩ := exists_of_any hctx
  obtain ⟨tr, hpath, hlabels⟩ := runCpu_path hrun
  let q : Cpu Kernel × Suspended := (d, recordContext p.2 p.1 (.act .tick) d)
  have hone : (contextSystem xmc1100 smallTable).step p (.act .tick) q :=
    ⟨trivial, cpuNext_step _ _ _ _ _ hstep, rfl⟩
  refine ⟨q, tr ++ [⟨p, .act .tick, q⟩], hpath.snoc hone, ?_, ?_⟩
  · rw [List.map_append, hlabels]
    rfl
  · intro hkept
    have hlast : resumed ⟨p, .act .tick, q⟩ = some ctx := by
      change recordContext p.2 p.1 (.act .tick) d d.memory.currentTid = some ctx
      rw [recordContext_exception rfl, hresumed, Function.update_apply,
        if_neg (by rw [hcur]; decide), hsuspended]
    have hsame := hkept _ (by simp) ctx hlast
    have hword : d.r 8 = ctx.high 0 := congrArg (fun x => x.high 0) hsame
    rw [hr, hhigh] at hword
    exact absurd hword (by decide)

/-- The same tasks, when neither of them changes `r8` to `r11`. -/
theorem contexts_kept_iff_low_registers :
    ∃ p tr, Path (contextSystem xmc1100 smallTable) (bootCpu, fun _ => none) tr p ∧
      tr.map Event.label = [.act (.register 0x10001100), .act (.register 0x10001200),
        .act .tick, .act .tick, .act .tick] ∧
      p.1.memory.currentTid = 1 ∧ (p.2 1).isSome = true ∧ ContextsKept tr := by
  obtain ⟨p, hrun, hcur, hsome⟩ := exists_of_any
    (by decide +kernel : (runCpu [.act (.register 0x10001100), .act (.register 0x10001200),
      .act .tick, .act .tick, .act .tick]).any (fun p =>
        decide (p.1.memory.currentTid = 1 ∧ (p.2 1).isSome = true)) = true)
  obtain ⟨tr, hpath, hlabels⟩ := runCpu_path hrun
  refine ⟨p, tr, hpath, hlabels, hcur, hsome, ?_⟩
  refine (contexts_kept_iff xmc1100 smallTable _ p tr ⟨⟨_, _, rfl⟩, rfl⟩ hpath).2 ?_
  intro e he r psp hcompute
  have hmem := List.mem_map_of_mem (f := Event.label) he
  rw [hlabels, hcompute] at hmem
  simp at hmem

end PascalScheduler
