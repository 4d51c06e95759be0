import PascalScheduler.Kernel.Invariant
import PascalScheduler.Library.Thumb

/-!
The context switch: `task_save_context` and `task_restore_context` executed
instruction by instruction on the table `tasks`, between them one C handler.
The stack pointer and `r4` to `r7` travel through the table. `r8` to `r11` do
not: they reach the next task as they are.
-/

namespace PascalScheduler

open Transition Thumb

/-- Where the linker put the two variables that the assembly code names. -/
structure Image where
  tasks : UInt32
  currentTid : UInt32
  apart : ∀ offset, offset < 32 * maxTasks → currentTid ≠ tasks + UInt32.ofNat offset

/-- The eight words of a `struct task_struct`. -/
def TaskStruct.word (entry : TaskStruct) : Nat → UInt32
  | 0 => entry.sp
  | 1 => entry.registers 0
  | 2 => entry.registers 1
  | 3 => entry.registers 2
  | 4 => entry.registers 3
  | 5 => entry.state
  | 6 => entry.sleepUntil.toUInt32
  | _ => entry.signalFlag

def TaskStruct.setWord (entry : TaskStruct) (w : UInt32) : Nat → TaskStruct
  | 0 => { entry with sp := w }
  | 1 => { entry with registers := Function.update entry.registers 0 w }
  | 2 => { entry with registers := Function.update entry.registers 1 w }
  | 3 => { entry with registers := Function.update entry.registers 2 w }
  | 4 => { entry with registers := Function.update entry.registers 3 w }
  | 5 => { entry with state := w }
  | 6 => { entry with sleepUntil := w.toInt32 }
  | _ => { entry with signalFlag := w }

/-- The words of the table and of `current_tid`, as the processor sees them. -/
def Image.bus (img : Image) : Bus Kernel where
  load s a :=
    if a = img.currentTid then some (UInt32.ofNat s.currentTid)
    else
      let offset := (a - img.tasks).toNat
      if offset < 32 * maxTasks ∧ offset % 4 = 0 then
        some ((s.tasks (offset / 32)).word (offset % 32 / 4))
      else none
  store s a w :=
    if a = img.currentTid then some { s with currentTid := w.toNat }
    else
      let offset := (a - img.tasks).toNat
      if offset < 32 * maxTasks ∧ offset % 4 = 0 then
        some (s.setTask (offset / 32) ((s.tasks (offset / 32)).setWord w (offset % 32 / 4)))
      else none

/-- The common start of both routines: `r0` points to `tasks[current_tid]`. -/
def entryAddress (img : Image) : List Instr :=
  [.ldrLiteral 0 img.tasks, .ldrLiteral 2 img.currentTid, .ldr 1 2, .movImmediate 2 32,
    .mul 1 1 2, .add 0 0 1]

def taskSaveContext (img : Image) : List Instr :=
  entryAddress img ++ [.mrsPsp 1, .stmia 0 [1], .stmia 0 [4, 5, 6, 7], .isb]

def taskRestoreContext (img : Image) : List Instr :=
  entryAddress img ++
    [.ldmia 0 [1], .msrPsp 1, .ldmia 0 [4, 5, 6, 7], .isb, .ldrLiteral 0 0xfffffffd, .movLr 0]

/-- Which actions are exceptions: the timer tick and the four `SVC` services. -/
def Action.isException : Action → Bool
  | .tick | .yield | .sleep _ | .mutexLock | .mutexUnlock => true
  | .signalWait _ | .signalRaise _ | .register _ => false

/-- `SysTick_Handler` and `SVC_Handler` up to their call of C code. -/
def handlerEntry (img : Image) : Action → List Instr
  | .tick => taskSaveContext img
  | _ => taskSaveContext img ++ [.mrsPsp 0]

/-- A C function that does what `a` does to the kernel. It may leave anything in
the registers that the call standard does not protect. -/
structure CallsC (board : Board) (a : Action) (c d : Cpu Kernel) : Prop where
  perform : perform board c.memory a = some d.memory
  kept : Kept c d

inductive Happening where
  /-- The running task computes: its registers and stack pointer change. -/
  | compute (r : Reg → UInt32) (psp : UInt32)
  | act (a : Action)

def Happening.isException : Happening → Bool
  | .compute _ _ => false
  | .act a => a.isException

inductive CpuStep (board : Board) (img : Image) :
    Cpu Kernel → Happening → Cpu Kernel → Prop where
  | compute (c : Cpu Kernel) (r : Reg → UInt32) (psp : UInt32) :
      CpuStep board img c (.compute r psp) { c with r := r, psp := psp }
  | call {c d : Cpu Kernel} (a : Action) (thread : a.isException = false)
      (calls : CallsC board a c d) : CpuStep board img c (.act a) d
  | exception {c d e f : Cpu Kernel} (a : Action) (handler : a.isException = true)
      (saved : exec img.bus (handlerEntry img a) c = some d) (calls : CallsC board a d e)
      (restored : exec img.bus (taskRestoreContext img) e = some f) :
      CpuStep board img c (.act a) f

/-- The state of a task that the hardware does not stack: the stack pointer,
`r4` to `r7` and `r8` to `r11`. -/
@[ext] structure Context where
  psp : UInt32
  low : Fin tsbRegisters → UInt32
  high : Fin 4 → UInt32

def lowRegisters (r : Reg → UInt32) : Fin tsbRegisters → UInt32 :=
  ![r 4, r 5, r 6, r 7]

def highRegisters (r : Reg → UInt32) : Fin 4 → UInt32 :=
  ![r 8, r 9, r 10, r 11]

def contextOf (c : Cpu Kernel) : Context where
  psp := c.psp
  low := lowRegisters c.r
  high := highRegisters c.r

section Bus

variable {img : Image} {s : Kernel} {tid k : Nat}

/-- The address of word `k` of the entry `tid`. -/
def Image.wordAddress (img : Image) (tid k : Nat) : UInt32 :=
  img.tasks + UInt32.ofNat (32 * tid + 4 * k)

theorem wordAddress_succ (img : Image) (tid k : Nat) :
    img.wordAddress tid k + 4 = img.wordAddress tid (k + 1) := by
  rw [Image.wordAddress, Image.wordAddress, Nat.mul_add 4, ← Nat.add_assoc,
    UInt32.ofNat_add (32 * tid + 4 * k), UInt32.add_assoc]
  rfl

theorem wordAddress_offset (img : Image) (htid : tid < maxTasks) (hk : k < 8) :
    img.wordAddress tid k ≠ img.currentTid ∧
      (img.wordAddress tid k - img.tasks).toNat = 32 * tid + 4 * k := by
  rw [maxTasks] at htid
  refine ⟨(img.apart _ (by rw [maxTasks]; omega)).symm, ?_⟩
  have hcancel : img.wordAddress tid k - img.tasks = UInt32.ofNat (32 * tid + 4 * k) := by
    rw [Image.wordAddress]
    grind
  rw [hcancel, UInt32.toNat_ofNat_of_lt' (by rw [UInt32.size]; omega)]

theorem load_word (htid : tid < maxTasks) (hk : k < 8) :
    img.bus.load s (img.wordAddress tid k) = some ((s.tasks tid).word k) := by
  obtain ⟨hne, hoffset⟩ := wordAddress_offset img htid hk
  have hlt : 32 * tid + 4 * k < 32 * maxTasks ∧ (32 * tid + 4 * k) % 4 = 0 := by
    rw [maxTasks] at htid ⊢
    omega
  simp only [Image.bus, if_neg hne, hoffset, if_pos hlt]
  rw [show (32 * tid + 4 * k) / 32 = tid by omega, show (32 * tid + 4 * k) % 32 / 4 = k by omega]

theorem store_word (htid : tid < maxTasks) (hk : k < 8) (w : UInt32) :
    img.bus.store s (img.wordAddress tid k) w =
      some (s.setTask tid ((s.tasks tid).setWord w k)) := by
  obtain ⟨hne, hoffset⟩ := wordAddress_offset img htid hk
  have hlt : 32 * tid + 4 * k < 32 * maxTasks ∧ (32 * tid + 4 * k) % 4 = 0 := by
    rw [maxTasks] at htid ⊢
    omega
  simp only [Image.bus, if_neg hne, hoffset, if_pos hlt]
  rw [show (32 * tid + 4 * k) / 32 = tid by omega, show (32 * tid + 4 * k) % 32 / 4 = k by omega]

/-- Consecutive words of an entry, from word `k` on. -/
def TaskStruct.setWords (entry : TaskStruct) : Nat → List UInt32 → TaskStruct
  | _, [] => entry
  | k, w :: ws => (entry.setWord w k).setWords (k + 1) ws

theorem storeWords_entry (htid : tid < maxTasks) (ws : List UInt32) (s : Kernel) (k : Nat)
    (hk : k + ws.length ≤ 8) :
    storeWords img.bus (img.wordAddress tid k) ws s =
      some (s.setTask tid ((s.tasks tid).setWords k ws)) := by
  induction ws generalizing s k with
  | nil =>
      rw [storeWords, TaskStruct.setWords, Kernel.setTask, Function.update_eq_self]
  | cons w ws ih =>
      rw [List.length_cons] at hk
      rw [storeWords, store_word htid (by omega), Option.bind_some, wordAddress_succ,
        ih _ _ (by omega), Kernel.setTask_tasks_self, TaskStruct.setWords]
      simp only [Kernel.setTask, Function.update_idem]

theorem loadWords_entry (htid : tid < maxTasks) (n k : Nat) (hk : k + n ≤ 8) :
    loadWords img.bus s (img.wordAddress tid k) n =
      some ((List.range' k n).map (s.tasks tid).word) := by
  induction n generalizing k with
  | zero => rfl
  | succ n ih =>
      rw [loadWords, load_word htid (by omega), Option.bind_some, wordAddress_succ,
        ih (k + 1) (by omega)]
      rfl

theorem advance_wordAddress (n k : Nat) :
    advance (img.wordAddress tid k) n = img.wordAddress tid (k + n) := by
  induction n generalizing k with
  | zero => rfl
  | succ n ih => rw [advance, wordAddress_succ, ih, Nat.add_right_comm, Nat.add_assoc]

end Bus

section Routines

variable {img : Image} {c : Cpu Kernel}

/-- `r0` points to the entry of the current task, and only `r0` to `r2` are
used for it. -/
theorem entryAddress_exec (img : Image) (c : Cpu Kernel) :
    ∃ d, exec img.bus (entryAddress img) c = some d ∧
      d.r 0 = img.wordAddress c.memory.currentTid 0 ∧ d.psp = c.psp ∧ d.memory = c.memory ∧
      ∀ i : Reg, 3 ≤ i → d.r i = c.r i := by
  have hload : img.bus.load c.memory img.currentTid =
      some (UInt32.ofNat c.memory.currentTid) := by
    simp only [Image.bus, if_true]
  simp only [entryAddress, exec, Instr.exec, Option.bind_some, Cpu.set, hload,
    Function.update_self, Option.map_some]
  refine ⟨_, rfl, ?_, rfl, rfl, ?_⟩
  · simp only [Function.update_apply]
    change img.tasks + UInt32.ofNat c.memory.currentTid * 32 = _
    rw [Image.wordAddress, Nat.mul_zero, Nat.add_zero, Nat.mul_comm, UInt32.ofNat_mul]
    rfl
  · intro i hi
    have hne : i ≠ 0 ∧ i ≠ 1 ∧ i ≠ 2 := by
      refine ⟨?_, ?_, ?_⟩ <;> rintro rfl <;> exact absurd hi (by decide)
    simp only [Function.update_apply, if_neg hne.1, if_neg hne.2.1, if_neg hne.2.2]

theorem TaskStruct.setWords_context (entry : TaskStruct) (psp w₀ w₁ w₂ w₃ : UInt32) :
    (entry.setWords 0 [psp]).setWords 1 [w₀, w₁, w₂, w₃] =
      { entry with sp := psp, registers := ![w₀, w₁, w₂, w₃] } := by
  simp only [setWords, setWord, TaskStruct.mk.injEq, and_true, true_and]
  funext i
  fin_cases i <;> rfl

/-- `task_save_context` stores the stack pointer and `r4` to `r7`. -/
theorem taskSaveContext_exec (img : Image) (htid : c.memory.currentTid < maxTasks) :
    ∃ d, exec img.bus (taskSaveContext img) c = some d ∧
      d.memory = c.memory.setTask c.memory.currentTid
        { c.memory.tasks c.memory.currentTid with
          sp := c.psp, registers := lowRegisters c.r } ∧
      d.psp = c.psp ∧ ∀ i : Reg, 3 ≤ i → d.r i = c.r i := by
  obtain ⟨d, hentry, hr₀, hpsp, hmemory, hr⟩ := entryAddress_exec img c
  generalize c.memory.currentTid = tid at *
  let d₁ := d.set 1 d.psp
  let m₁ := c.memory.setTask tid ((c.memory.tasks tid).setWords 0 [d.psp])
  have hsp : storeWords img.bus (d₁.r 0) [d₁.r 1] d₁.memory = some m₁ := by
    change storeWords img.bus (d.r 0) [d.psp] d.memory = _
    rw [hr₀, hmemory]
    exact storeWords_entry htid [d.psp] c.memory 0 (show 0 + 1 ≤ 8 by decide)
  let d₂ : Cpu Kernel := { d₁.set 0 (advance (d₁.r 0) 1) with memory := m₁ }
  let m₂ := m₁.setTask tid ((m₁.tasks tid).setWords 1 [d.r 4, d.r 5, d.r 6, d.r 7])
  have hlow : storeWords img.bus (d₂.r 0) [d₂.r 4, d₂.r 5, d₂.r 6, d₂.r 7] d₂.memory =
      some m₂ := by
    change storeWords img.bus (advance (d.r 0) 1) [d.r 4, d.r 5, d.r 6, d.r 7] m₁ = _
    rw [hr₀, advance_wordAddress]
    exact storeWords_entry htid _ m₁ 1 (show 1 + 4 ≤ 8 by decide)
  let d₃ : Cpu Kernel := { d₂.set 0 (advance (d₂.r 0) 4) with memory := m₂ }
  have h₁ : (Instr.mrsPsp 1).exec img.bus d = some d₁ := rfl
  have h₂ : (Instr.stmia 0 [1]).exec img.bus d₁ = some d₂ := exec_stmia 0 [1] hsp
  have h₃ : (Instr.stmia 0 [4, 5, 6, 7]).exec img.bus d₂ = some d₃ :=
    exec_stmia 0 [4, 5, 6, 7] hlow
  have hrun : exec img.bus (taskSaveContext img) c = some d₃ := by
    rw [taskSaveContext, exec_append, hentry, Option.bind_some, exec_cons h₁, exec_cons h₂,
      exec_cons h₃]
    rfl
  refine ⟨d₃, hrun, ?_, hpsp, ?_⟩
  · change m₁.setTask tid ((m₁.tasks tid).setWords 1 [d.r 4, d.r 5, d.r 6, d.r 7]) = _
    rw [Kernel.setTask_tasks_self, TaskStruct.setWords_context, hpsp, hr 4 (by decide),
      hr 5 (by decide), hr 6 (by decide), hr 7 (by decide)]
    simp only [m₁, Kernel.setTask, Function.update_idem]
    rfl
  · intro i hi
    have hne : i ≠ 0 ∧ i ≠ 1 := by
      refine ⟨?_, ?_⟩ <;> rintro rfl <;> exact absurd hi (by decide)
    change ((d₂.set 0 _).r i) = _
    rw [Cpu.set_r, if_neg hne.1]
    change ((d₁.set 0 _).r i) = _
    rw [Cpu.set_r, if_neg hne.1]
    change ((d.set 1 _).r i) = _
    rw [Cpu.set_r, if_neg hne.2]
    exact hr i hi

/-- `task_restore_context` loads the stack pointer and `r4` to `r7`, and returns
to thread mode on the process stack. -/
theorem taskRestoreContext_exec (img : Image) (htid : c.memory.currentTid < maxTasks) :
    ∃ d, exec img.bus (taskRestoreContext img) c = some d ∧ d.memory = c.memory ∧
      d.psp = (c.memory.tasks c.memory.currentTid).sp ∧
      lowRegisters d.r = (c.memory.tasks c.memory.currentTid).registers ∧
      highRegisters d.r = highRegisters c.r ∧ d.lr = 0xfffffffd := by
  obtain ⟨d, hentry, hr₀, _, hmemory, hr⟩ := entryAddress_exec img c
  generalize c.memory.currentTid = tid at *
  let entry := c.memory.tasks tid
  have hsp : loadWords img.bus d.memory (d.r 0) 1 = some [entry.sp] := by
    rw [hr₀, hmemory]
    exact loadWords_entry htid 1 0 (by decide)
  let d₁ := (d.set 0 (advance (d.r 0) 1)).set 1 entry.sp
  let d₂ : Cpu Kernel := { d₁ with psp := entry.sp }
  have hlow : loadWords img.bus d₂.memory (d₂.r 0) 4 =
      some [entry.registers 0, entry.registers 1, entry.registers 2, entry.registers 3] := by
    change loadWords img.bus d.memory (advance (d.r 0) 1) 4 = _
    rw [hr₀, hmemory, advance_wordAddress]
    exact loadWords_entry htid 4 1 (by decide)
  let d₃ := ((((d₂.set 0 (advance (d₂.r 0) 4)).set 4 (entry.registers 0)).set 5
    (entry.registers 1)).set 6 (entry.registers 2)).set 7 (entry.registers 3)
  let d₄ : Cpu Kernel := { d₃.set 0 0xfffffffd with lr := 0xfffffffd }
  have h₁ : (Instr.ldmia 0 [1]).exec img.bus d = some d₁ := exec_ldmia 0 [1] hsp
  have h₂ : (Instr.msrPsp 1).exec img.bus d₁ = some d₂ := rfl
  have h₃ : (Instr.ldmia 0 [4, 5, 6, 7]).exec img.bus d₂ = some d₃ :=
    exec_ldmia 0 [4, 5, 6, 7] hlow
  have hrun : exec img.bus (taskRestoreContext img) c = some d₄ := by
    rw [taskRestoreContext, exec_append, hentry, Option.bind_some, exec_cons h₁, exec_cons h₂,
      exec_cons h₃]
    rfl
  refine ⟨d₄, hrun, hmemory, rfl, ?_, ?_, rfl⟩
  · funext i
    fin_cases i <;> rfl
  · change ![d.r 8, d.r 9, d.r 10, d.r 11] = ![c.r 8, c.r 9, c.r 10, c.r 11]
    rw [hr 8 (by decide), hr 9 (by decide), hr 10 (by decide), hr 11 (by decide)]

end Routines

end PascalScheduler
