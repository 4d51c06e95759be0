import PascalScheduler.Kernel.Invariant
import Mathlib.Order.CompletePartialOrder

/-!
The memory map of the linker script, the heap that `sys_sbrk` hands out, and
the stacks that `k_task_register` gives to the tasks. The three agree on where
the region of the thread stacks begins only for the first task.
-/

namespace PascalScheduler

open Transition

def heapSize : Nat := 4096
def threadStackSize : Nat := 4096
def mainStackSize : Nat := 512

/-- `ALIGN(4)` of the linker script. -/
def align4 (dot : Nat) : Nat := (dot + 3) / 4 * 4

/-- The part of the memory map behind `.bss`, which ends at `bssEnd`. The
script links only if everything fits the 16 KiB of `ram`. -/
structure Layout where
  bssEnd : Nat
  ram_le : 0x20000000 ≤ bssEnd
  fits : align4 (align4 (align4 (align4 bssEnd + heapSize) + threadStackSize) +
    mainStackSize) ≤ 0x20000000 + 16 * 1024

namespace Layout

/-- `__heap` -/
def heapStart (L : Layout) : Nat := L.bssEnd

/-- `__heap_end`, and the start of `.stack` -/
def heapEnd (L : Layout) : Nat := align4 L.bssEnd + heapSize

def threadStackTop (L : Layout) : Nat := align4 (align4 L.heapEnd + threadStackSize)

/-- The board of a linked image. -/
def board (L : Layout) (vendor : Vendor) : Board where
  toVendor := vendor
  threadStackTop := UInt32.ofNat L.threadStackTop

/-- The region of the thread stacks. -/
def threadStacks (L : Layout) : Set UInt32 :=
  {a | L.threadStackTop - threadStackSize ≤ a.toNat ∧ a.toNat < L.threadStackTop}

end Layout

/-- The variables of `sys_sbrk` and the error it reports. -/
structure Heap where
  heapTop : UInt32
  heapEnd : UInt32
  errno : Nat

def enomem : Nat := 11

/-- `(void *)-1` -/
def sbrkFailed : UInt32 := 0xFFFFFFFF

/-- The limit test of `sys_sbrk`. -/
def SbrkFails (nbytes : Int32) (h : Heap) : Prop :=
  h.heapTop + nbytes.toUInt32 > h.heapEnd

instance (nbytes : Int32) (h : Heap) : Decidable (SbrkFails nbytes h) :=
  inferInstanceAs (Decidable (_ > _))

def sysSbrk (nbytes : Int32) (h : Heap) : Heap × UInt32 :=
  if h.heapTop + nbytes.toUInt32 > h.heapEnd then ({ h with errno := enomem }, sbrkFailed)
  else ({ h with heapTop := h.heapTop + nbytes.toUInt32 }, h.heapTop)

def Layout.heap (L : Layout) : Heap where
  heapTop := UInt32.ofNat L.heapStart
  heapEnd := UInt32.ofNat L.heapEnd
  errno := 0

/-- The heap along successful calls of `sys_sbrk`. -/
def sbrkSystem (L : Layout) : System Heap Int32 where
  init h := h = L.heap
  step h nbytes h' := (sysSbrk nbytes h).2 ≠ sbrkFailed ∧ h' = (sysSbrk nbytes h).1

/-- The bytes of the block that a successful call returns. -/
def heapBlock (base : UInt32) (nbytes : Int32) : Set UInt32 :=
  {a | base ≤ a ∧ (a.toNat : Int) < base.toNat + nbytes.toInt}

/-- Some sequence of successful calls ends with `nbytes` bytes at `base`. -/
def Allocates (L : Layout) (base : UInt32) (nbytes : Int32) : Prop :=
  ∃ h h', Reachable (sbrkSystem L) h ∧ (sbrkSystem L).step h nbytes h' ∧
    (sysSbrk nbytes h).2 = base

/-- The bytes of the frame that `k_task_register` pushes for the task `tid`. -/
def initialFrame (board : Board) (tid : Nat) : Set UInt32 :=
  {a | taskStack board tid - 36 ≤ a ∧ a < taskStack board tid}

/-- The frame of a task lies in the region of the thread stacks, and no block
of the heap overlaps it. -/
def StackSafe (L : Layout) (board : Board) (tid : Nat) : Prop :=
  initialFrame board tid ⊆ L.threadStacks ∧
    ∀ base nbytes, Allocates L base nbytes →
      Disjoint (initialFrame board tid) (heapBlock base nbytes)

section Push

theorem push_shift (sp : UInt32) (k : Nat) :
    sp - 4 - UInt32.ofNat (4 * k) = sp - UInt32.ofNat (4 * (k + 1)) := by
  rw [Nat.mul_add, UInt32.ofNat_add]
  grind

/-- Pushing a list changes nothing outside the words it covers. -/
theorem foldl_push_frame (words : List UInt32) (sp : UInt32) (memory : UInt32 → UInt32)
    {a : UInt32} (hnot : ∀ k, k < words.length → a ≠ sp - UInt32.ofNat (4 * (k + 1))) :
    (words.foldl push (sp, memory)).2 a = memory a := by
  induction words generalizing sp memory with
  | nil => rfl
  | cons word words ih =>
      have hrest : (words.foldl push (sp - 4, Function.update memory (sp - 4) word)).2 a =
          Function.update memory (sp - 4) word a := by
        apply ih
        intro k hk
        rw [push_shift]
        exact hnot (k + 1) (Nat.succ_lt_succ hk)
      refine hrest.trans (Function.update_of_ne ?_ _ _)
      exact hnot 0 (Nat.succ_pos _)

/-- The words of a pushed list lie below each other. -/
theorem foldl_push_word (words : List UInt32) (sp : UInt32) (memory : UInt32 → UInt32)
    (hlength : 4 * words.length < 2 ^ 32) (k : Nat) (hk : k < words.length) :
    (words.foldl push (sp, memory)).2 (sp - UInt32.ofNat (4 * (k + 1))) = words[k] := by
  induction words generalizing sp memory k with
  | nil => cases hk
  | cons word words ih =>
      rw [List.length_cons] at hlength hk
      cases k with
      | zero =>
          -- the later pushes stay below
          refine (foldl_push_frame words _ _ ?_).trans (Function.update_self _ _ _)
          intro j hj heq
          have hzero : UInt32.ofNat (4 * (j + 1)) = 0 := by
            rw [push_shift, Nat.mul_add 4 (j + 1), UInt32.ofNat_add] at heq
            grind
          have hnat := congrArg UInt32.toNat hzero
          rw [UInt32.toNat_ofNat_of_lt' (by rw [UInt32.size]; omega)] at hnat
          change 4 * (j + 1) = 0 at hnat
          omega
      | succ k =>
          rw [← push_shift]
          exact ih (sp - 4) _ (by omega) k (by omega)

end Push

variable {s : Kernel} {L : Layout} {tid : Nat}

/-- The words pushed for a task are words of its initial frame. -/
theorem mem_initialFrame {board : Board} (hroom : 36 ≤ (taskStack board tid).toNat) {k : Nat}
    (hk : k < 9) : taskStack board tid - UInt32.ofNat (4 * (k + 1)) ∈ initialFrame board tid := by
  have hoffset : (UInt32.ofNat (4 * (k + 1))).toNat = 4 * (k + 1) :=
    UInt32.toNat_ofNat_of_lt' (by rw [UInt32.size]; omega)
  have hword : (taskStack board tid - UInt32.ofNat (4 * (k + 1))).toNat =
      (taskStack board tid).toNat - 4 * (k + 1) := by
    rw [UInt32.toNat_sub_of_le _ _ (by rw [UInt32.le_iff_toNat_le]; omega), hoffset]
  have hlow : (taskStack board tid - 36).toNat = (taskStack board tid).toNat - 36 :=
    UInt32.toNat_sub_of_le _ _ hroom
  rw [initialFrame, Set.mem_ofPred_eq, UInt32.le_iff_toNat_le, UInt32.lt_iff_toNat_lt]
  omega

/-- What registering a task writes: the stack frame, in the initial frame of the
task, whose lower end is the saved stack pointer. -/
theorem kTaskRegister_frame (board : Board) (taskFunc : UInt32)
    (hroom : s.registeredTasks + 1 < maxTasks)
    (hstack : 36 ≤ (taskStack board (s.registeredTasks + 1)).toNat) :
    let t := (kTaskRegister board taskFunc s).1
    let sp := taskStack board (s.registeredTasks + 1)
    (t.tasks (s.registeredTasks + 1)).sp = sp - 36 ∧
      (∀ k (hk : k < 9), t.memory (sp - UInt32.ofNat (4 * (k + 1))) =
        (stackFrame taskFunc)[k]) ∧
      ∀ a, a ∉ initialFrame board (s.registeredTasks + 1) → t.memory a = s.memory a := by
  intro t sp
  have hmemory : t.memory = ((stackFrame taskFunc).foldl push (sp, s.memory)).2 := by
    simp only [t, kTaskRegister, if_neg (Nat.not_le.mpr hroom)]
    rfl
  obtain ⟨_, _, hnew⟩ := kTaskRegister_room board taskFunc hroom
  refine ⟨congrArg TaskStruct.sp hnew, ?_, ?_⟩
  · intro k hk
    rw [hmemory]
    exact foldl_push_word (stackFrame taskFunc) sp s.memory (show 4 * 9 < 2 ^ 32 by decide) k hk
  · intro a hnot
    rw [hmemory]
    apply foldl_push_frame
    intro k hk heq
    exact hnot (heq ▸ mem_initialFrame hstack hk)

section Layout

theorem align4_mod (dot : Nat) : align4 dot % 4 = 0 := by
  unfold align4
  omega

theorem align4_of_mod {dot : Nat} (h : dot % 4 = 0) : align4 dot = dot := by
  unfold align4
  omega

/-- The stack region starts where the heap ends. -/
theorem Layout.threadStackTop_eq (L : Layout) :
    L.threadStackTop = L.heapEnd + 4096 := by
  have hmod : L.heapEnd % 4 = 0 := by
    have := align4_mod L.bssEnd
    rw [Layout.heapEnd, heapSize]
    omega
  have htop : (L.heapEnd + 4096) % 4 = 0 := by omega
  rw [Layout.threadStackTop, align4_of_mod hmod]
  exact align4_of_mod htop

theorem Layout.bounds (L : Layout) :
    L.bssEnd ≤ L.heapEnd ∧ 0x20000000 ≤ L.heapEnd ∧ L.heapEnd + 4096 < 2 ^ 30 := by
  have hram := L.ram_le
  have hfits := L.fits
  simp only [align4, heapSize, threadStackSize, mainStackSize, Layout.heapEnd] at hfits ⊢
  omega

/-- The stacks are 2048 bytes apart: `512 * tid` counts pointers. -/
theorem taskStack_toNat (L : Layout) (vendor : Vendor) (htid : tid < maxTasks) :
    (taskStack (L.board vendor) tid).toNat = L.heapEnd + 4096 - 2048 * tid := by
  have hbounds := L.bounds
  have htop : (UInt32.ofNat L.threadStackTop).toNat = L.heapEnd + 4096 := by
    rw [L.threadStackTop_eq]
    exact UInt32.toNat_ofNat_of_lt' (by rw [UInt32.size]; omega)
  rw [maxTasks] at htid
  have hoffset : (UInt32.ofNat (4 * (512 * tid))).toNat = 4 * (512 * tid) :=
    UInt32.toNat_ofNat_of_lt' (by rw [UInt32.size]; omega)
  change (UInt32.ofNat L.threadStackTop - UInt32.ofNat (4 * (512 * tid))).toNat = _
  rw [UInt32.toNat_sub_of_le _ _ (by rw [UInt32.le_iff_toNat_le]; omega), htop, hoffset]
  omega

/-- The bytes of an initial frame, as numbers. -/
theorem mem_initialFrame_iff (L : Layout) (vendor : Vendor) (htid : tid < maxTasks) (a : UInt32) :
    a ∈ initialFrame (L.board vendor) tid ↔
      L.heapEnd + 4096 ≤ a.toNat + 2048 * tid + 36 ∧
        a.toNat + 2048 * tid < L.heapEnd + 4096 := by
  have hstack := taskStack_toNat L vendor htid
  have hbounds := L.bounds
  rw [maxTasks] at htid
  have hlow : (taskStack (L.board vendor) tid - 36).toNat =
      (taskStack (L.board vendor) tid).toNat - 36 :=
    UInt32.toNat_sub_of_le _ _ (by rw [UInt32.le_iff_toNat_le, hstack]; change 36 ≤ _; omega)
  rw [initialFrame, Set.mem_ofPred_eq, UInt32.le_iff_toNat_le, UInt32.lt_iff_toNat_lt]
  omega

end Layout

section Heap

/-- The heap never grows beyond `__heap_end`. -/
theorem heap_invariant (L : Layout) : Invariant (sbrkSystem L)
    (fun h => h.heapTop.toNat ≤ L.heapEnd ∧ h.heapEnd.toNat = L.heapEnd) where
  init h hinit := by
    obtain rfl : h = L.heap := hinit
    have hbounds := L.bounds
    have hsize : UInt32.size = 2 ^ 32 := rfl
    refine ⟨?_, UInt32.toNat_ofNat_of_lt' (by omega)⟩
    change (UInt32.ofNat L.bssEnd).toNat ≤ _
    rw [UInt32.toNat_ofNat_of_lt' (by omega)]
    exact hbounds.1
  step h nbytes h' hinv hstep := by
    obtain ⟨hok, rfl⟩ := hstep
    unfold sysSbrk at hok ⊢
    split_ifs at hok ⊢ with hover
    · exact absurd rfl hok
    · refine ⟨?_, hinv.2⟩
      rw [← hinv.2]
      exact UInt32.le_iff_toNat_le.mp (UInt32.not_lt.mp hover)

/-- Every block of the heap ends below `__heap_end`. -/
theorem allocates_below {base : UInt32} {nbytes : Int32} (h : Allocates L base nbytes)
    {a : UInt32} (ha : a ∈ heapBlock base nbytes) : a.toNat < L.heapEnd := by
  obtain ⟨heap, heap', hreach, ⟨hok, _⟩, hbase⟩ := h
  obtain ⟨htop, hend⟩ := (heap_invariant L).reachable hreach
  obtain ⟨hlow, hhigh⟩ := ha
  rw [UInt32.le_iff_toNat_le] at hlow
  have hbounds := L.bounds
  have hpos : 0 < nbytes.toInt := by omega
  have hmax := nbytes.toInt_lt
  have hcount : (nbytes.toUInt32.toNat : Int) = nbytes.toInt := by
    have hnonneg : (0 : Int32) ≤ nbytes := by
      rw [Int32.le_iff_toInt_le]
      exact hpos.le
    rw [Int32.toNat_toUInt32_of_le hnonneg]
    exact Int.toNat_of_nonneg hpos.le
  unfold sysSbrk at hok hbase
  split_ifs at hok hbase with hover
  · exact absurd rfl hok
  · obtain rfl : heap.heapTop = base := hbase
    have hle := UInt32.le_iff_toNat_le.mp (UInt32.not_lt.mp hover)
    rw [UInt32.toNat_add, hend, Nat.mod_eq_of_lt (by omega)] at hle
    omega

end Heap

section Stacks

theorem mem_threadStacks (L : Layout) (a : UInt32) :
    a ∈ L.threadStacks ↔ L.heapEnd ≤ a.toNat ∧ a.toNat < L.heapEnd + 4096 := by
  rw [Layout.threadStacks, Set.mem_ofPred_eq, L.threadStackTop_eq, threadStackSize,
    Nat.add_sub_cancel]

/-- The stack of the first task is where it should be. -/
theorem first_stackSafe (L : Layout) (vendor : Vendor) : StackSafe L (L.board vendor) 1 := by
  have hframe := mem_initialFrame_iff L vendor (show 1 < maxTasks by decide)
  constructor
  · intro a ha
    rw [hframe] at ha
    rw [mem_threadStacks]
    omega
  · intro base nbytes halloc
    rw [Set.disjoint_left]
    intro a ha hblock
    rw [hframe] at ha
    have hbelow := allocates_below halloc hblock
    omega

/-- The frame of every other task lies below the region of the stacks. -/
theorem second_stack_outside (L : Layout) (vendor : Vendor) (htwo : 2 ≤ tid)
    (htid : tid < maxTasks) {a : UInt32} (ha : a ∈ initialFrame (L.board vendor) tid) :
    a ∉ L.threadStacks := by
  rw [mem_initialFrame_iff L vendor htid] at ha
  rw [mem_threadStacks]
  omega

theorem not_stackSafe (L : Layout) (vendor : Vendor) (htwo : 2 ≤ tid) (htid : tid < maxTasks) :
    ¬ StackSafe L (L.board vendor) tid := by
  intro hsafe
  have hstack := taskStack_toNat L vendor htid
  have hbounds := L.bounds
  have hlarge : 36 ≤ (taskStack (L.board vendor) tid).toNat := by
    rw [maxTasks] at htid
    omega
  have hword := mem_initialFrame hlarge (show 0 < 9 by decide)
  exact second_stack_outside L vendor htwo htid hword (hsafe.1 hword)

/-- With `n` tasks registered, all their initial stack frames lie in the region
of the thread stacks and clear of the heap if and only if `n` is 1. -/
theorem task_stacks_safe_iff (L : Layout) (vendor : Vendor) (s : Kernel)
    (hs : Reachable (system (L.board vendor)) s) (hsome : 1 ≤ s.registeredTasks) :
    (∀ tid, s.registered tid → StackSafe L (L.board vendor) tid) ↔ s.registeredTasks = 1 := by
  have hlt := (reachable_wellformed hs).registered_lt
  constructor
  · intro hsafe
    by_contra hmore
    exact not_stackSafe L vendor (le_refl 2) (by omega) (hsafe 2 ⟨by omega, by omega⟩)
  · rintro hone tid ⟨hpos, hle⟩
    obtain rfl : tid = 1 := by omega
    exact first_stackSafe L vendor

/-- An image with 1 KiB of data. -/
def smallImage : Layout where
  bssEnd := 0x20000400
  ram_le := by decide
  fits := by decide

/-- With two tasks registered, as in `main.c`, the word at `0x200013FC` belongs
to the frame of the second one and to the block that `sys_sbrk(4096)` returns. -/
theorem task_stacks_collide :
    ∃ s, execute (smallImage.board xmc1100.toVendor) (boot (smallImage.board xmc1100.toVendor))
        [.register 0x10001100, .register 0x10001200] = some s ∧ s.registered 2 ∧
      Allocates smallImage 0x20000400 4096 ∧
      0x200013FC ∈ initialFrame (smallImage.board xmc1100.toVendor) 2 ∧
      0x200013FC ∈ heapBlock 0x20000400 4096 ∧ 0x200013FC ∉ smallImage.threadStacks ∧
      ¬ ∀ tid, s.registered tid → StackSafe smallImage (smallImage.board xmc1100.toVendor) tid := by
  have hrun : ∃ s, execute (smallImage.board xmc1100.toVendor)
      (boot (smallImage.board xmc1100.toVendor))
      [.register 0x10001100, .register 0x10001200] = some s ∧ s.registeredTasks = 2 :=
    ⟨_, rfl, rfl⟩
  obtain ⟨s, hrun, hcount⟩ := hrun
  have htwo : s.registered 2 := ⟨by decide, hcount.ge⟩
  have halloc : Allocates smallImage 0x20000400 4096 :=
    ⟨smallImage.heap, _, reachable_init rfl, ⟨by decide, rfl⟩, by decide⟩
  have hframe : 0x200013FC ∈ initialFrame (smallImage.board xmc1100.toVendor) 2 := by
    constructor <;> decide
  refine ⟨s, hrun, htwo, halloc, hframe, ⟨by decide, by decide⟩, ?_, ?_⟩
  · exact second_stack_outside smallImage xmc1100.toVendor (le_refl 2) (by decide) hframe
  · intro hsafe
    exact not_stackSafe smallImage xmc1100.toVendor (le_refl 2) (by decide) (hsafe 2 htwo)

/-- With one task registered all is well. -/
theorem task_stacks_safe_iff_one_task :
    ∃ s, execute (smallImage.board xmc1100.toVendor) (boot (smallImage.board xmc1100.toVendor))
        [.register 0x10001100] = some s ∧
      ∀ tid, s.registered tid → StackSafe smallImage (smallImage.board xmc1100.toVendor) tid := by
  have hrun : ∃ s, execute (smallImage.board xmc1100.toVendor)
      (boot (smallImage.board xmc1100.toVendor))
      [.register 0x10001100] = some s ∧ s.registeredTasks = 1 := ⟨_, rfl, rfl⟩
  obtain ⟨s, hrun, hcount⟩ := hrun
  refine ⟨s, hrun, ?_⟩
  exact (task_stacks_safe_iff smallImage xmc1100.toVendor s (execute_reachable hrun)
    hcount.ge).mpr hcount

end Stacks

end PascalScheduler
