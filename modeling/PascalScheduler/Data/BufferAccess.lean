import PascalScheduler.Arch.MemoryLayout
import PascalScheduler.Data.CircularBuffer

/-!
Where the circular buffer accesses memory. `cbuff_init` takes its elements from
`sys_sbrk` and does not look at the answer, so the accesses are in the block only
when there is one, and when it is not empty.
-/

namespace PascalScheduler

variable {α : Type*} [Zero α]

/-- `struct circular_buffer` with the pointer to its elements. -/
structure PlacedBuffer (α : Type*) where
  base : UInt32
  cb : CircularBuffer α

/-- `size * sizeof(union cb_element)` -/
def bufferBytes (size : UInt16) : Int32 :=
  (size.toUInt32 * 4).toInt32

/-- `&buffer[i]` -/
def elementAddress (base : UInt32) (i : Nat) : UInt32 :=
  base + UInt32.ofNat (4 * i)

/-- `cbuff_init`, on a memory of elements. -/
def cbuffInitSbrk (memory : UInt32 → α) (size : UInt16) (h : Heap) : Heap × PlacedBuffer α :=
  let (h, buffer) := sysSbrk (bufferBytes size) h
  (h, { base := buffer, cb := cbuffInit (fun i => memory (elementAddress buffer i)) size })

/-- The index at which a call accesses `cb->buffer`. -/
def CbOp.access (cb : CircularBuffer α) : CbOp α → Option UInt16
  | .read => if cb.readable = 0 then none else some cb.startValid
  | .write _ => some cb.endValid

/-- The indices that a sequence of calls accesses. -/
def accessesOf (cb : CircularBuffer α) : List (CbOp α) → List UInt16
  | [] => []
  | op :: ops => (op.access cb).toList ++ accessesOf (op.apply cb) ops

/-- The bytes of an element, and of a block. -/
def elementBytes (base : UInt32) (i : UInt16) : Set UInt32 :=
  {a | ∃ k, k < 4 ∧ a = elementAddress base i.toNat + UInt32.ofNat k}

def blockBytes (base : UInt32) (length : Nat) : Set UInt32 :=
  {a | ∃ k, k < length ∧ a = base + UInt32.ofNat k}

/-- An access that `sys_sbrk` has allowed: there is a block, and the element
lies in it. -/
def AccessAllowed (size : UInt16) (h : Heap) (i : UInt16) : Prop :=
  ¬ SbrkFails (bufferBytes size) h ∧
    elementBytes (sysSbrk (bufferBytes size) h).2 i ⊆
      blockBytes (sysSbrk (bufferBytes size) h).2 (4 * size.toNat)

section Access

variable {cb : CircularBuffer α} {size : UInt16} {h : Heap}

/-- What a read returns depends on no other element than the one it accesses. -/
theorem CbOp.access_read (memory : Nat → α) (hsame : ∀ i, CbOp.read.access cb = some i →
    memory i.toNat = cb.buffer i.toNat) :
    (cbuffRead { cb with buffer := memory }).1 = (cbuffRead cb).1 := by
  by_cases hempty : cb.readable = 0
  · have hempty' : ({ cb with buffer := memory } : CircularBuffer α).readable = 0 := hempty
    rw [Represents.read_empty hempty, Represents.read_empty hempty']
  · have hsome' : ({ cb with buffer := memory } : CircularBuffer α).readable ≠ 0 := hempty
    rw [Represents.read_some hempty, Represents.read_some hsome']
    have hvalue := hsame cb.startValid (if_neg hempty)
    exact congrArg (fun value => (⟨value, 0⟩ : CbRead α)) hvalue

/-- No call changes another one. -/
theorem CbOp.access_apply (op : CbOp α) {k : Nat}
    (hother : ∀ i, op.access cb = some i → k ≠ i.toNat) :
    (op.apply cb).buffer k = cb.buffer k := by
  cases op with
  | read =>
      by_cases hempty : cb.readable = 0
      · rw [CbOp.apply, Represents.read_empty hempty]
      · rw [CbOp.apply, Represents.read_some hempty]
  | write el =>
      rw [CbOp.apply, Represents.write_eq]
      exact Function.update_of_ne (hother cb.endValid rfl) el cb.buffer

/-- Reads of an empty buffer access nothing. -/
theorem accessesOf_reads {ops : List (CbOp α)} (hreads : ∀ el, .write el ∉ ops)
    (hempty : cb.readable = 0) : accessesOf cb ops = [] := by
  induction ops with
  | nil => rfl
  | cons op ops ih =>
      cases op with
      | write el => exact absurd List.mem_cons_self (hreads el)
      | read =>
          have hkept : CbOp.read.apply cb = cb := by
            rw [CbOp.apply, Represents.read_empty hempty]
          rw [accessesOf, hkept, ih fun el hmem => hreads el (List.mem_cons_of_mem _ hmem),
            CbOp.access, if_pos hempty]
          rfl

/-- A write always accesses. -/
theorem exists_access (cb : CircularBuffer α) {ops : List (CbOp α)} {el : α}
    (hwrite : .write el ∈ ops) :
    ∃ i, i ∈ accessesOf cb ops := by
  induction ops generalizing cb with
  | nil => cases hwrite
  | cons op ops ih =>
      rcases List.mem_cons.mp hwrite with rfl | hmem
      · exact ⟨cb.endValid, List.mem_append_left _ (by simp [CbOp.access])⟩
      · obtain ⟨i, hi⟩ := ih (op.apply cb) hmem
        exact ⟨i, List.mem_append_right _ hi⟩

/-- A buffer with room for an element stays within its size. -/
theorem accessesOf_lt {log : CbLog α} (hrep : Represents size cb log) (hpos : 0 < size)
    (ops : List (CbOp α)) : ∀ i ∈ accessesOf cb ops, i < size := by
  induction ops generalizing cb log with
  | nil => exact nofun
  | cons op ops ih =>
      intro i hi
      rcases List.mem_append.mp hi with hnow | hlater
      · have hsize : 0 < size.toNat := UInt16.lt_iff_toNat_lt.mp hpos
        have hstart : cb.startValid < size := by
          rw [UInt16.lt_iff_toNat_lt, hrep.startValid]
          exact Nat.mod_lt _ hsize
        have hend : cb.endValid < size := by
          rw [UInt16.lt_iff_toNat_lt, hrep.endValid]
          exact Nat.mod_lt _ hsize
        cases op with
        | write el =>
            obtain rfl : i = cb.endValid := by simpa [CbOp.access] using hnow
            exact hend
        | read =>
            simp only [CbOp.access] at hnow
            split at hnow
            · cases hnow
            · obtain rfl : i = cb.startValid := by simpa using hnow
              exact hstart
      · exact ih (hrep.step hpos op) i hlater

/-- An index below the size is an element of the block, and no other one is. -/
theorem elementBytes_subset {base : UInt32} {i : UInt16} (hlt : i < size) :
    elementBytes base i ⊆ blockBytes base (4 * size.toNat) := by
  rintro a ⟨k, hk, rfl⟩
  have hi : i.toNat < size.toNat := UInt16.lt_iff_toNat_lt.mp hlt
  refine ⟨4 * i.toNat + k, by omega, ?_⟩
  rw [elementAddress, UInt32.ofNat_add, UInt32.add_assoc]

theorem not_subset_empty (base : UInt32) (i : UInt16) :
    ¬ elementBytes base i ⊆ blockBytes base (4 * (0 : UInt16).toNat) := by
  intro hsub
  obtain ⟨k, hk, _⟩ := hsub ⟨0, by decide, rfl⟩
  exact absurd hk (Nat.not_lt_zero k)

/-- All accesses of a sequence of calls are in the block that `sys_sbrk` returned
for the buffer if and only if it returned one that is not empty, or nothing is
ever written. -/
theorem buffer_accesses_iff (memory : UInt32 → α) (size : UInt16) (h : Heap)
    (ops : List (CbOp α)) :
    (∀ i ∈ accessesOf (cbuffInitSbrk memory size h).2.cb ops, AccessAllowed size h i) ↔
      (¬ SbrkFails (bufferBytes size) h ∧ 0 < size) ∨ ∀ el, .write el ∉ ops := by
  constructor
  · intro hall
    by_contra hbad
    rw [not_or] at hbad
    obtain ⟨hplace, hwrites⟩ := hbad
    obtain ⟨el, hwrite⟩ := not_forall_not.mp hwrites
    obtain ⟨i, hi⟩ := exists_access (cbuffInitSbrk memory size h).2.cb hwrite
    obtain ⟨hok, hin⟩ := hall i hi
    apply hplace
    refine ⟨hok, ?_⟩
    by_contra hzero
    obtain rfl : size = 0 := by
      rw [UInt16.lt_iff_toNat_lt] at hzero
      exact UInt16.toNat_inj.mp (Nat.eq_zero_of_not_pos hzero)
    exact not_subset_empty _ i hin
  · rintro (⟨hok, hpos⟩ | hreads) i hi
    · have hlt := accessesOf_lt (Represents.start _ size) hpos ops i hi
      exact ⟨hok, elementBytes_subset hlt⟩
    · have hempty : (cbuffInitSbrk memory size h).2.cb.readable = 0 :=
        (by decide : (0 : UInt32) - 0 - 0 = 0)
      rw [accessesOf_reads hreads hempty] at hi
      cases hi

/-- On a heap of 4 KiB, a buffer of 1025 elements gets no block, and the first
write goes to `0xFFFFFFFF`. -/
theorem buffer_access_after_enomem :
    (cbuffInitSbrk (fun _ => (0 : Nat)) 1025 smallImage.heap).1.errno = enomem ∧
      (cbuffInitSbrk (fun _ => (0 : Nat)) 1025 smallImage.heap).2.base = sbrkFailed ∧
      ¬ ∀ (memory : UInt32 → Nat) (size : UInt16) (h : Heap) (ops : List (CbOp Nat)),
        ∀ i ∈ accessesOf (cbuffInitSbrk memory size h).2.cb ops, AccessAllowed size h i := by
  refine ⟨by decide, by decide, ?_⟩
  intro hall
  have hallowed := hall (fun _ => 0) 1025 smallImage.heap [.write 7] 0 List.mem_cons_self
  exact hallowed.1 (by decide)

end Access

end PascalScheduler
