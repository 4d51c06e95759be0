import PascalScheduler.Library.DropQueue
import PascalScheduler.Library.Transition

/-!
`circular_buffer.c`. The elements are a union that the buffer only copies, so
their type stays a variable; `Zero` is the element whose integer view is 0. The
three counters wrap at `2 ^ 32` and the two indices at `size`.
-/

namespace PascalScheduler

open Transition DropQueue

variable {α : Type*}

structure CircularBuffer (α : Type*) where
  buffer : Nat → α
  writes : UInt32
  reads : UInt32
  overflows : UInt32
  startValid : UInt16
  endValid : UInt16
  size : UInt16

structure CbRead (α : Type*) where
  value : α
  error : Int32

/-- `cbuff_init`, with what the allocated memory holds. -/
def cbuffInit (memory : Nat → α) (size : UInt16) : CircularBuffer α where
  buffer := memory
  writes := 0
  reads := 0
  overflows := 0
  startValid := 0
  endValid := 0
  size := size

namespace CircularBuffer

/-- `_readable` -/
def readable (cb : CircularBuffer α) : UInt32 :=
  cb.writes - cb.reads - cb.overflows

end CircularBuffer

def cbuffIsFull (cb : CircularBuffer α) : Bool :=
  cb.readable == cb.size.toUInt32

def cbuffIsOverflowed (cb : CircularBuffer α) : Int32 :=
  cb.overflows.toInt32

def cbuffRead [Zero α] (cb : CircularBuffer α) : CbRead α × CircularBuffer α :=
  if cb.readable = 0 then (⟨0, 1⟩, cb)
  else
    let value := cb.buffer cb.startValid.toNat
    let cb := { cb with startValid := cb.startValid + 1, reads := cb.reads + 1 }
    (⟨value, 0⟩, if cb.startValid = cb.size then { cb with startValid := 0 } else cb)

def cbuffWrite (el : α) (cb : CircularBuffer α) : CircularBuffer α :=
  let cb := if cb.readable = cb.size.toUInt32 then { cb with overflows := cb.overflows + 1 } else cb
  let cb := { cb with buffer := Function.update cb.buffer cb.endValid.toNat el }
  let cb := { cb with writes := cb.writes + 1, endValid := cb.endValid + 1 }
  if cb.endValid = cb.size then { cb with endValid := 0 } else cb

/-- A call of the interface. -/
inductive CbOp (α : Type*) where
  | read
  | write (el : α)

def CbOp.apply [Zero α] (cb : CircularBuffer α) : CbOp α → CircularBuffer α
  | .read => (cbuffRead cb).2
  | .write el => cbuffWrite el cb

/-- What was written and read so far, and the queue that the buffer stands
for. -/
structure CbLog (α : Type*) where
  written : List α
  delivered : List α
  queue : Queue α

def CbLog.start : CbLog α := ⟨[], [], Queue.empty⟩

/-- A successful read delivers what `cbuff_read` returns; the queue goes its own
way. -/
def CbLog.record [Zero α] (size : UInt16) (log : CbLog α) (cb : CircularBuffer α) (op : CbOp α) :
    CbLog α :=
  match op with
  | .read =>
      let answer := (cbuffRead cb).1
      { log with
        delivered :=
          if answer.error = 0 then log.delivered ++ [answer.value] else log.delivered
        queue := log.queue.pop.2 }
  | .write el =>
      { log with
        written := log.written ++ [el]
        queue := log.queue.push size.toNat el }

/-- A buffer of `size` elements in use. -/
def bufferSystem [Zero α] (size : UInt16) : System (CircularBuffer α) (CbOp α) where
  init cb := ∃ memory, cb = cbuffInit memory size
  step cb op cb' := cb' = op.apply cb

/-- The representation: the counters count modulo `2 ^ 32`, the indices modulo
`size`, and the memory holds the last `size` elements written. -/
structure Represents (size : UInt16) (cb : CircularBuffer α) (log : CbLog α) : Prop where
  window : log.queue.Window log.written log.delivered.length size.toNat
  sameSize : cb.size = size
  writes : cb.writes = UInt32.ofNat log.written.length
  reads : cb.reads = UInt32.ofNat log.delivered.length
  overflows : cb.overflows = UInt32.ofNat log.queue.dropped
  startValid : cb.startValid.toNat = log.delivered.length % size.toNat
  endValid : cb.endValid.toNat = log.written.length % size.toNat
  buffer : ∀ k (hk : k < log.written.length), log.written.length ≤ k + size.toNat →
    cb.buffer (k % size.toNat) = log.written[k]

namespace Represents

variable {size : UInt16} {cb : CircularBuffer α} {log : CbLog α}

theorem start (memory : Nat → α) (size : UInt16) :
    Represents size (cbuffInit memory size) CbLog.start where
  window := Queue.Window.empty _
  sameSize := rfl
  writes := rfl
  reads := rfl
  overflows := rfl
  startValid := (Nat.zero_mod _).symm
  endValid := (Nat.zero_mod _).symm
  buffer k hk := absurd hk (Nat.not_lt_zero k)

/-- Across all wraps, `_readable` is the length of the queue. -/
theorem readable (h : Represents size cb log) :
    cb.readable = UInt32.ofNat log.queue.items.length := by
  have hlength := h.window.pushed_length
  rw [CircularBuffer.readable, h.writes, h.reads, h.overflows, hlength, UInt32.ofNat_add,
    UInt32.ofNat_add]
  grind

theorem length_lt (h : Represents size cb log) : log.queue.items.length < 2 ^ 16 :=
  Nat.lt_of_le_of_lt h.window.length_le size.toNat_lt

theorem readable_toNat (h : Represents size cb log) :
    cb.readable.toNat = log.queue.items.length := by
  have hlt := h.length_lt
  rw [h.readable]
  exact UInt32.toNat_ofNat_of_lt' (by rw [UInt32.size]; omega)

/-- Empty and full are what they are of the queue. -/
theorem empty_iff (h : Represents size cb log) :
    cb.readable = 0 ↔ log.queue.items = [] := by
  rw [← UInt32.toNat_inj, h.readable_toNat]
  exact List.length_eq_zero_iff

theorem full_iff (h : Represents size cb log) :
    cb.readable = cb.size.toUInt32 ↔ log.queue.items.length = size.toNat := by
  rw [← UInt32.toNat_inj, h.readable_toNat, h.sameSize, UInt16.toNat_toUInt32]

/-- An index and its wrap at `size`. -/
theorem index_succ {i : UInt16} {n : Nat} (hpos : 0 < size)
    (hi : i.toNat = n % size.toNat) :
    (if i + 1 = size then (0 : UInt16) else i + 1).toNat = (n + 1) % size.toNat := by
  have hsize : 0 < size.toNat := UInt16.lt_iff_toNat_lt.mp hpos
  have hbound : size.toNat < 2 ^ 16 := size.toNat_lt
  have hlt := Nat.mod_lt n hsize
  have hsucc : (i + 1).toNat = n % size.toNat + 1 := by
    rw [UInt16.toNat_add, hi]
    exact Nat.mod_eq_of_lt (show n % size.toNat + 1 < 2 ^ 16 by omega)
  rw [← Nat.mod_add_mod]
  by_cases hwrap : i + 1 = size
  · have hend : n % size.toNat + 1 = size.toNat := by
      rw [← hsucc, hwrap]
    rw [if_pos hwrap, hend, Nat.mod_self]
    rfl
  · have hshort : n % size.toNat + 1 ≠ size.toNat := by
      rw [← hsucc]
      exact fun heq => hwrap (UInt16.toNat_inj.mp heq)
    rw [if_neg hwrap, hsucc]
    exact (Nat.mod_eq_of_lt (show n % size.toNat + 1 < size.toNat by omega)).symm

/-- A place holds the last element written to it. -/
theorem buffer_mod (h : Represents size cb log) {i k : Nat} (hk : k < log.written.length)
    (hlast : log.written.length ≤ k + size.toNat) (hplace : k % size.toNat = i % size.toNat) :
    cb.buffer (i % size.toNat) = log.written[k] := by
  rw [← hplace]
  exact h.buffer k hk hlast

theorem read_empty [Zero α] (hempty : cb.readable = 0) : cbuffRead cb = (⟨0, 1⟩, cb) := by
  rw [cbuffRead, if_pos hempty]

theorem read_some [Zero α] (hsome : cb.readable ≠ 0) :
    cbuffRead cb = (⟨cb.buffer cb.startValid.toNat, 0⟩,
      { cb with
        startValid := if cb.startValid + 1 = cb.size then 0 else cb.startValid + 1
        reads := cb.reads + 1 }) := by
  rw [cbuffRead, if_neg hsome]
  by_cases hwrap : cb.startValid + 1 = cb.size
  · simp only [if_pos hwrap]
  · simp only [if_neg hwrap]

theorem write_eq (el : α) (cb : CircularBuffer α) :
    cbuffWrite el cb =
      { cb with
        buffer := Function.update cb.buffer cb.endValid.toNat el
        writes := cb.writes + 1
        overflows := if cb.readable = cb.size.toUInt32 then cb.overflows + 1 else cb.overflows
        endValid := if cb.endValid + 1 = cb.size then 0 else cb.endValid + 1 } := by
  unfold cbuffWrite
  by_cases hfull : cb.readable = cb.size.toUInt32 <;>
    by_cases hwrap : cb.endValid + 1 = cb.size <;>
    simp [hfull, hwrap]

/-- A read of a non-empty buffer. -/
theorem read [Zero α] (h : Represents size cb log) (hpos : 0 < size)
    (hsome : log.queue.items ≠ []) :
    Represents size (cbuffRead cb).2 (log.record size cb .read) := by
  have hread := read_some (mt h.empty_iff.mp hsome)
  simp only [CbLog.record, hread, if_true]
  constructor
  · rw [List.length_append]
    exact h.window.pop hsome
  · exact h.sameSize
  · exact h.writes
  · rw [List.length_append, List.length_singleton, UInt32.ofNat_add, ← h.reads]
    rfl
  · exact h.overflows
  · have hnext := index_succ hpos h.startValid
    rw [← h.sameSize] at hnext
    rw [List.length_append, ← h.sameSize]
    exact hnext
  · exact h.endValid
  · exact h.buffer

/-- A write, to a full buffer or not. -/
theorem write [Zero α] (h : Represents size cb log) (hpos : 0 < size) (el : α) :
    Represents size (cbuffWrite el cb) (log.record size cb (.write el)) := by
  have hsize : 0 < size.toNat := UInt16.lt_iff_toNat_lt.mp hpos
  rw [CbLog.record, write_eq, h.sameSize]
  constructor
  · exact h.window.push hsize el
  · rfl
  · rw [List.length_append, List.length_singleton, UInt32.ofNat_add, ← h.writes]
    rfl
  · exact h.reads
  · have hfull := h.full_iff
    rw [h.sameSize] at hfull
    change (if cb.readable = size.toUInt32 then cb.overflows + 1 else cb.overflows) =
      UInt32.ofNat (log.queue.push size.toNat el).dropped
    rw [Queue.push]
    split_ifs with hreadable hitems hitems
    · rw [UInt32.ofNat_add, ← h.overflows]
      rfl
    · exact absurd (hfull.mp hreadable) hitems
    · exact absurd (hfull.mpr hitems) hreadable
    · exact h.overflows
  · exact h.startValid
  · rw [List.length_append]
    exact index_succ hpos h.endValid
  · intro k hk hlast
    change Function.update cb.buffer cb.endValid.toNat el (k % size.toNat) =
      (log.written ++ [el])[k]
    rw [List.length_append, List.length_singleton] at hk hlast
    by_cases hnew : k = log.written.length
    · subst hnew
      rw [← h.endValid, Function.update_self]
      simp
    · -- the place of the new element is the place of the one `size` before it
      have hne : k % size.toNat ≠ cb.endValid.toNat := by
        rw [h.endValid]
        intro heq
        have hdvd := (Nat.modEq_iff_dvd' (by omega)).mp heq
        have hle := Nat.le_of_dvd (by omega) hdvd
        omega
      rw [Function.update_of_ne hne, List.getElem_append_left (by omega)]
      exact h.buffer k (by omega) (by omega)

/-- Every call keeps the representation. -/
theorem step [Zero α] (h : Represents size cb log) (hpos : 0 < size) (op : CbOp α) :
    Represents size (op.apply cb) (log.record size cb op) := by
  cases op with
  | write el => exact h.write hpos el
  | read =>
      by_cases hempty : log.queue.items = []
      · have hread := read_empty (h.empty_iff.mpr hempty)
        have hone : (1 : Int32) ≠ 0 := by decide
        have hpop : log.queue.pop.2 = log.queue := by
          rw [Queue.pop, hempty, List.tail_nil, ← hempty]
        simp only [CbOp.apply, CbLog.record, hread, if_neg hone, hpop]
        exact h
      · exact h.read hpos hempty

end Represents

end PascalScheduler
