import PascalScheduler.Data.BufferQueue

/-!
How full the circular buffer is. The code computes it from three counters that
wrap; here it is compared with counts that do not.
-/

namespace PascalScheduler

open Transition DropQueue

variable {α : Type*} [Zero α]

/-- What has been done to a buffer: the writes, the reads that succeeded, and
the writes that found it full. -/
structure CbCounts where
  writes : Nat
  reads : Nat
  overflows : Nat

def CbCounts.start : CbCounts := ⟨0, 0, 0⟩

def CbCounts.record (size : UInt16) (n : CbCounts) (cb : CircularBuffer α) : CbOp α → CbCounts
  | .read => if (cbuffRead cb).1.error = 0 then { n with reads := n.reads + 1 } else n
  | .write _ =>
      { n with
        writes := n.writes + 1
        overflows :=
          if n.writes = n.reads + n.overflows + size.toNat then n.overflows + 1
          else n.overflows }

/-- A buffer in use, with its counts. -/
def countedSystem (α : Type*) [Zero α] (size : UInt16) :
    System (CircularBuffer α × CbCounts) (CbOp α) :=
  (bufferSystem size).observed CbCounts.start (fun _ _ _ => True)
    (fun n cb op _ => n.record size cb op)

/-- The counts are those of a history that the buffer represents. -/
structure Counted (size : UInt16) (p : CircularBuffer α × CbCounts) (log : CbLog α) : Prop where
  represents : Represents size p.1 log
  writes : p.2.writes = log.written.length
  reads : p.2.reads = log.delivered.length
  overflows : p.2.overflows = log.queue.dropped

namespace Counted

variable {size : UInt16} {p : CircularBuffer α × CbCounts} {log : CbLog α}

omit [Zero α] in
/-- The counts find the buffer full when the queue is. -/
theorem full_iff (h : Counted size p log) :
    p.2.writes = p.2.reads + p.2.overflows + size.toNat ↔
      log.queue.items.length = size.toNat := by
  have hlength := h.represents.window.pushed_length
  rw [h.writes, h.reads, h.overflows]
  omega

theorem step (h : Counted size p log) (hpos : 0 < size) (op : CbOp α) :
    Counted size (op.apply p.1, p.2.record size p.1 op) (log.record size p.1 op) := by
  refine ⟨h.represents.step hpos op, ?_, ?_, ?_⟩
  · cases op with
    | read =>
        simp only [CbCounts.record, CbLog.record]
        split
        · exact h.writes
        · exact h.writes
    | write el =>
        simp only [CbCounts.record, CbLog.record, List.length_append, List.length_singleton,
          h.writes]
  · cases op with
    | read =>
        simp only [CbCounts.record, CbLog.record]
        split
        · rw [List.length_append, List.length_singleton, ← h.reads]
        · exact h.reads
    | write el => exact h.reads
  · cases op with
    | read =>
        simp only [CbCounts.record, CbLog.record]
        split
        · exact h.overflows
        · exact h.overflows
    | write el =>
        simp only [CbCounts.record, CbLog.record, h.full_iff, Queue.push]
        split
        · simp only [h.overflows]
        · exact h.overflows

end Counted

/-- A read fails when nothing is readable. -/
theorem cbuffRead_fails_iff (cb : CircularBuffer α) :
    (cbuffRead cb).1.error ≠ 0 ↔ cb.readable = 0 := by
  by_cases hempty : cb.readable = 0
  · rw [Represents.read_empty hempty]
    simp [hempty]
  · rw [Represents.read_some hempty]
    simp [hempty]

section Occupancy

variable {size : UInt16}

theorem counted_invariant (hpos : 0 < size) :
    Invariant (countedSystem α size) (fun p => ∃ log, Counted size p log) where
  init p hinit := by
    obtain ⟨cb, n⟩ := p
    obtain ⟨⟨memory, rfl⟩, rfl⟩ := hinit
    exact ⟨CbLog.start, Represents.start memory size, rfl, rfl, rfl⟩
  step p op q hp hstep := by
    obtain ⟨log, hlog⟩ := hp
    obtain ⟨_, happly, hrecord⟩ := hstep
    obtain ⟨cb', n'⟩ := q
    obtain rfl : cb' = op.apply p.1 := happly
    obtain rfl : n' = p.2.record size p.1 op := hrecord
    exact ⟨_, hlog.step hpos op⟩

/-- Over any run, the indices stay below `size`, what the code takes for the
number of readable elements is between 0 and `size` and is the number that the
counts give, and a read fails exactly when it is 0. -/
theorem buffer_occupancy (size : UInt16) (hpos : 0 < size) (p : CircularBuffer α × CbCounts)
    (h : Reachable (countedSystem α size) p) :
    p.1.startValid < size ∧ p.1.endValid < size ∧ p.1.readable.toNat ≤ size.toNat ∧
      (p.1.readable.toNat : Int) = p.2.writes - p.2.reads - p.2.overflows ∧
      ((cbuffRead p.1).1.error ≠ 0 ↔ p.1.readable = 0) := by
  obtain ⟨log, hlog⟩ := (counted_invariant hpos).reachable h
  have hrep := hlog.represents
  have hsize : 0 < size.toNat := UInt16.lt_iff_toNat_lt.mp hpos
  have hlength := hrep.window.pushed_length
  refine ⟨?_, ?_, ?_, ?_, cbuffRead_fails_iff p.1⟩
  · rw [UInt16.lt_iff_toNat_lt, hrep.startValid]
    exact Nat.mod_lt _ hsize
  · rw [UInt16.lt_iff_toNat_lt, hrep.endValid]
    exact Nat.mod_lt _ hsize
  · rw [hrep.readable_toNat]
    exact hrep.window.length_le
  · rw [hrep.readable_toNat, hlog.writes, hlog.reads, hlog.overflows]
    omega

/-- A call, with its counts. -/
def advanceCounts (size : UInt16) (p : CircularBuffer α × CbCounts) (op : CbOp α) :
    CircularBuffer α × CbCounts :=
  (op.apply p.1, p.2.record size p.1 op)

theorem foldl_reachable (size : UInt16) {p : CircularBuffer α × CbCounts}
    (h : Reachable (countedSystem α size) p) (ops : List (CbOp α)) :
    Reachable (countedSystem α size) (ops.foldl (advanceCounts size) p) := by
  induction ops generalizing p with
  | nil => exact h
  | cons op ops ih => exact ih (h.next (a := op) ⟨trivial, rfl, rfl⟩)

/-- A buffer of two after three writes and two reads. -/
theorem buffer_occupancy_overflow :
    ∃ p, Reachable (countedSystem Nat 2) p ∧ p.2.writes = 3 ∧ p.2.overflows = 1 ∧
      p.1.startValid < 2 ∧ (cbuffRead p.1).1.error ≠ 0 := by
  let p := [.write 1, .write 2, .write 3, .read, .read].foldl (advanceCounts (α := Nat) 2)
    (cbuffInit (fun _ => 0) 2, CbCounts.start)
  have hreach : Reachable (countedSystem Nat 2) p :=
    foldl_reachable 2 (reachable_init ⟨⟨_, rfl⟩, rfl⟩) _
  obtain ⟨hstart, _, _, _, hfails⟩ := buffer_occupancy 2 (by decide) p hreach
  exact ⟨p, hreach, by decide, by decide, hstart, hfails.mpr (by decide)⟩

end Occupancy

end PascalScheduler
