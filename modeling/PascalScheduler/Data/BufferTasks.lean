import PascalScheduler.Data.BufferQueue
import PascalScheduler.Library.Refinement

/-!
The circular buffer between two tasks. One task writes, another one reads, and
a tick can switch between them after any statement of `cbuff_write` and
`cbuff_read`. As long as the test of `cbuff_write` finds room, the statements in
any order are a run of the undivided calls: a write happens where `writes` is
counted, a read where `reads` is counted or where its test finds nothing.
-/

namespace PascalScheduler

open Transition DropQueue

/-- The next statement of `cbuff_write`; `idle` is outside of it. -/
inductive WritePc (α : Type*) where
  | idle
  | test (el : α)
  | overflows (el : α)
  | buffer (el : α)
  | writes (el : α)
  | endValid
  | wrap

/-- The next statement of `cbuff_read`; the value is what was copied. -/
inductive ReadPc (α : Type*) where
  | idle
  | test
  | buffer
  | startValid (value : α)
  | reads (value : α)
  | wrap (value : α)
  | ret (answer : CbRead α)

/-- The buffer, and where the two tasks are. -/
structure BufferTasks (α : Type*) where
  cb : CircularBuffer α
  writer : WritePc α
  reader : ReadPc α

inductive TaskOp (α : Type*) where
  | write (el : α)   -- the writing task calls `cbuff_write`
  | writer           -- the next statement of its call
  | read
  | reader

variable {α : Type*}

/-- The next statement of the writing task. -/
def writerNext (s : BufferTasks α) : Option (BufferTasks α) :=
  match s.writer with
  | .idle => none
  | .test el =>
      some { s with
        writer := if s.cb.readable = s.cb.size.toUInt32 then .overflows el else .buffer el }
  | .overflows el =>
      some { s with cb := { s.cb with overflows := s.cb.overflows + 1 }, writer := .buffer el }
  | .buffer el =>
      some { s with
        cb := { s.cb with buffer := Function.update s.cb.buffer s.cb.endValid.toNat el }
        writer := .writes el }
  | .writes _ =>
      some { s with cb := { s.cb with writes := s.cb.writes + 1 }, writer := .endValid }
  | .endValid =>
      some { s with cb := { s.cb with endValid := s.cb.endValid + 1 }, writer := .wrap }
  | .wrap =>
      some { s with
        cb := if s.cb.endValid = s.cb.size then { s.cb with endValid := 0 } else s.cb
        writer := .idle }

/-- The next statement of the reading task. -/
def readerNext [Zero α] (s : BufferTasks α) : Option (BufferTasks α) :=
  match s.reader with
  | .idle => none
  | .test => some { s with reader := if s.cb.readable = 0 then .ret ⟨0, 1⟩ else .buffer }
  | .buffer => some { s with reader := .startValid (s.cb.buffer s.cb.startValid.toNat) }
  | .startValid value =>
      some { s with cb := { s.cb with startValid := s.cb.startValid + 1 }, reader := .reads value }
  | .reads value =>
      some { s with cb := { s.cb with reads := s.cb.reads + 1 }, reader := .wrap value }
  | .wrap value =>
      some { s with
        cb := if s.cb.startValid = s.cb.size then { s.cb with startValid := 0 } else s.cb
        reader := .ret ⟨value, 0⟩ }
  | .ret _ => some { s with reader := .idle }

def taskNext [Zero α] (s : BufferTasks α) : TaskOp α → Option (BufferTasks α)
  | .write el => match s.writer with | .idle => some { s with writer := .test el } | _ => none
  | .writer => writerNext s
  | .read => match s.reader with | .idle => some { s with reader := .test } | _ => none
  | .reader => readerNext s

/-- The elements of the write calls, those of them that are counted, and what
the successful reads returned. -/
structure TaskLog (α : Type*) where
  requested : List α
  counted : List α
  returned : List α

def TaskLog.start : TaskLog α := ⟨[], [], []⟩

def TaskLog.record (log : TaskLog α) (s : BufferTasks α) : TaskOp α → TaskLog α
  | .write el => { log with requested := log.requested ++ [el] }
  | .writer =>
      match s.writer with
      | .writes el => { log with counted := log.counted ++ [el] }
      | _ => log
  | .read => log
  | .reader =>
      match s.reader with
      | .ret answer =>
          if answer.error = 0 then { log with returned := log.returned ++ [answer.value] } else log
      | _ => log

/-- The test of `cbuff_write`, if it is the next statement, finds room. -/
def WritePc.TestsRoom (cb : CircularBuffer α) : WritePc α → Prop
  | .test _ => cbuffIsFull cb = false
  | .idle | .overflows _ | .buffer _ | .writes _ | .endValid | .wrap => True

instance (cb : CircularBuffer α) (pc : WritePc α) : Decidable (pc.TestsRoom cb) :=
  match pc with
  | .test _ => inferInstanceAs (Decidable (_ = _))
  | .idle | .overflows _ | .buffer _ | .writes _ | .endValid | .wrap => .isTrue trivial

def TestsRoom (s : BufferTasks α) : TaskOp α → Prop
  | .writer => s.writer.TestsRoom s.cb
  | .write _ | .read | .reader => True

instance (s : BufferTasks α) (op : TaskOp α) : Decidable (TestsRoom s op) :=
  match op with
  | .writer => inferInstanceAs (Decidable (s.writer.TestsRoom s.cb))
  | .write _ | .read | .reader => .isTrue trivial

/-- Two tasks at one buffer of `size` elements, in any order of statements. -/
def bufferStatements (α : Type*) [Zero α] (size : UInt16) : System (BufferTasks α) (TaskOp α) where
  init s := ∃ memory, s = ⟨cbuffInit memory size, .idle, .idle⟩
  step s op t := taskNext s op = some t

/-- The same with its history, never written to when full. -/
def bufferTasks (α : Type*) [Zero α] (size : UInt16) :
    System (BufferTasks α × TaskLog α) (TaskOp α) :=
  (bufferStatements α size).observed TaskLog.start (fun _ => TestsRoom)
    (fun log s op _ => log.record s op)

/-- A call that nobody interrupts is the undivided one. -/
theorem writer_uninterrupted [Zero α] (cb : CircularBuffer α) (reader : ReadPc α) (el : α) :
    ∃ n, run taskNext ⟨cb, .idle, reader⟩ (.write el :: List.replicate n .writer) =
      some ⟨cbuffWrite el cb, .idle, reader⟩ := by
  by_cases hfull : cb.readable = cb.size.toUInt32
  · refine ⟨6, ?_⟩
    simp only [run, taskNext, writerNext, List.replicate, hfull, if_true, Option.bind_some]
    rw [cbuffWrite, if_pos hfull]
  · refine ⟨5, ?_⟩
    simp only [run, taskNext, writerNext, List.replicate, hfull, if_false, Option.bind_some]
    rw [cbuffWrite, if_neg hfull]

theorem reader_uninterrupted [Zero α] (cb : CircularBuffer α) (writer : WritePc α) :
    ∃ n, run taskNext ⟨cb, writer, .idle⟩ (.read :: List.replicate n .reader) =
      some ⟨(cbuffRead cb).2, writer, .ret (cbuffRead cb).1⟩ := by
  by_cases hempty : cb.readable = 0
  · refine ⟨1, ?_⟩
    simp only [run, taskNext, readerNext, List.replicate, hempty, if_true, Option.bind_some]
    rw [cbuffRead, if_pos hempty]
  · refine ⟨5, ?_⟩
    simp only [run, taskNext, readerNext, List.replicate, hempty, if_false, Option.bind_some]
    rw [cbuffRead, if_neg hempty]

/-- The undivided call that a statement stands for. -/
def linearized (e : Event (BufferTasks α × TaskLog α) (TaskOp α)) : List (CbOp α) :=
  match e.label with
  | .writer => match e.pre.1.writer with | .writes el => [.write el] | _ => []
  | .reader =>
      match e.pre.1.reader with
      | .test => if e.pre.1.cb.readable = 0 then [.read] else []
      | .reads _ => [.read]
      | _ => []
  | _ => []

/-- What is requested and not yet counted. -/
def WritePc.pending : WritePc α → List α
  | .test el | .overflows el | .buffer el | .writes el => [el]
  | .idle | .endValid | .wrap => []

/-- What is counted as read and not yet returned. -/
def ReadPc.pending : ReadPc α → List α
  | .wrap value => [value]
  | .ret answer => if answer.error = 0 then [answer.value] else []
  | .idle | .test | .buffer | .startValid _ | .reads _ => []

/-- The write index after `w` writes and `d` reads. -/
def WriterAt (size : UInt16) (cb : CircularBuffer α) (w d : Nat) : WritePc α → Prop
  | .idle | .test _ => cb.endValid.toNat = w % size.toNat
  | .overflows _ => False
  | .buffer _ => cb.endValid.toNat = w % size.toNat ∧ w < d + size.toNat
  | .writes el =>
      cb.endValid.toNat = w % size.toNat ∧ w < d + size.toNat ∧ cb.buffer (w % size.toNat) = el
  | .endValid => ∃ w', w = w' + 1 ∧ cb.endValid.toNat = w' % size.toNat
  | .wrap => ∃ w' i, w = w' + 1 ∧ i.toNat = w' % size.toNat ∧ cb.endValid = i + 1

/-- The read index after `d` reads of the `written` elements. -/
def ReaderAt (size : UInt16) (cb : CircularBuffer α) (written : List α) (d : Nat) :
    ReadPc α → Prop
  | .idle | .test | .ret _ => cb.startValid.toNat = d % size.toNat
  | .buffer => cb.startValid.toNat = d % size.toNat ∧ d < written.length
  | .startValid value => cb.startValid.toNat = d % size.toNat ∧ written[d]? = some value
  | .reads value =>
      ∃ i, i.toNat = d % size.toNat ∧ cb.startValid = i + 1 ∧ written[d]? = some value
  | .wrap _ => ∃ d' i, d = d' + 1 ∧ i.toNat = d' % size.toNat ∧ cb.startValid = i + 1

/-- The buffer of the tasks stands for the buffer `p` of the undivided calls:
the counters agree, the indices are where the statements left them, and the
places between them hold what is to be read. -/
structure Stands (size : UInt16) (q : BufferTasks α × TaskLog α)
    (p : CircularBuffer α × CbLog α) : Prop where
  fifo : Fifo size p
  sameSize : q.1.cb.size = size
  writes : q.1.cb.writes = p.1.writes
  reads : q.1.cb.reads = p.1.reads
  overflows : q.1.cb.overflows = p.1.overflows
  counted : q.2.counted = p.2.written
  requested : q.2.requested = p.2.written ++ q.1.writer.pending
  returned : q.2.returned ++ q.1.reader.pending = p.2.delivered
  buffer : ∀ k el, p.2.delivered.length ≤ k → p.2.written[k]? = some el →
    q.1.cb.buffer (k % size.toNat) = el
  writer : WriterAt size q.1.cb p.2.written.length p.2.delivered.length q.1.writer
  reader : ReaderAt size q.1.cb p.2.written p.2.delivered.length q.1.reader

namespace Stands

variable {size : UInt16} {s : BufferTasks α} {log : TaskLog α} {p : CircularBuffer α × CbLog α}

theorem readable (h : Stands size (s, log) p) : s.cb.readable = p.1.readable := by
  rw [CircularBuffer.readable, CircularBuffer.readable, h.writes, h.reads, h.overflows]

/-- What is counted and not yet read fits the buffer. -/
theorem length_eq (h : Stands size (s, log) p) :
    p.2.written.length = p.2.delivered.length + p.2.queue.items.length := by
  have hlength := h.fifo.represents.window.pushed_length
  rw [h.fifo.dropped, Nat.add_zero] at hlength
  exact hlength

theorem empty_iff (h : Stands size (s, log) p) :
    s.cb.readable = 0 ↔ p.2.queue.items = [] := by
  rw [h.readable]
  exact h.fifo.represents.empty_iff

theorem full_iff (h : Stands size (s, log) p) :
    s.cb.readable = s.cb.size.toUInt32 ↔ p.2.queue.items.length = size.toNat := by
  have hsize : s.cb.size = p.1.size := h.sameSize.trans h.fifo.represents.sameSize.symm
  rw [h.readable, hsize]
  exact h.fifo.represents.full_iff

end Stands

/-- Fewer than `n` apart, two different counts have different places. -/
theorem mod_ne_of_window {d w n : Nat} (hlt : d < w) (hwindow : w < d + n) : d % n ≠ w % n := by
  intro heq
  have hdvd := (Nat.modEq_iff_dvd' hlt.le).mp heq
  have hle := Nat.le_of_dvd (by omega) hdvd
  omega

section Written

variable {written : List α} {k : Nat} {el el' : α}

theorem getElem?_concat (h : (written ++ [el])[k]? = some el') :
    written[k]? = some el' ∨ (k = written.length ∧ el' = el) := by
  rw [List.getElem?_append] at h
  split at h
  · exact .inl h
  · rename_i hlast
    obtain ⟨hk, hel⟩ := List.getElem?_eq_some_iff.mp h
    rw [List.length_singleton] at hk
    rw [List.getElem_singleton] at hel
    exact .inr ⟨by omega, hel.symm⟩

theorem getElem?_concat_left (h : written[k]? = some el') :
    (written ++ [el])[k]? = some el' := by
  rw [List.getElem?_append_left (List.getElem?_eq_some_iff.mp h).1, h]

/-- A write does not concern the reading task. -/
theorem ReaderAt.concat {size : UInt16} {cb : CircularBuffer α} {d : Nat} {pc : ReadPc α}
    (h : ReaderAt size cb written d pc) (el : α) : ReaderAt size cb (written ++ [el]) d pc := by
  cases pc with
  | idle | test | wrap | ret => exact h
  | buffer => exact ⟨h.1, h.2.trans_le (by simp)⟩
  | startValid value => exact ⟨h.1, getElem?_concat_left h.2⟩
  | reads value =>
      obtain ⟨i, hi, hstart, hvalue⟩ := h
      exact ⟨i, hi, hstart, getElem?_concat_left hvalue⟩

/-- A read leaves the writing task its room. -/
theorem WriterAt.read {size : UInt16} {cb : CircularBuffer α} {w d : Nat} {pc : WritePc α}
    (h : WriterAt size cb w d pc) : WriterAt size cb w (d + 1) pc := by
  cases pc with
  | idle | test | overflows | endValid | wrap => exact h
  | buffer el => exact ⟨h.1, h.2.trans_le (by omega)⟩
  | writes el => exact ⟨h.1, h.2.1.trans_le (by omega), h.2.2⟩

end Written

section Step

variable [Zero α] {size : UInt16} {s t : BufferTasks α} {log : TaskLog α}
  {p : CircularBuffer α × CbLog α}

/-- The upper run answers a step that the log records. -/
def Answered (size : UInt16) (s : BufferTasks α) (log : TaskLog α) (op : TaskOp α)
    (t : BufferTasks α) (p : CircularBuffer α × CbLog α) : Prop :=
  ∃ tr v, Path (fifoSystem α size) p tr v ∧
    tr.map Event.label = linearized ⟨(s, log), op, (t, log.record s op)⟩ ∧
    Stands size (t, log.record s op) v

/-- The count of a write is the undivided write. -/
theorem Stands.writes_step (hpos : 0 < size) {el : α} (h : Stands size (s, log) p)
    (hpc : s.writer = .writes el) (hnext : writerNext s = some t) :
    Answered size s log .writer t p := by
  obtain ⟨cb, writer, reader⟩ := s
  obtain rfl : writer = .writes el := hpc
  obtain rfl := Option.some.inj hnext
  obtain ⟨hend, hroom, hel⟩ := h.writer
  have hlength := h.length_eq
  have hfree : p.1.readable ≠ p.1.size.toUInt32 := by
    rw [Ne, h.fifo.represents.full_iff]
    omega
  have hguard : HasRoom p.1 (.write el) := beq_eq_false_iff_ne.mpr hfree
  have hstep : (fifoSystem α size).step p (.write el)
      (cbuffWrite el p.1, p.2.record size p.1 (.write el)) := ⟨hguard, rfl, rfl⟩
  refine Simulation.answer rfl hstep ?_
  have hwrite := Represents.write_eq el p.1
  rw [if_neg hfree] at hwrite
  constructor
  · exact (fifo_invariant hpos).step _ _ _ h.fifo hstep
  · exact h.sameSize
  · rw [hwrite]
    exact congrArg (· + 1) h.writes
  · rw [hwrite]
    exact h.reads
  · rw [hwrite]
    exact h.overflows
  · exact congrArg (· ++ [el]) h.counted
  · exact h.requested.trans (List.append_nil _).symm
  · exact h.returned
  · intro k el' hlow hk
    rcases getElem?_concat hk with hold | ⟨rfl, rfl⟩
    · exact h.buffer k el' hlow hold
    · exact hel
  · exact ⟨p.2.written.length, List.length_append, hend⟩
  · exact h.reader.concat el

/-- The other statements of a write happen between the undivided calls. -/
theorem Stands.writer_step (hpos : 0 < size) (h : Stands size (s, log) p)
    (hroom : TestsRoom s .writer) (hnext : writerNext s = some t) :
    Answered size s log .writer t p := by
  obtain ⟨cb, writer, reader⟩ := s
  have hsize : cb.size = size := h.sameSize
  have hlength := h.length_eq
  have hcap := h.fifo.represents.window.length_le
  cases writer with
  | idle => cases hnext
  | test el =>
      have hfree : ¬ cb.readable = cb.size.toUInt32 := beq_eq_false_iff_ne.mp hroom
      have hitems := mt h.full_iff.mpr hfree
      have hwindow : p.2.written.length < p.2.delivered.length + size.toNat := by omega
      rw [writerNext] at hnext
      simp only [if_neg hfree] at hnext
      obtain rfl := Option.some.inj hnext
      exact Simulation.stutter rfl { h with writer := ⟨h.writer, hwindow⟩ }
  | overflows el => exact h.writer.elim
  | buffer el =>
      obtain ⟨hend, hwindow⟩ := h.writer
      obtain rfl := Option.some.inj hnext
      have hnew : Function.update cb.buffer cb.endValid.toNat el
          (p.2.written.length % size.toNat) = el := by
        rw [← hend]
        exact Function.update_self ..
      have hold : ∀ k el', p.2.delivered.length ≤ k → p.2.written[k]? = some el' →
          Function.update cb.buffer cb.endValid.toNat el (k % size.toNat) = el' := by
        intro k el' hlow hk
        have hne : k % size.toNat ≠ cb.endValid.toNat := by
          rw [hend]
          exact mod_ne_of_window (List.getElem?_eq_some_iff.mp hk).1 (by omega)
        rw [← h.buffer k el' hlow hk]
        exact Function.update_of_ne hne ..
      exact Simulation.stutter rfl { h with writer := ⟨hend, hwindow, hnew⟩, buffer := hold }
  | writes el => exact h.writes_step hpos rfl hnext
  | endValid =>
      obtain ⟨w, hw, hend⟩ := h.writer
      obtain rfl := Option.some.inj hnext
      exact Simulation.stutter rfl { h with writer := ⟨w, cb.endValid, hw, hend, rfl⟩ }
  | wrap =>
      obtain ⟨w, i, hw, hi, hend⟩ := h.writer
      have hindex := Represents.index_succ hpos hi
      rw [← hend, ← hw, ← hsize] at hindex
      obtain rfl := Option.some.inj hnext
      refine Simulation.stutter rfl ?_
      split
      · rename_i hwrap
        rw [if_pos hwrap, hsize] at hindex
        exact { h with writer := hindex }
      · rename_i hwrap
        rw [if_neg hwrap, hsize] at hindex
        exact { h with writer := hindex }

/-- The count of a read is the undivided read. -/
theorem Stands.reads_step (hpos : 0 < size) {value : α} (h : Stands size (s, log) p)
    (hpc : s.reader = .reads value) (hnext : readerNext s = some t) :
    Answered size s log .reader t p := by
  obtain ⟨cb, writer, reader⟩ := s
  obtain rfl : reader = .reads value := hpc
  obtain rfl := Option.some.inj hnext
  obtain ⟨i, hi, hstart, hvalue⟩ := h.reader
  have hlength := h.length_eq
  have hlt := (List.getElem?_eq_some_iff.mp hvalue).1
  have hsome : p.2.queue.items ≠ [] := by
    intro hempty
    rw [hempty, List.length_nil] at hlength
    omega
  have hstep : (fifoSystem α size).step p .read
      ((cbuffRead p.1).2, p.2.record size p.1 .read) := ⟨trivial, rfl, rfl⟩
  obtain ⟨hk, hread⟩ := h.fifo.next hsome
  have hnew : p.2.record size p.1 .read =
      { p.2 with delivered := p.2.delivered ++ [value], queue := p.2.queue.pop.2 } := by
    have hfirst := List.getElem?_eq_getElem hk
    rw [hvalue] at hfirst
    simp only [CbLog.record, hread, if_true, Option.some.inj hfirst]
  have hafter := Represents.read_some (mt h.fifo.represents.empty_iff.mp hsome)
  refine Simulation.answer rfl hstep ?_
  have hfifo := (fifo_invariant hpos).step _ _ _ h.fifo hstep
  rw [hnew, hafter] at hfifo ⊢
  constructor
  · exact hfifo
  · exact h.sameSize
  · exact h.writes
  · exact congrArg (· + 1) h.reads
  · exact h.overflows
  · exact h.counted
  · exact h.requested
  · have hreturned := h.returned
    rw [ReadPc.pending, List.append_nil] at hreturned
    exact congrArg (· ++ [value]) hreturned
  · intro k el hlow hk
    rw [List.length_append] at hlow
    exact h.buffer k el (by omega) hk
  · rw [List.length_append]
    exact h.writer.read
  · exact ⟨p.2.delivered.length, i, List.length_append, hi, hstart⟩

/-- The test of a read that finds nothing is the undivided read. -/
theorem Stands.nothing_step (h : Stands size (s, log) p)
    (hpc : s.reader = .test) (hempty : s.cb.readable = 0) (hnext : readerNext s = some t) :
    Answered size s log .reader t p := by
  obtain ⟨cb, writer, reader⟩ := s
  obtain rfl : reader = .test := hpc
  have hitems := h.empty_iff.mp hempty
  have hone : (1 : Int32) ≠ 0 := by decide
  have hstep : (fifoSystem α size).step p .read
      ((cbuffRead p.1).2, p.2.record size p.1 .read) := ⟨trivial, rfl, rfl⟩
  have hread := Represents.read_empty (h.fifo.represents.empty_iff.mpr hitems)
  have hpop : p.2.queue.pop.2 = p.2.queue := by
    rw [Queue.pop, hitems, List.tail_nil, ← hitems]
  have hnew : p.2.record size p.1 .read = p.2 := by
    simp only [CbLog.record, hread, if_neg hone, hpop]
  rw [hread, hnew] at hstep
  have hseen : linearized ⟨((⟨cb, writer, .test⟩ : BufferTasks α), log), .reader,
      (t, log.record ⟨cb, writer, .test⟩ .reader)⟩ = [.read] := if_pos hempty
  rw [readerNext] at hnext
  simp only at hempty
  simp only [if_pos hempty] at hnext
  obtain rfl := Option.some.inj hnext
  exact Simulation.answer hseen hstep { h with }

theorem Stands.reader_step (hpos : 0 < size) (h : Stands size (s, log) p)
    (hnext : readerNext s = some t) : Answered size s log .reader t p := by
  obtain ⟨cb, writer, reader⟩ := s
  have hsize : cb.size = size := h.sameSize
  have hlength := h.length_eq
  cases reader with
  | idle => cases hnext
  | test =>
      by_cases hempty : cb.readable = 0
      · exact h.nothing_step rfl hempty hnext
      · have hitems := List.length_pos_iff.mpr (mt h.empty_iff.mpr hempty)
        have hlt : p.2.delivered.length < p.2.written.length := by omega
        rw [readerNext] at hnext
        simp only [if_neg hempty] at hnext
        obtain rfl := Option.some.inj hnext
        exact Simulation.stutter (if_neg hempty) { h with reader := ⟨h.reader, hlt⟩ }
  | buffer =>
      obtain ⟨hstart, hlt⟩ := h.reader
      have hvalue : p.2.written[p.2.delivered.length]? =
          some (cb.buffer cb.startValid.toNat) := by
        have hplace := h.buffer _ _ (Nat.le_refl _) (List.getElem?_eq_getElem hlt)
        rw [hstart, hplace]
        exact List.getElem?_eq_getElem hlt
      obtain rfl := Option.some.inj hnext
      exact Simulation.stutter rfl { h with reader := ⟨hstart, hvalue⟩ }
  | startValid value =>
      obtain ⟨hstart, hvalue⟩ := h.reader
      obtain rfl := Option.some.inj hnext
      exact Simulation.stutter rfl { h with reader := ⟨cb.startValid, hstart, rfl, hvalue⟩ }
  | reads value => exact h.reads_step hpos rfl hnext
  | wrap value =>
      obtain ⟨d, i, hd, hi, hstart⟩ := h.reader
      have hindex := Represents.index_succ hpos hi
      rw [← hstart, ← hd, ← hsize] at hindex
      obtain rfl := Option.some.inj hnext
      refine Simulation.stutter rfl ?_
      split
      · rename_i hwrap
        rw [if_pos hwrap, hsize] at hindex
        exact { h with reader := hindex }
      · rename_i hwrap
        rw [if_neg hwrap, hsize] at hindex
        exact { h with reader := hindex }
  | ret answer =>
      have hreturned := h.returned
      obtain rfl := Option.some.inj hnext
      refine Simulation.stutter rfl ?_
      simp only [ReadPc.pending] at hreturned
      simp only [TaskLog.record]
      split
      · rename_i hsuccess
        rw [if_pos hsuccess] at hreturned
        exact { h with returned := (List.append_nil _).trans hreturned }
      · rename_i herror
        rw [if_neg herror] at hreturned
        exact { h with returned := hreturned }

/-- The statements of the two tasks, in any order, are undivided calls. -/
theorem bufferTasks_simulation (α : Type*) [Zero α] {size : UInt16} (hpos : 0 < size) :
    Simulation (bufferTasks α size) (fifoSystem α size) linearized (Stands size) where
  init q hinit := by
    obtain ⟨s, log⟩ := q
    obtain ⟨⟨memory, rfl⟩, rfl⟩ := hinit
    have hstart : (fifoSystem α size).init (cbuffInit memory size, CbLog.start) :=
      ⟨⟨memory, rfl⟩, rfl⟩
    refine ⟨_, hstart, ?_⟩
    constructor
    · exact (fifo_invariant hpos).init _ hstart
    · rfl
    · rfl
    · rfl
    · rfl
    · rfl
    · rfl
    · rfl
    · intro k el _ hk
      cases hk
    · exact (Nat.zero_mod _).symm
    · exact (Nat.zero_mod _).symm
  step q op q' p h hstep := by
    obtain ⟨s, log⟩ := q
    obtain ⟨t, log'⟩ := q'
    obtain ⟨hroom, hnext, hlog⟩ := hstep
    obtain rfl : log' = log.record s op := hlog
    cases op with
    | writer => exact h.writer_step hpos hroom hnext
    | reader => exact h.reader_step hpos hnext
    | write el =>
        obtain ⟨cb, writer, reader⟩ := s
        cases writer with
        | idle =>
            have hrequested := h.requested
            rw [WritePc.pending, List.append_nil] at hrequested
            obtain rfl := Option.some.inj hnext
            exact Simulation.stutter rfl
              { h with requested := congrArg (· ++ [el]) hrequested }
        | test | overflows | buffer | writes | endValid | wrap => cases hnext
    | read =>
        obtain ⟨cb, writer, reader⟩ := s
        cases reader with
        | idle =>
            obtain rfl := Option.some.inj hnext
            exact Simulation.stutter rfl { h with }
        | test | buffer | startValid | reads | wrap | ret => cases hnext

end Step

section Results

variable [Zero α]

/-- Every run of the two tasks, cut into statements as it may be, is a run of
undivided calls in the order in which they are counted. -/
theorem buffer_tasks_linearize (size : UInt16) (hpos : 0 < size)
    (q₀ q : BufferTasks α × TaskLog α) (tr : List (Event (BufferTasks α × TaskLog α) (TaskOp α)))
    (hinit : (bufferTasks α size).init q₀) (hpath : Path (bufferTasks α size) q₀ tr q) :
    ∃ p₀ tr' p, (fifoSystem α size).init p₀ ∧ Path (fifoSystem α size) p₀ tr' p ∧
      tr'.map Event.label = tr.flatMap linearized ∧
      p.2.written = q.2.counted ∧ q.2.returned <+: p.2.delivered := by
  have hsim := bufferTasks_simulation α hpos
  obtain ⟨p₀, hupper, hrel⟩ := hsim.init q₀ hinit
  obtain ⟨tr', p, hrun, hlabels, hend⟩ := hsim.path hpath hrel
  exact ⟨p₀, tr', p, hupper, hrun, hlabels, hend.counted.symm, ⟨_, hend.returned⟩⟩

/-- The statements of a write of 7 and of two reads: the first read comes too
early, the second one overtakes the end of the write. -/
def overtaking : List (TaskOp Nat) :=
  [.write 7, .read, .writer, .writer, .reader, .writer, .reader, .read, .reader, .reader, .writer,
    .reader, .reader, .writer, .reader, .reader]

def sharedBuffer : BufferTasks Nat × TaskLog Nat :=
  (⟨cbuffInit (fun _ => 0) 2, .idle, .idle⟩, TaskLog.start)

theorem overtaking_path :
    ∃ q tr, Path (bufferTasks Nat 2) sharedBuffer tr q ∧ tr.map Event.label = overtaking ∧
      q.2.returned = [7] ∧ q.2.counted = [7] := by
  obtain ⟨q, hrun, hlog⟩ := exists_of_any
    (by decide +kernel : (run (observe taskNext (fun _ => TestsRoom)
      (fun log s op _ => log.record s op)) sharedBuffer overtaking).any
        (fun q => decide (q.2.returned = [7] ∧ q.2.counted = [7])) = true)
  obtain ⟨tr, hpath, hlabels⟩ := run_path
    (observe_step (M := bufferStatements Nat 2) (fun _ _ _ h => h) TaskLog.start) hrun
  exact ⟨q, tr, hpath, hlabels, hlog⟩

/-- The overtaking read is a read after the write. -/
theorem buffer_tasks_linearize_overtaking :
    ∃ q p, Reachable (bufferTasks Nat 2) q ∧ Reachable (fifoSystem Nat 2) p ∧
      p.2.written = [7] ∧ q.2.returned = [7] ∧ q.2.returned <+: p.2.delivered := by
  obtain ⟨q, tr, hpath, _, hreturned, hcounted⟩ := overtaking_path
  have hinit : (bufferTasks Nat 2).init sharedBuffer := ⟨⟨_, rfl⟩, rfl⟩
  obtain ⟨p₀, tr', p, hupper, hrun, _, hwritten, hprefix⟩ :=
    buffer_tasks_linearize 2 (by decide) sharedBuffer q tr hinit hpath
  exact ⟨q, p, ⟨_, tr, hinit, hpath⟩, ⟨p₀, tr', hupper, hrun⟩, hwritten.trans hcounted, hreturned,
    hprefix⟩

/-- Two tasks that share a buffer never written to when full: the reads return
what was requested first, one finds nothing only if everything counted was
returned, and the tasks never are at the same place of the buffer. -/
theorem buffer_tasks_fifo (size : UInt16) (hpos : 0 < size) (q : BufferTasks α × TaskLog α)
    (h : Reachable (bufferTasks α size) q) :
    q.2.returned <+: q.2.counted ∧ q.2.counted <+: q.2.requested ∧
      (q.1.reader = .test → (q.1.cb.readable = 0 ↔ q.2.returned = q.2.counted)) ∧
      (∀ el, q.1.writer = .buffer el → q.1.cb.endValid < size) ∧
      (q.1.reader = .buffer → q.1.cb.startValid < size) ∧
      ∀ el, q.1.writer = .buffer el → q.1.reader = .buffer →
        q.1.cb.endValid ≠ q.1.cb.startValid := by
  obtain ⟨p, _, hp⟩ := (bufferTasks_simulation α hpos).reachable h
  have hsize : 0 < size.toNat := UInt16.lt_iff_toNat_lt.mp hpos
  have hlength := hp.length_eq
  have hreturned : q.2.returned <+: p.2.delivered := ⟨_, hp.returned⟩
  refine ⟨?_, ?_, ?_, ?_, ?_, ?_⟩
  · rw [hp.counted]
    exact hreturned.trans hp.fifo.delivered
  · rw [hp.counted, hp.requested]
    exact List.prefix_append _ _
  · intro hpc
    have hall := hp.returned
    rw [hpc, ReadPc.pending, List.append_nil] at hall
    rw [hp.empty_iff, hall, hp.counted]
    constructor
    · intro hempty
      rw [hempty, List.length_nil, Nat.add_zero] at hlength
      exact hp.fifo.delivered.eq_of_length hlength.symm
    · intro heq
      rw [heq] at hlength
      exact List.length_eq_zero_iff.mp (by omega)
  · intro el hpc
    have hwriter := hp.writer
    rw [hpc] at hwriter
    rw [UInt16.lt_iff_toNat_lt, hwriter.1]
    exact Nat.mod_lt _ hsize
  · intro hpc
    have hreader := hp.reader
    rw [hpc] at hreader
    rw [UInt16.lt_iff_toNat_lt, hreader.1]
    exact Nat.mod_lt _ hsize
  · intro el hwpc hrpc heq
    have hwriter := hp.writer
    have hreader := hp.reader
    rw [hwpc] at hwriter
    rw [hrpc] at hreader
    have hplaces := mod_ne_of_window hreader.2 hwriter.2
    rw [← hwriter.1, ← hreader.1, heq] at hplaces
    exact hplaces rfl

theorem buffer_tasks_fifo_overtaking :
    ∃ q, Reachable (bufferTasks Nat 2) q ∧ q.2.returned = [7] ∧ q.2.returned <+: q.2.counted ∧
      q.2.counted <+: q.2.requested := by
  obtain ⟨q, tr, hpath, _, hreturned, _⟩ := overtaking_path
  have hq : Reachable (bufferTasks Nat 2) q := ⟨_, tr, ⟨⟨_, rfl⟩, rfl⟩, hpath⟩
  obtain ⟨hcounted, hrequested, _⟩ := buffer_tasks_fifo 2 (by decide) q hq
  exact ⟨q, hq, hreturned, hcounted, hrequested⟩

end Results

end PascalScheduler
