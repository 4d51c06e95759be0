import PascalScheduler.Data.CircularBuffer

/-!
The circular buffer as a queue. As long as nothing is written to a full buffer
it is a FIFO, whatever the counters wrap. A write to a full buffer is counted in
`overflows`, which frees a place, but the read index does not move with it: it
is behind by the number of overflows, and right again where `size` divides it.
-/

namespace PascalScheduler

open Transition DropQueue

variable {α : Type*} [Zero α]

/-- What a read of the queue returns. -/
def queueRead (q : Queue α) : CbRead α :=
  match q.pop.1 with
  | none => ⟨0, 1⟩
  | some el => ⟨el, 0⟩

/-- A buffer in use, with its history. -/
def queueSystem (α : Type*) [Zero α] (size : UInt16) :
    System (CircularBuffer α × CbLog α) (CbOp α) :=
  (bufferSystem size).observed CbLog.start (fun _ _ _ => True)
    (fun log cb op _ => log.record size cb op)

/-- No write to a full buffer. -/
def HasRoom (cb : CircularBuffer α) : CbOp α → Prop
  | .read => True
  | .write _ => cbuffIsFull cb = false

instance (cb : CircularBuffer α) (op : CbOp α) : Decidable (HasRoom cb op) :=
  match op with
  | .read => .isTrue trivial
  | .write _ => inferInstanceAs (Decidable (_ = _))

/-- The same, never written to when full. -/
def fifoSystem (α : Type*) [Zero α] (size : UInt16) :
    System (CircularBuffer α × CbLog α) (CbOp α) :=
  (bufferSystem size).observed CbLog.start (fun _ => HasRoom)
    (fun log cb op _ => log.record size cb op)

section Value

variable {size : UInt16} {cb : CircularBuffer α} {log : CbLog α}

theorem queueRead_of_empty {q : Queue α} (h : q.items = []) : queueRead q = ⟨0, 1⟩ := by
  rw [queueRead, Queue.pop, h, List.head?_nil]

/-- What a read of a non-empty buffer returns, by the index it is at. -/
theorem Represents.read_place (h : Represents size cb log) (hsome : log.queue.items ≠ [])
    {k : Nat} (hk : k < log.written.length) (hlast : log.written.length ≤ k + size.toNat)
    (hplace : k % size.toNat = log.delivered.length % size.toNat) :
    (cbuffRead cb).1 = ⟨log.written[k], 0⟩ := by
  rw [Represents.read_some (mt h.empty_iff.mp hsome), h.startValid,
    h.buffer_mod hk hlast hplace]

theorem Represents.queueRead_some (h : Represents size cb log) (hsome : log.queue.items ≠ []) :
    ∃ hk : log.delivered.length + log.queue.dropped < log.written.length,
      queueRead log.queue = ⟨log.written[log.delivered.length + log.queue.dropped], 0⟩ := by
  have hlength := h.window.pushed_length
  have hpos := List.length_pos_iff.mpr hsome
  have hk : log.delivered.length + log.queue.dropped < log.written.length := by omega
  refine ⟨hk, ?_⟩
  rw [queueRead, Queue.pop, h.window.head, List.getElem?_eq_getElem hk]

/-- A read is the queue's where `size` divides the number of overflows. -/
theorem Represents.read_aligned (h : Represents size cb log) (hsome : log.queue.items ≠ [])
    (hdvd : size.toNat ∣ log.queue.dropped) : (cbuffRead cb).1 = queueRead log.queue := by
  obtain ⟨hk, hqueue⟩ := h.queueRead_some hsome
  have hlength := h.window.pushed_length
  have hcap := h.window.length_le
  rw [hqueue]
  apply h.read_place hsome hk (by omega)
  obtain ⟨rounds, hrounds⟩ := hdvd
  rw [hrounds, Nat.add_mul_mod_self_left]

/-- Among the last `n` of `length` places one is congruent to `i`. -/
theorem exists_place {n length : Nat} (hn : 0 < n) (hfull : n ≤ length) (i : Nat) :
    ∃ k, k < length ∧ length ≤ k + n ∧ k % n = i % n := by
  obtain ⟨base, rfl⟩ := Nat.exists_eq_add_of_le hfull
  have hlt := Nat.mod_lt (i + (n - base % n)) hn
  refine ⟨base + (i + (n - base % n)) % n, by omega, by omega, ?_⟩
  have hdiv := Nat.div_add_mod base n
  have hmod := Nat.mod_lt base hn
  have hsum : base + (i + (n - base % n)) = i + n * (base / n + 1) := by
    rw [Nat.mul_add, Nat.mul_one]
    omega
  rw [Nat.add_mod_mod, hsum, Nat.add_mul_mod_self_left]

/-- Where the elements can be told apart, it is the queue's only there. -/
theorem Represents.aligned_of_read (h : Represents size cb log) (hpos : 0 < size)
    (hsome : log.queue.items ≠ []) (hnodup : log.written.Nodup)
    (hread : (cbuffRead cb).1 = queueRead log.queue) : size.toNat ∣ log.queue.dropped := by
  by_cases hnone : log.queue.dropped = 0
  · rw [hnone]
    exact Nat.dvd_zero _
  · obtain ⟨k, hk, hlast, hplace⟩ := exists_place (UInt16.lt_iff_toNat_lt.mp hpos)
      (h.window.full hnone) log.delivered.length
    obtain ⟨hhead, hqueue⟩ := h.queueRead_some hsome
    rw [h.read_place hsome hk hlast hplace, hqueue] at hread
    have hsame := (hnodup.getElem_inj_iff).mp (congrArg CbRead.value hread)
    have hcongr : log.delivered.length ≡ log.delivered.length + log.queue.dropped
        [MOD size.toNat] := by
      rw [← hsame]
      exact hplace.symm
    have hdvd := (Nat.modEq_iff_dvd' (Nat.le_add_right _ _)).mp hcongr
    rwa [Nat.add_sub_cancel_left] at hdvd

omit [Zero α] in
theorem prefix_concat_getElem {front all : List α} (h : front <+: all)
    (hk : front.length < all.length) : front ++ [all[front.length]] <+: all := by
  have hfront := List.prefix_iff_eq_take.mp h
  have htake : all.take (front.length + 1) = front ++ [all[front.length]] := by
    rw [List.take_succ_eq_append_getElem hk, ← hfront]
  rw [← htake]
  exact List.take_prefix _ _

end Value

section Fifo

variable {size : UInt16}

/-- Nothing was dropped, and what was delivered is what was written first. -/
structure Fifo (size : UInt16) (p : CircularBuffer α × CbLog α) : Prop where
  represents : Represents size p.1 p.2
  dropped : p.2.queue.dropped = 0
  delivered : p.2.delivered <+: p.2.written

theorem Fifo.next {p : CircularBuffer α × CbLog α} (h : Fifo size p)
    (hsome : p.2.queue.items ≠ []) :
    ∃ hk : p.2.delivered.length < p.2.written.length,
      (cbuffRead p.1).1 = ⟨p.2.written[p.2.delivered.length], 0⟩ := by
  obtain ⟨hk, hqueue⟩ := h.represents.queueRead_some hsome
  have hread := h.represents.read_aligned hsome (h.dropped ▸ Nat.dvd_zero _)
  simp only [h.dropped, Nat.add_zero] at hk hqueue
  exact ⟨hk, hread.trans hqueue⟩

theorem fifo_invariant (hpos : 0 < size) :
    Invariant (fifoSystem α size) (Fifo size) where
  init p hinit := by
    obtain ⟨cb, log⟩ := p
    obtain ⟨⟨memory, rfl⟩, rfl⟩ := hinit
    exact ⟨Represents.start memory size, rfl, List.prefix_rfl⟩
  step p op q hp hstep := by
    obtain ⟨hguard, happly, hrecord⟩ := hstep
    obtain ⟨cb', log'⟩ := q
    obtain rfl : cb' = op.apply p.1 := happly
    obtain rfl : log' = p.2.record size p.1 op := hrecord
    refine ⟨hp.represents.step hpos op, ?_, ?_⟩
    · cases op with
      | read => exact hp.dropped
      | write el =>
          have hroom : p.2.queue.items.length ≠ size.toNat := by
            rw [Ne, ← hp.represents.full_iff]
            intro hfull
            rw [HasRoom, cbuffIsFull, hfull, beq_self_eq_true] at hguard
            cases hguard
          change (p.2.queue.push size.toNat el).dropped = 0
          rw [Queue.push, if_neg hroom]
          exact hp.dropped
    · cases op with
      | write el => exact hp.delivered.trans (List.prefix_append _ _)
      | read =>
          by_cases hempty : p.2.queue.items = []
          · have hone : (1 : Int32) ≠ 0 := by decide
            simp only [CbLog.record, Represents.read_empty (hp.represents.empty_iff.mpr hempty),
              if_neg hone]
            exact hp.delivered
          · obtain ⟨hk, hread⟩ := hp.next hempty
            simp only [CbLog.record, hread, if_true]
            exact prefix_concat_getElem hp.delivered hk

/-- A buffer that is never written to when full is a FIFO of `size` elements:
reads deliver what was written in that order, fail exactly when all of it has
been delivered, and it is full exactly when `size` elements are left. -/
theorem buffer_fifo (size : UInt16) (hpos : 0 < size) (p : CircularBuffer α × CbLog α)
    (h : Reachable (fifoSystem α size) p) :
    (∀ k (hk : k < p.2.delivered.length), p.2.written[k]? = some p.2.delivered[k]) ∧
      ((cbuffRead p.1).1.error = 0 →
        p.2.written[p.2.delivered.length]? = some (cbuffRead p.1).1.value) ∧
      ((cbuffRead p.1).1.error = 1 ↔ p.2.delivered.length = p.2.written.length) ∧
      (cbuffIsFull p.1 = true ↔
        p.2.written.length = p.2.delivered.length + size.toNat) := by
  have hp := (fifo_invariant hpos).reachable h
  have hlength := hp.represents.window.pushed_length
  rw [hp.dropped, Nat.add_zero] at hlength
  have hzero : (1 : Int32) ≠ 0 := by decide
  refine ⟨?_, ?_, ?_, ?_⟩
  · intro k hk
    rw [hp.delivered.getElem hk]
    exact List.getElem?_eq_getElem _
  · intro hsuccess
    have hsome : p.2.queue.items ≠ [] := by
      intro hempty
      rw [Represents.read_empty (hp.represents.empty_iff.mpr hempty)] at hsuccess
      exact hzero hsuccess
    obtain ⟨hk, hread⟩ := hp.next hsome
    rw [hread]
    exact List.getElem?_eq_getElem hk
  · by_cases hempty : p.2.queue.items = []
    · rw [Represents.read_empty (hp.represents.empty_iff.mpr hempty)]
      rw [hempty, List.length_nil] at hlength
      exact ⟨fun _ => hlength.symm, fun _ => rfl⟩
    · obtain ⟨hk, hread⟩ := hp.next hempty
      rw [hread]
      exact ⟨fun heq => absurd heq.symm hzero, fun heq => by omega⟩
  · rw [cbuffIsFull, beq_iff_eq, hp.represents.full_iff]
    omega

/-- Three elements through a buffer of two: the second read waits for none. -/
theorem buffer_fifo_two_places :
    ∃ p, run (observe (fun cb op => some (op.apply cb)) (fun _ => HasRoom)
        (fun log cb op _ => log.record 2 cb op)) (cbuffInit (fun _ => 0) 2, CbLog.start)
        [.write 7, .write 8, .read, .write 9] = some p ∧
      p.2.delivered = [7] ∧ (cbuffRead p.1).1.error ≠ 1 ∧ cbuffIsFull p.1 = true := by
  obtain ⟨p, hrun, hdelivered, hwritten⟩ := exists_of_any
    (by decide +kernel : (run (observe (fun cb op => some (op.apply cb)) (fun _ => HasRoom)
      (fun log cb op _ => log.record 2 cb op)) (cbuffInit (fun _ => (0 : Nat)) 2, CbLog.start)
      [.write 7, .write 8, .read, .write 9]).any
        (fun p => decide (p.2.delivered = [7] ∧ p.2.written = [7, 8, 9])) = true)
  obtain ⟨tr, hpath, _⟩ := run_path (observe_step (M := bufferSystem 2)
    (fun _ _ _ h => (Option.some.inj h).symm) CbLog.start) hrun
  have hp : Reachable (fifoSystem Nat 2) p := ⟨_, tr, ⟨⟨_, rfl⟩, rfl⟩, hpath⟩
  obtain ⟨_, _, herror, hfull⟩ := buffer_fifo 2 (by decide) p hp
  refine ⟨p, hrun, hdelivered, ?_, ?_⟩
  · rw [Ne, herror, hdelivered, hwritten]
    decide
  · rw [hfull, hdelivered, hwritten]
    rfl

end Fifo

section Overflow

variable {size : UInt16}

/-- In a run the reads return what the queue returns, every dropped element is
counted, and the buffer is full when the queue is. -/
structure BehavesAsQueue (size : UInt16)
    (tr : List (Event (CircularBuffer α × CbLog α) (CbOp α))) : Prop where
  reads : ∀ e ∈ tr, e.label = .read → (cbuffRead e.pre.1).1 = queueRead e.pre.2.queue
  overflows : ∀ e ∈ tr, e.post.1.overflows = UInt32.ofNat e.post.2.queue.dropped
  full : ∀ e ∈ tr, cbuffIsFull e.post.1 = true ↔ e.post.2.queue.items.length = size.toNat

/-- Every read of a non-empty buffer finds a multiple of `size` overflows. -/
def AlignedReads (size : UInt16)
    (tr : List (Event (CircularBuffer α × CbLog α) (CbOp α))) : Prop :=
  ∀ e ∈ tr, e.label = .read → e.pre.2.queue.items ≠ [] → size.toNat ∣ e.pre.2.queue.dropped

theorem represents_invariant (hpos : 0 < size) :
    Invariant (queueSystem α size) (fun p => Represents size p.1 p.2) where
  init p hinit := by
    obtain ⟨cb, log⟩ := p
    obtain ⟨⟨memory, rfl⟩, rfl⟩ := hinit
    exact Represents.start memory size
  step p op q hp hstep := by
    obtain ⟨_, happly, hrecord⟩ := hstep
    rw [hrecord, happly]
    exact hp.step hpos op

theorem written_kept {p q : CircularBuffer α × CbLog α} {op : CbOp α}
    (h : (queueSystem α size).step p op q) : p.2.written <+: q.2.written := by
  obtain ⟨_, _, hrecord⟩ := h
  rw [hrecord]
  cases op with
  | read => exact List.prefix_rfl
  | write el => exact List.prefix_append _ _

/-- A run whose reads are aligned behaves as the queue that drops its oldest
element when it is full; where the elements written can be told apart, no other
run does. -/
theorem overflow_drops_oldest_iff (size : UInt16) (hpos : 0 < size)
    (p q : CircularBuffer α × CbLog α)
    (tr : List (Event (CircularBuffer α × CbLog α) (CbOp α)))
    (hinit : (queueSystem α size).init p) (hpath : Path (queueSystem α size) p tr q) :
    (AlignedReads size tr → BehavesAsQueue size tr) ∧
      (q.2.written.Nodup → BehavesAsQueue size tr → AlignedReads size tr) := by
  have hrep : ∀ e ∈ tr, Represents size e.pre.1 e.pre.2 ∧ Represents size e.post.1 e.post.2 := by
    intro e he
    obtain ⟨hpre, _, hpost⟩ := hpath.event_reachable (reachable_init hinit) he
    exact ⟨(represents_invariant hpos).reachable hpre,
      (represents_invariant hpos).reachable hpost⟩
  constructor
  · intro haligned
    refine ⟨?_, fun e he => (hrep e he).2.overflows, ?_⟩
    · intro e he hread
      by_cases hempty : e.pre.2.queue.items = []
      · rw [Represents.read_empty ((hrep e he).1.empty_iff.mpr hempty),
          queueRead_of_empty hempty]
      · exact (hrep e he).1.read_aligned hempty (haligned e he hread hempty)
    · intro e he
      rw [cbuffIsFull, beq_iff_eq]
      exact (hrep e he).2.full_iff
  · intro hnodup hqueue e he hread hsome
    obtain ⟨before, after, rfl⟩ := List.append_of_mem he
    obtain ⟨_, hone, htail⟩ := hpath.split_cons
    have hearlier : e.pre.2.written <+: q.2.written :=
      (Path.cons hone htail).preserves (P := fun u => e.pre.2.written <+: u.2.written)
        (fun _ _ _ hu hstep => hu.trans (written_kept hstep)) List.prefix_rfl
    exact (hrep e he).1.aligned_of_read hpos hsome (hnodup.sublist hearlier.sublist)
      (hqueue.reads e he hread)

/-- One call, with its record. -/
def advanceBuffer (size : UInt16) (p : CircularBuffer α × CbLog α) (op : CbOp α) :
    CircularBuffer α × CbLog α :=
  (op.apply p.1, p.2.record size p.1 op)

theorem advanceBuffer_step (size : UInt16) (p : CircularBuffer α × CbLog α) (op : CbOp α) :
    (queueSystem α size).step p op (advanceBuffer size p op) :=
  ⟨trivial, rfl, rfl⟩

/-- A buffer of two is written 1, 2 and 3, and the read returns 3, where the
oldest element left is 2. -/
theorem overflow_keeps_oldest :
    ∃ p tr q, (queueSystem Nat 2).init p ∧ Path (queueSystem Nat 2) p tr q ∧
      tr.map Event.label = [.write 1, .write 2, .write 3, .read] ∧
      q.2.delivered = [3] ∧ ¬ BehavesAsQueue 2 tr := by
  refine ⟨(cbuffInit (fun _ => 0) 2, CbLog.start), _, _, ⟨⟨_, rfl⟩, rfl⟩,
    .cons (advanceBuffer_step 2 _ _) (.cons (advanceBuffer_step 2 _ _)
      (.cons (advanceBuffer_step 2 _ _) (.cons (advanceBuffer_step 2 _ _) (.nil _)))),
    rfl, by decide, ?_⟩
  intro hqueue
  have hread := hqueue.reads _ (List.mem_of_getElem? (i := 3) rfl) rfl
  exact absurd (congrArg CbRead.value hread) (by decide)

/-- After two overflows the read is right again. -/
theorem overflow_drops_oldest_iff_twice :
    ∃ p tr q, (queueSystem Nat 2).init p ∧ Path (queueSystem Nat 2) p tr q ∧
      tr.map Event.label = [.write 1, .write 2, .write 3, .write 4, .read] ∧
      q.2.delivered = [3] ∧ BehavesAsQueue 2 tr := by
  have hinit : (queueSystem Nat 2).init (cbuffInit (fun _ => 0) 2, CbLog.start) :=
    ⟨⟨_, rfl⟩, rfl⟩
  have hpath := Path.cons (advanceBuffer_step 2 (cbuffInit (fun _ => 0) 2, CbLog.start) (.write 1))
    (.cons (advanceBuffer_step 2 _ (.write 2)) (.cons (advanceBuffer_step 2 _ (.write 3))
      (.cons (advanceBuffer_step 2 _ (.write 4)) (.cons (advanceBuffer_step 2 _ .read) (.nil _)))))
  refine ⟨_, _, _, hinit, hpath, rfl, by decide, ?_⟩
  apply (overflow_drops_oldest_iff 2 (by decide) _ _ _ hinit hpath).1
  intro e he hread _
  simp only [List.mem_cons, List.not_mem_nil, or_false] at he
  rcases he with rfl | rfl | rfl | rfl | rfl
  · cases hread
  · cases hread
  · cases hread
  · cases hread
  · decide

end Overflow

end PascalScheduler
