import Mathlib.Data.List.Basic

/-!
A queue of bounded capacity that makes room by dropping its oldest element. It
is also a window on the list of everything ever pushed: what was popped and
what was dropped lie before the window, and nothing lies behind it.
-/

namespace DropQueue

variable {α : Type*}

structure Queue (α : Type*) where
  items : List α
  dropped : Nat

namespace Queue

def empty : Queue α := ⟨[], 0⟩

/-- A push on a full queue drops the oldest element, and counts it. -/
def push (capacity : Nat) (x : α) (q : Queue α) : Queue α :=
  if q.items.length = capacity then ⟨q.items.tail ++ [x], q.dropped + 1⟩
  else ⟨q.items ++ [x], q.dropped⟩

def pop (q : Queue α) : Option α × Queue α :=
  (q.items.head?, { q with items := q.items.tail })

/-- After `popped` pops, the queue is the rest of the `pushed` elements. -/
structure Window (pushed : List α) (popped capacity : Nat) (q : Queue α) : Prop where
  items : q.items = pushed.drop (popped + q.dropped)
  gone_le : popped + q.dropped ≤ pushed.length
  length_le : q.items.length ≤ capacity
  /-- Nothing is dropped before the queue has been full. -/
  full : q.dropped ≠ 0 → capacity ≤ pushed.length

variable {pushed : List α} {popped capacity : Nat} {q : Queue α}

theorem Window.empty (capacity : Nat) : Window ([] : List α) 0 capacity Queue.empty where
  items := rfl
  gone_le := Nat.le_refl 0
  length_le := Nat.zero_le capacity
  full h := absurd rfl h

theorem Window.pushed_length (h : Window pushed popped capacity q) :
    pushed.length = popped + q.dropped + q.items.length := by
  have hle := h.gone_le
  rw [h.items, List.length_drop]
  omega

theorem Window.push (h : Window pushed popped capacity q) (hpos : 0 < capacity) (x : α) :
    Window (pushed ++ [x]) popped capacity (q.push capacity x) := by
  have hlength := h.pushed_length
  have hcap := h.length_le
  unfold Queue.push
  split_ifs with hfull
  · constructor
    · have htail : q.items.tail = pushed.drop (popped + (q.dropped + 1)) := by
        rw [h.items, List.tail_drop, Nat.add_assoc]
      change q.items.tail ++ [x] = (pushed ++ [x]).drop (popped + (q.dropped + 1))
      rw [List.drop_append_of_le_length (by omega), ← htail]
    · simp only [List.length_append, List.length_singleton]
      omega
    · simp only [List.length_append, List.length_tail, List.length_singleton]
      omega
    · intro _
      simp only [List.length_append, List.length_singleton]
      omega
  · constructor
    · rw [List.drop_append_of_le_length h.gone_le, ← h.items]
    · simp only [List.length_append, List.length_singleton]
      omega
    · simp only [List.length_append, List.length_singleton]
      omega
    · intro hdropped
      have hbefore := h.full hdropped
      simp only [List.length_append, List.length_singleton]
      omega

theorem Window.pop (h : Window pushed popped capacity q) (hsome : q.items ≠ []) :
    Window pushed (popped + 1) capacity q.pop.2 := by
  have hlength := h.pushed_length
  have hpos := List.length_pos_iff.mpr hsome
  have hcap := h.length_le
  constructor
  · change q.items.tail = pushed.drop (popped + 1 + q.dropped)
    rw [h.items, List.tail_drop, Nat.add_right_comm]
  · change popped + 1 + q.dropped ≤ pushed.length
    omega
  · change q.items.tail.length ≤ capacity
    rw [List.length_tail]
    omega
  · exact h.full

/-- The oldest element is the first one behind those popped and dropped. -/
theorem Window.head (h : Window pushed popped capacity q) :
    q.items.head? = pushed[popped + q.dropped]? := by
  rw [h.items, List.head?_drop]

end Queue

end DropQueue
