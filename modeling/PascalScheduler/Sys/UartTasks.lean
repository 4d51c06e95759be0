import PascalScheduler.Library.Transition
import PascalScheduler.Sys.Dev

/-!
Tasks that write to the UART at the same time. `_usic_uart_send` first waits
until the transmit queue is not full and then puts its byte; a tick between the
two lets another task put one first. Nothing in the driver keeps the tasks apart.
The queue is the hardware behind `XMC_USIC_CH_TXFIFO_*`: it holds `txfifoSize`
words, loses one that is put when it is full, and sends the oldest at any time.
-/

namespace PascalScheduler.Sys

open Transition

/-- Where a task is in `_usic_uart_send`. -/
inductive SendPc where
  | isFull
  | putData
  deriving DecidableEq

/-- A task in the loop of `usic_uart_write`: what it still has to send. -/
structure Sender where
  rest : List UInt8
  pc : SendPc

/-- The transmit queue, what has left it for the line, and what it did not take,
each word with the task that put it. -/
structure UartTasks (k : Nat) where
  txfifo : List (Fin k × UInt8)
  line : List (Fin k × UInt8)
  lost : List (Fin k × UInt8)
  senders : Fin k → Sender

inductive UartOp (k : Nat) where
  | send (i : Fin k)   -- the next statement of task `i`
  | shift              -- the channel takes a word from the queue

namespace UartTasks

variable {k : Nat}

def setSender (s : UartTasks k) (i : Fin k) (sender : Sender) : UartTasks k :=
  { s with senders := Function.update s.senders i sender }

/-- `XMC_USIC_CH_TXFIFO_PutData` -/
def put (s : UartTasks k) (i : Fin k) (uwData : UInt8) : UartTasks k :=
  if s.txfifo.length < txfifoSize then { s with txfifo := s.txfifo ++ [(i, uwData)] }
  else { s with lost := s.lost ++ [(i, uwData)] }

/-- The next statement of task `i`, which has `uwData` and `rest` to send. -/
def send (s : UartTasks k) (i : Fin k) (uwData : UInt8) (rest : List UInt8) : SendPc → UartTasks k
  | .isFull =>
      if s.txfifo.length < txfifoSize then s.setSender i ⟨uwData :: rest, .putData⟩ else s
  | .putData => (s.put i uwData).setSender i ⟨rest, .isFull⟩

def next (s : UartTasks k) : UartOp k → Option (UartTasks k)
  | .send i =>
      match (s.senders i).rest with
      | [] => none
      | uwData :: rest => some (s.send i uwData rest (s.senders i).pc)
  | .shift =>
      match s.txfifo with
      | [] => none
      | word :: words => some { s with txfifo := words, line := s.line ++ [word] }

/-- Every task at the first byte of what it has to write. -/
def start (data : Fin k → List UInt8) : UartTasks k where
  txfifo := []
  line := []
  lost := []
  senders i := ⟨data i, .isFull⟩

/-- What task `i` has put and the queue has taken, in the order of the line. -/
def sentBy (s : UartTasks k) (i : Fin k) : List UInt8 :=
  ((s.line ++ s.txfifo).filter fun word => decide (word.1 = i)).map Prod.snd

/-- How many bytes the tasks still have to send. -/
def left (s : UartTasks k) : Nat :=
  ∑ i, (s.senders i).rest.length

end UartTasks

def uartTasks {k : Nat} (data : Fin k → List UInt8) : System (UartTasks k) (UartOp k) where
  init s := s = UartTasks.start data
  step s l t := s.next l = some t

/-- Every step, with everything it can do. -/
inductive UartSteps {k : Nat} (s : UartTasks k) : UartOp k → UartTasks k → Prop where
  | spin {i : Fin k} (full : ¬ s.txfifo.length < txfifoSize) : UartSteps s (.send i) s
  | isFull {i : Fin k} {uwData : UInt8} {rest : List UInt8}
      (sender : s.senders i = ⟨uwData :: rest, .isFull⟩) (room : s.txfifo.length < txfifoSize) :
      UartSteps s (.send i) (s.setSender i ⟨uwData :: rest, .putData⟩)
  | putData {i : Fin k} {uwData : UInt8} {rest : List UInt8}
      (sender : s.senders i = ⟨uwData :: rest, .putData⟩) (room : s.txfifo.length < txfifoSize) :
      UartSteps s (.send i)
        ({ s with txfifo := s.txfifo ++ [(i, uwData)] }.setSender i ⟨rest, .isFull⟩)
  | drop {i : Fin k} {uwData : UInt8} {rest : List UInt8}
      (sender : s.senders i = ⟨uwData :: rest, .putData⟩) (full : ¬ s.txfifo.length < txfifoSize) :
      UartSteps s (.send i)
        ({ s with lost := s.lost ++ [(i, uwData)] }.setSender i ⟨rest, .isFull⟩)
  | shift {word : Fin k × UInt8} {words : List (Fin k × UInt8)}
      (queued : s.txfifo = word :: words) :
      UartSteps s .shift { s with txfifo := words, line := s.line ++ [word] }

variable {k : Nat} {data : Fin k → List UInt8} {s t : UartTasks k} {l : UartOp k} {i j : Fin k}

theorem uart_steps (h : (uartTasks data).step s l t) : UartSteps s l t := by
  have hnext : s.next l = some t := h
  cases l with
  | send i =>
      rw [UartTasks.next] at hnext
      cases hsender : s.senders i with
      | mk rest pc =>
          rw [hsender] at hnext
          cases rest with
          | nil => cases hnext
          | cons uwData rest =>
              obtain rfl := Option.some.inj hnext
              cases pc with
              | isFull =>
                  change UartSteps s (.send i) (UartTasks.send s i uwData rest .isFull)
                  rw [UartTasks.send]
                  split_ifs with hroom
                  · exact .isFull hsender hroom
                  · exact .spin hroom
              | putData =>
                  change UartSteps s (.send i) (UartTasks.send s i uwData rest .putData)
                  rw [UartTasks.send, UartTasks.put]
                  split_ifs with hroom
                  · exact .putData hsender hroom
                  · exact .drop hsender hroom
  | shift =>
      rw [UartTasks.next] at hnext
      cases hqueue : s.txfifo with
      | nil =>
          rw [hqueue] at hnext
          cases hnext
      | cons word words =>
          rw [hqueue] at hnext
          obtain rfl := Option.some.inj hnext
          exact .shift hqueue

section Frame

variable (s : UartTasks k) (i : Fin k) (sender : Sender)

@[simp] theorem setSender_txfifo : (s.setSender i sender).txfifo = s.txfifo := rfl

@[simp] theorem setSender_line : (s.setSender i sender).line = s.line := rfl

@[simp] theorem setSender_lost : (s.setSender i sender).lost = s.lost := rfl

@[simp] theorem setSender_self : (s.setSender i sender).senders i = sender :=
  Function.update_self ..

theorem setSender_other (hne : j ≠ i) : (s.setSender i sender).senders j = s.senders j :=
  Function.update_of_ne hne ..

@[simp] theorem setSender_sentBy : (s.setSender i sender).sentBy j = s.sentBy j := rfl

/-- What is left of the others stays. -/
theorem setSender_left :
    (s.setSender i sender).left + (s.senders i).rest.length = s.left + sender.rest.length := by
  have hsplit : ∀ u : UartTasks k, u.left =
      (u.senders i).rest.length + ∑ j ∈ Finset.univ.erase i, (u.senders j).rest.length :=
    fun u => (Finset.add_sum_erase _ _ (Finset.mem_univ i)).symm
  have hothers : ∑ j ∈ Finset.univ.erase i, ((s.setSender i sender).senders j).rest.length =
      ∑ j ∈ Finset.univ.erase i, (s.senders j).rest.length := by
    apply Finset.sum_congr rfl
    intro j hj
    rw [setSender_other s i sender (Finset.ne_of_mem_erase hj)]
  rw [hsplit (s.setSender i sender), hsplit s, hothers, setSender_self]
  omega

end Frame

/-- A word that the queue takes is the next one of its task. -/
theorem sentBy_put (uwData : UInt8) (j : Fin k) :
    ({ s with txfifo := s.txfifo ++ [(i, uwData)] } : UartTasks k).sentBy j =
      s.sentBy j ++ if i = j then [uwData] else [] := by
  simp only [UartTasks.sentBy, ← List.append_assoc, List.filter_append, List.map_append]
  congr 1
  by_cases hij : i = j <;> simp [hij]

/-- Nothing appears from nowhere, and as long as nothing was lost the bytes of
each task are in the order in which it has them. -/
structure Sends (data : Fin k → List UInt8) (s : UartTasks k) : Prop where
  conserved : s.lost.length + s.line.length + s.txfifo.length + s.left =
    ∑ i, (data i).length
  order : s.lost = [] → ∀ i, s.sentBy i ++ (s.senders i).rest = data i

theorem sends_put {uwData : UInt8} {rest : List UInt8} (h : Sends data s)
    (hsender : s.senders i = ⟨uwData :: rest, .putData⟩) :
    Sends data
      (UartTasks.setSender { s with txfifo := s.txfifo ++ [(i, uwData)] } i ⟨rest, .isFull⟩) := by
  constructor
  · have hleft := setSender_left { s with txfifo := s.txfifo ++ [(i, uwData)] } i ⟨rest, .isFull⟩
    have hsame : UartTasks.left { s with txfifo := s.txfifo ++ [(i, uwData)] } = s.left := rfl
    have hconserved := h.conserved
    simp only [hsender, hsame, List.length_cons] at hleft
    simp only [setSender_lost, setSender_line, setSender_txfifo, List.length_append,
      List.length_singleton]
    omega
  · intro hlost j
    have horder := h.order hlost j
    rw [setSender_sentBy, sentBy_put]
    by_cases hij : i = j
    · subst hij
      rw [setSender_self, if_pos rfl, List.append_assoc, ← horder, hsender]
      rfl
    · rw [setSender_other _ _ _ (Ne.symm hij), if_neg hij, List.append_nil]
      exact horder

theorem sends_drop {uwData : UInt8} {rest : List UInt8} (h : Sends data s)
    (hsender : s.senders i = ⟨uwData :: rest, .putData⟩) :
    Sends data
      (UartTasks.setSender { s with lost := s.lost ++ [(i, uwData)] } i ⟨rest, .isFull⟩) := by
  constructor
  · have hleft := setSender_left { s with lost := s.lost ++ [(i, uwData)] } i ⟨rest, .isFull⟩
    have hsame : UartTasks.left { s with lost := s.lost ++ [(i, uwData)] } = s.left := rfl
    have hconserved := h.conserved
    simp only [hsender, hsame, List.length_cons] at hleft
    simp only [setSender_lost, setSender_line, setSender_txfifo, List.length_append,
      List.length_singleton]
    omega
  · intro hlost
    exact absurd hlost (by simp)

theorem sends_invariant (data : Fin k → List UInt8) :
    Invariant (uartTasks data) (Sends data) where
  init s h := by
    obtain rfl : s = UartTasks.start data := h
    refine ⟨?_, fun _ _ => rfl⟩
    exact Nat.zero_add _
  step s l t h hstep := by
    cases uart_steps hstep with
    | spin => exact h
    | @isFull i uwData rest hsender hroom =>
        constructor
        · have hleft := setSender_left s i ⟨uwData :: rest, .putData⟩
          have hconserved := h.conserved
          simp only [hsender] at hleft
          simp only [setSender_lost, setSender_line, setSender_txfifo]
          omega
        · intro hlost j
          have horder := h.order hlost j
          by_cases hji : j = i
          · subst hji
            rw [hsender] at horder
            simpa using horder
          · rw [setSender_other _ _ _ hji]
            exact horder
    | putData hsender hroom => exact sends_put h hsender
    | drop hsender hfull => exact sends_drop h hsender
    | @shift word words hqueue =>
        constructor
        · have hconserved := h.conserved
          rw [hqueue] at hconserved
          simp only [List.length_cons, List.length_append] at hconserved ⊢
          change s.lost.length + (s.line.length + 1) + words.length + s.left = _
          omega
        · intro hlost j
          have hsame : s.line ++ [word] ++ words = s.line ++ s.txfifo := by
            rw [hqueue, List.append_assoc]
            rfl
          rw [UartTasks.sentBy, hsame]
          exact h.order hlost j

/-- Either everything fits the queue, or only one task has something to send. -/
def Separate (data : Fin k → List UInt8) : Prop :=
  ∑ i, (data i).length ≤ txfifoSize ∨ ∃ i, ∀ j, j ≠ i → data j = []

section Lossless

/-- The room that a task has seen is still there when it puts its byte. -/
structure Undisturbed (i : Fin k) (s : UartTasks k) : Prop where
  lost : s.lost = []
  room : (s.senders i).pc = .putData → s.txfifo.length < txfifoSize
  alone : ∀ j, j ≠ i → (s.senders j).rest = []

theorem undisturbed_invariant (hothers : ∀ j, j ≠ i → data j = []) :
    Invariant (uartTasks data) (Undisturbed i) where
  init s h := by
    obtain rfl : s = UartTasks.start data := h
    exact ⟨rfl, by simp [UartTasks.start], hothers⟩
  step s l t h hstep := by
    have hactive : ∀ {j : Fin k} {uwData : UInt8} {rest : List UInt8} {pc : SendPc},
        s.senders j = ⟨uwData :: rest, pc⟩ → j = i := by
      intro j uwData rest pc hsender
      by_contra hne
      have hempty := h.alone j hne
      rw [hsender] at hempty
      cases hempty
    have halone : ∀ (u : UartTasks k) (sender : Sender), u.senders = s.senders → ∀ j, j ≠ i →
        ((u.setSender i sender).senders j).rest = [] := by
      intro u sender hsame j hne
      rw [setSender_other _ _ _ hne, hsame]
      exact h.alone j hne
    cases uart_steps hstep with
    | spin => exact h
    | isFull hsender hroom =>
        obtain rfl := hactive hsender
        exact ⟨h.lost, fun _ => hroom, halone s _ rfl⟩
    | putData hsender hroom =>
        obtain rfl := hactive hsender
        refine ⟨h.lost, ?_, halone _ _ rfl⟩
        rw [setSender_self]
        intro hpc
        cases hpc
    | drop hsender hfull =>
        obtain rfl := hactive hsender
        exact absurd (h.room (by rw [hsender])) hfull
    | @shift word words hqueue =>
        refine ⟨h.lost, ?_, h.alone⟩
        intro hpc
        have hroom := h.room hpc
        rw [hqueue] at hroom
        exact Nat.lt_of_succ_lt hroom

/-- What fits the queue altogether never fills it before the last byte. -/
theorem fits_invariant (hfits : ∑ i, (data i).length ≤ txfifoSize) :
    Invariant (uartTasks data) (fun s => Sends data s ∧ s.lost = []) := by
  apply (sends_invariant data).under
  · rintro s rfl
    rfl
  · intro s l t hsends hlost hstep
    cases uart_steps hstep with
    | spin | isFull | putData | shift => exact hlost
    | @drop i uwData rest hsender hfull =>
        have hpos : (s.senders i).rest.length ≤ s.left :=
          Finset.single_le_sum (f := fun j => (s.senders j).rest.length)
            (fun _ _ => Nat.zero_le _) (Finset.mem_univ i)
        have hconserved := hsends.conserved
        rw [hsender, List.length_cons] at hpos
        omega

theorem separate_lossless (h : Separate data) (hs : Reachable (uartTasks data) s) :
    s.lost = [] := by
  rcases h with hfits | ⟨i, hothers⟩
  · exact ((fits_invariant hfits).reachable hs).2
  · exact ((undisturbed_invariant hothers).reachable hs).lost

end Lossless

section Loss

/-- Nothing has left the queue yet, nobody is about to put, and tasks `i` and
`j` still have something to send. -/
structure Filling (data : Fin k → List UInt8) (i j : Fin k) (n : Nat) (s : UartTasks k) :
    Prop where
  reachable : Reachable (uartTasks data) s
  queued : s.txfifo.length = n
  testing : ∀ m, (s.senders m).pc = .isFull
  rest : s.left + n = ∑ m, (data m).length
  first : (s.senders i).rest ≠ []
  second : (s.senders j).rest ≠ []

theorem step_isFull {uwData : UInt8} {rest : List UInt8}
    (hsender : s.senders i = ⟨uwData :: rest, .isFull⟩) (hroom : s.txfifo.length < txfifoSize) :
    (uartTasks data).step s (.send i) (s.setSender i ⟨uwData :: rest, .putData⟩) := by
  change s.next (.send i) = _
  rw [UartTasks.next, hsender]
  change some (s.send i uwData rest .isFull) = _
  rw [UartTasks.send, if_pos hroom]

theorem step_putData {uwData : UInt8} {rest : List UInt8}
    (hsender : s.senders i = ⟨uwData :: rest, .putData⟩) :
    (uartTasks data).step s (.send i) ((s.put i uwData).setSender i ⟨rest, .isFull⟩) := by
  change s.next (.send i) = _
  rw [UartTasks.next, hsender]
  rfl

/-- Task `i` sends a byte while the others do nothing. -/
theorem reachable_send {uwData : UInt8} {rest : List UInt8} (hs : Reachable (uartTasks data) s)
    (hsender : s.senders i = ⟨uwData :: rest, .isFull⟩) (hroom : s.txfifo.length < txfifoSize) :
    Reachable (uartTasks data)
      (UartTasks.setSender { s with txfifo := s.txfifo ++ [(i, uwData)] } i ⟨rest, .isFull⟩) := by
  have htest := hs.next (step_isFull hsender hroom)
  have hput := htest.next (step_putData (setSender_self ..))
  have htaken : (s.setSender i ⟨uwData :: rest, .putData⟩).put i uwData =
      UartTasks.setSender { s with txfifo := s.txfifo ++ [(i, uwData)] } i
        ⟨uwData :: rest, .putData⟩ := by
    rw [UartTasks.put, setSender_txfifo, if_pos hroom]
    rfl
  have htwice : ∀ (u : UartTasks k) (first last : Sender),
      (u.setSender i first).setSender i last = u.setSender i last := by
    intro u first last
    simp only [UartTasks.setSender, Function.update_idem]
  rw [htaken, htwice] at hput
  exact hput

/-- Task `m` sends a byte while the queue has room for it. -/
theorem filling_send {n : Nat} {m : Fin k} {uwData : UInt8} {rest : List UInt8}
    (h : Filling data i j n s) (hn : n < txfifoSize)
    (hsender : (s.senders m).rest = uwData :: rest) (hfirst : m = i → rest ≠ [])
    (hsecond : m = j → rest ≠ []) : ∃ t, Filling data i j (n + 1) t := by
  have hm : s.senders m = ⟨uwData :: rest, .isFull⟩ := by
    rw [← hsender, ← h.testing m]
  have hothers : ∀ m', m' ≠ m → (UartTasks.setSender
      { s with txfifo := s.txfifo ++ [(m, uwData)] } m ⟨rest, .isFull⟩).senders m' =
        s.senders m' :=
    fun m' hne => setSender_other _ _ _ hne
  refine ⟨_, reachable_send h.reachable hm (h.queued ▸ hn), ?_, ?_, ?_, ?_, ?_⟩
  · simp [h.queued]
  · intro m'
    by_cases hm' : m' = m
    · rw [hm', setSender_self]
    · rw [hothers m' hm']
      exact h.testing m'
  · have hleft := setSender_left { s with txfifo := s.txfifo ++ [(m, uwData)] } m ⟨rest, .isFull⟩
    have hsame : UartTasks.left { s with txfifo := s.txfifo ++ [(m, uwData)] } = s.left := rfl
    have hrest := h.rest
    simp only [hm, hsame, List.length_cons] at hleft
    omega
  · by_cases hm' : i = m
    · rw [hm', setSender_self]
      exact hfirst hm'.symm
    · rw [hothers i hm']
      exact h.first
  · by_cases hm' : j = m
    · rw [hm', setSender_self]
      exact hsecond hm'.symm
    · rw [hothers j hm']
      exact h.second

/-- With two bytes to spare there is one that leaves both tasks another. -/
theorem filling_next {n : Nat} (h : Filling data i j n s) (hij : i ≠ j) (hn : n < txfifoSize)
    (hspare : n + 3 ≤ ∑ m, (data m).length) : ∃ t, Filling data i j (n + 1) t := by
  have hlong : ∀ m : Fin k, 2 ≤ (s.senders m).rest.length → ∃ t, Filling data i j (n + 1) t := by
    intro m hm
    have hpos : 0 < (s.senders m).rest.length := by omega
    obtain ⟨uwData, rest, hsender⟩ := List.exists_cons_of_length_pos hpos
    have hne : rest ≠ [] := by
      rintro rfl
      rw [hsender] at hm
      simp at hm
    exact filling_send h hn hsender (fun _ => hne) (fun _ => hne)
  by_cases hfirst : 2 ≤ (s.senders i).rest.length
  · exact hlong i hfirst
  by_cases hsecond : 2 ≤ (s.senders j).rest.length
  · exact hlong j hsecond
  -- both have one byte: a third task has the rest
  have hthird : ∃ m, m ≠ i ∧ m ≠ j ∧ (s.senders m).rest ≠ [] := by
    by_contra hnone
    have hpair : ∑ m ∈ {i, j}, (s.senders m).rest.length = s.left := by
      apply Finset.sum_subset (Finset.subset_univ _)
      intro m _ hm
      rw [Finset.mem_insert, Finset.mem_singleton, not_or] at hm
      by_contra hlength
      exact hnone ⟨m, hm.1, hm.2, fun hempty => hlength (List.length_eq_zero_iff.mpr hempty)⟩
    rw [Finset.sum_pair hij] at hpair
    have hrest := h.rest
    omega
  obtain ⟨m, hmi, hmj, hne⟩ := hthird
  obtain ⟨uwData, rest, hsender⟩ := List.exists_cons_of_ne_nil hne
  exact filling_send h hn hsender (fun hm => absurd hm hmi) (fun hm => absurd hm hmj)

/-- The queue is one word short of full, and two tasks still have something. -/
theorem filling_last (hij : i ≠ j) (hi : data i ≠ []) (hj : data j ≠ [])
    (hmore : txfifoSize < ∑ m, (data m).length) :
    ∃ s, Filling data i j (txfifoSize - 1) s := by
  have hfill : ∀ n, n ≤ txfifoSize - 1 → ∃ s, Filling data i j n s := by
    intro n
    induction n with
    | zero =>
        intro _
        exact ⟨_, reachable_init rfl, rfl, fun _ => rfl, rfl, hi, hj⟩
    | succ n ih =>
        intro hn
        rw [txfifoSize] at hn hmore
        obtain ⟨s, hs⟩ := ih (by rw [txfifoSize]; omega)
        exact filling_next hs hij (by rw [txfifoSize]; omega) (by omega)
  exact hfill _ (le_refl _)

/-- Both tasks see the last place free, and both put their byte. -/
theorem loss_reachable (hij : i ≠ j) (hi : data i ≠ []) (hj : data j ≠ [])
    (hmore : txfifoSize < ∑ m, (data m).length) :
    ∃ s, Reachable (uartTasks data) s ∧ s.lost ≠ [] := by
  obtain ⟨s, hs⟩ := filling_last hij hi hj hmore
  obtain ⟨first, rest, hfirst⟩ := List.exists_cons_of_ne_nil hs.first
  obtain ⟨second, rest', hsecond⟩ := List.exists_cons_of_ne_nil hs.second
  have hqueued := hs.queued
  have hsi : s.senders i = ⟨first :: rest, .isFull⟩ := by
    rw [← hfirst, ← hs.testing i]
  have hsj : s.senders j = ⟨second :: rest', .isFull⟩ := by
    rw [← hsecond, ← hs.testing j]
  have hroom : s.txfifo.length < txfifoSize := by
    rw [hqueued]
    decide
  have hone := hs.reachable.next (step_isFull hsi hroom)
  have hsj' : (s.setSender i ⟨first :: rest, .putData⟩).senders j = ⟨second :: rest', .isFull⟩ := by
    rw [setSender_other _ _ _ hij.symm]
    exact hsj
  have htwo := reachable_send hone hsj' hroom
  have hpending : (UartTasks.setSender
      { s.setSender i ⟨first :: rest, .putData⟩ with
        txfifo := (s.setSender i ⟨first :: rest, .putData⟩).txfifo ++ [(j, second)] } j
      ⟨rest', .isFull⟩).senders i = ⟨first :: rest, .putData⟩ := by
    rw [setSender_other _ _ _ hij]
    exact setSender_self ..
  refine ⟨_, htwo.next (step_putData hpending), ?_⟩
  rw [UartTasks.put, if_neg]
  · simp
  · simp [hqueued, txfifoSize]

end Loss

/-- Every word was put by one of the tasks. -/
theorem sum_filter_length (words : List (Fin k × UInt8)) :
    ∑ i, (words.filter fun word => decide (word.1 = i)).length = words.length := by
  induction words with
  | nil => simp
  | cons word words ih =>
      have hone : ∀ i, ((word :: words).filter fun word => decide (word.1 = i)).length =
          (if word.1 = i then 1 else 0) +
            (words.filter fun word => decide (word.1 = i)).length := by
        intro i
        rw [List.filter_cons]
        split_ifs <;> simp_all
        omega
      simp only [hone, Finset.sum_add_distrib, Finset.sum_ite_eq, Finset.mem_univ, if_true, ih,
        List.length_cons]
      omega

/-- When every task's bytes are accounted for, nothing was lost. -/
theorem kept_lossless (hs : Reachable (uartTasks data) s)
    (hkept : ∀ i, s.sentBy i ++ (s.senders i).rest = data i) : s.lost = [] := by
  have hconserved := ((sends_invariant data).reachable hs).conserved
  have hsum : (s.line ++ s.txfifo).length + s.left = ∑ i, (data i).length := by
    rw [← sum_filter_length (s.line ++ s.txfifo), UartTasks.left, ← Finset.sum_add_distrib]
    apply Finset.sum_congr rfl
    intro i _
    rw [← hkept i, List.length_append, UartTasks.sentBy, List.length_map]
  rw [List.length_append] at hsum
  exact List.length_eq_zero_iff.mp (by omega)

/-- Whatever the tasks write and however their statements and the channel
interleave: the bytes of each task go out complete and in order in every run, if
and only if the queue holds all of them or only one task writes. -/
theorem uart_tasks_separate_iff (data : Fin k → List UInt8) :
    (∀ s, Reachable (uartTasks data) s → ∀ i, s.sentBy i ++ (s.senders i).rest = data i) ↔
      Separate data := by
  constructor
  · intro hkept
    by_contra hmixed
    rw [Separate, not_or, not_le, not_exists] at hmixed
    obtain ⟨hmore, hmany⟩ := hmixed
    have hone : ∃ i, data i ≠ [] := by
      by_contra hnone
      have hzero : ∑ i, (data i).length = 0 := by
        apply Finset.sum_eq_zero
        intro i _
        by_contra hlength
        exact hnone ⟨i, fun hempty => hlength (List.length_eq_zero_iff.mpr hempty)⟩
      omega
    obtain ⟨i, hi⟩ := hone
    obtain ⟨j, hj⟩ := not_forall.mp (hmany i)
    obtain ⟨hne, hj⟩ := Classical.not_imp.mp hj
    obtain ⟨s, hs, hlost⟩ := loss_reachable hne.symm hi hj hmore
    exact hlost (kept_lossless hs (hkept s hs))
  · intro hseparate s hs
    exact ((sends_invariant data).reachable hs).order (separate_lossless hseparate hs)

end PascalScheduler.Sys
