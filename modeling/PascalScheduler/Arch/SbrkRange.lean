import PascalScheduler.Arch.MemoryLayout

/-!
`sys_sbrk` with every request an `int` can make, failed calls included. The
limit test looks at the upper end of the heap only. A request that leads below
address 0 wraps and is refused like one that is too large; a request that stays
above it but below `__heap` is granted.
-/

namespace PascalScheduler

open Transition

/-- All calls of `sys_sbrk` from the start of the image. -/
def sbrkCalls (L : Layout) : System Heap Int32 where
  init h := h = L.heap
  step h nbytes h' := h' = (sysSbrk nbytes h).1

/-- The break stays in the heap, and either the call fails with `ENOMEM` and
leaves it, or it returns the break of before and moves it by `nbytes`. -/
def SbrkOk (L : Layout) (h : Heap) (nbytes : Int32) : Prop :=
  let answer := sysSbrk nbytes h
  (L.heapStart ≤ answer.1.heapTop.toNat ∧ answer.1.heapTop.toNat ≤ L.heapEnd) ∧
    (answer.2 = sbrkFailed ∧ answer.1 = { h with errno := enomem } ∨
      answer.2 = h.heapTop ∧
        (answer.1.heapTop.toNat : Int) = h.heapTop.toNat + nbytes.toInt)

/-- The request does not lead into the memory below the heap. -/
def SbrkFits (L : Layout) (h : Heap) (nbytes : Int32) : Prop :=
  h.heapTop.toNat + nbytes.toInt < 0 ∨ L.heapStart ≤ h.heapTop.toNat + nbytes.toInt

/-- A break in the heap of the layout. -/
structure InHeap (L : Layout) (h : Heap) : Prop where
  low : L.heapStart ≤ h.heapTop.toNat
  high : h.heapTop.toNat ≤ L.heapEnd
  limit : h.heapEnd.toNat = L.heapEnd

variable {L : Layout} {h : Heap} {nbytes : Int32}

theorem InHeap.init (L : Layout) : InHeap L L.heap := by
  have hbounds := L.bounds
  have hsize : UInt32.size = 2 ^ 32 := rfl
  have htop : (UInt32.ofNat L.bssEnd).toNat = L.bssEnd := UInt32.toNat_ofNat_of_lt' (by omega)
  have hend : (UInt32.ofNat L.heapEnd).toNat = L.heapEnd := UInt32.toNat_ofNat_of_lt' (by omega)
  exact ⟨htop.ge, htop.trans_le hbounds.1, hend⟩

/-- The sum that the limit test looks at. -/
theorem sbrk_sum (nbytes : Int32) (htop : h.heapTop.toNat < 2 ^ 30) :
    ((h.heapTop + nbytes.toUInt32).toNat : Int) =
      if h.heapTop.toNat + nbytes.toInt < 0 then h.heapTop.toNat + nbytes.toInt + 2 ^ 32
      else h.heapTop.toNat + nbytes.toInt := by
  have hlow := nbytes.le_toInt
  have hhigh := nbytes.toInt_lt
  have hword : (nbytes.toUInt32.toNat : Int) = nbytes.toInt % 2 ^ 32 := by
    have hbits := BitVec.toInt_eq_toNat_cond nbytes.toBitVec
    have hlt := nbytes.toBitVec.isLt
    change ((nbytes.toBitVec.toNat : Nat) : Int) = nbytes.toBitVec.toInt % 2 ^ 32
    split at hbits <;> omega
  rw [UInt32.toNat_add, Int.natCast_emod, Int.natCast_add, hword]
  split <;> omega

theorem sbrkOk_iff (hin : InHeap L h) : SbrkOk L h nbytes ↔ SbrkFits L h nbytes := by
  have hbounds := L.bounds
  have htop : h.heapTop.toNat < 2 ^ 30 := by have := hin.high; omega
  have hsum := sbrk_sum nbytes htop
  have hlow := hin.low
  have hhigh := hin.high
  have hlower := nbytes.le_toInt
  unfold SbrkOk SbrkFits sysSbrk
  by_cases hrefused : h.heapTop + nbytes.toUInt32 > h.heapEnd
  · have hover := UInt32.lt_iff_toNat_lt.mp hrefused
    rw [hin.limit] at hover
    simp only [if_pos hrefused, true_and]
    split at hsum <;> simp <;> omega
  · have hunder := UInt32.le_iff_toNat_le.mp (UInt32.not_lt.mp hrefused)
    rw [hin.limit] at hunder
    simp only [if_neg hrefused, true_and]
    split at hsum <;> omega

theorem sysSbrk_heapEnd : (sysSbrk nbytes h).1.heapEnd = h.heapEnd := by
  unfold sysSbrk
  split <;> rfl

theorem SbrkOk.inHeap (hin : InHeap L h) (hok : SbrkOk L h nbytes) :
    InHeap L (sysSbrk nbytes h).1 :=
  ⟨hok.1.1, hok.1.2, by rw [sysSbrk_heapEnd, hin.limit]⟩

/-- Along every sequence of calls, all of them do what they should, and keep the
break in the heap, if and only if none asks for a break between address 0 and
`__heap`. -/
theorem sbrk_range_iff (L : Layout) (h : Heap) (tr : List (Event Heap Int32))
    (hpath : Path (sbrkCalls L) L.heap tr h) :
    (∀ e ∈ tr, SbrkOk L e.pre e.label) ↔ ∀ e ∈ tr, SbrkFits L e.pre e.label := by
  refine hpath.forall_iff (P := InHeap L) ?_ ?_ (InHeap.init L)
  · intro h nbytes h' hin _
    exact sbrkOk_iff hin
  · rintro h nbytes h' hin rfl hok
    exact hok.inHeap hin

/-- The first request releases one byte: the break is below the heap. -/
theorem sbrk_below_heap :
    ∃ h tr, Path (sbrkCalls smallImage) smallImage.heap tr h ∧
      tr.map Event.label = [-1] ∧ h.heapTop.toNat < smallImage.heapStart ∧
      ¬ ∀ e ∈ tr, SbrkOk smallImage e.pre e.label := by
  have hbelow : (sysSbrk (-1) smallImage.heap).1.heapTop.toNat < smallImage.heapStart := by
    decide
  refine ⟨_, _, .single rfl, rfl, hbelow, ?_⟩
  intro hall
  have hok := hall _ (List.mem_singleton_self _)
  exact absurd hok.1.1 (Nat.not_le.mpr hbelow)

/-- Growth, release, and requests that are refused at either end. -/
theorem sbrk_range_iff_refused :
    ∃ h tr, Path (sbrkCalls smallImage) smallImage.heap tr h ∧
      tr.map Event.label = [4096, 1, -96, Int32.maxValue, Int32.minValue] ∧
      ∀ e ∈ tr, SbrkOk smallImage e.pre e.label := by
  have hpath : Path (sbrkCalls smallImage) smallImage.heap _ _ :=
    .cons (a := 4096) rfl (.cons (a := 1) rfl (.cons (a := -96) rfl
      (.cons (a := Int32.maxValue) rfl (.single (a := Int32.minValue) rfl))))
  refine ⟨_, _, hpath, rfl, ?_⟩
  rw [sbrk_range_iff _ _ _ hpath]
  simp only [List.forall_mem_cons, SbrkFits]
  decide

end PascalScheduler
