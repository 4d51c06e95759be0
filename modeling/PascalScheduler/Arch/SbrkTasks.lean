import PascalScheduler.Arch.MemoryLayout

/-!
`sys_sbrk` called by several tasks. It is no system call, so a tick can switch
tasks between any two of its statements, and what the limit test and the base
found need not hold any more when `heap_top` is moved.
-/

namespace PascalScheduler

open Transition

/-- The next statement of a call; `idle` is outside of `sys_sbrk`. -/
inductive SbrkPc where
  | idle
  | limit (nbytes : Int32)
  | base (nbytes : Int32)
  | update (nbytes : Int32) (base : UInt32)
  | finish (nbytes : Int32) (base : UInt32)
  deriving DecidableEq

/-- The heap, where the tasks are, and the blocks returned so far. -/
structure SbrkTasks (ι : Type*) where
  heap : Heap
  pc : ι → SbrkPc
  returned : List (UInt32 × Int32)

inductive SbrkAct (ι : Type*) where
  | call (i : ι) (nbytes : Int32)
  | run (i : ι)

section Tasks

variable {ι : Type*} [DecidableEq ι]

def SbrkTasks.setPc (s : SbrkTasks ι) (i : ι) (pc : SbrkPc) : SbrkTasks ι :=
  { s with pc := Function.update s.pc i pc }

section SetPc

variable (s : SbrkTasks ι) (i : ι) (pc : SbrkPc)

@[simp] theorem SbrkTasks.setPc_self : (s.setPc i pc).pc i = pc := by
  simp [SbrkTasks.setPc]

theorem SbrkTasks.setPc_other {j : ι} (h : j ≠ i) : (s.setPc i pc).pc j = s.pc j := by
  simp [SbrkTasks.setPc, h]

@[simp] theorem SbrkTasks.setPc_heap : (s.setPc i pc).heap = s.heap := rfl

end SetPc

/-- A task calls `sys_sbrk`, or runs the next statement of its call. -/
def sbrkNext (s : SbrkTasks ι) : SbrkAct ι → Option (SbrkTasks ι)
  | .call i nbytes =>
      if s.pc i = .idle ∧ 0 ≤ nbytes then some (s.setPc i (.limit nbytes)) else none
  | .run i =>
      match s.pc i with
      | .idle => none
      | .limit nbytes =>
          if SbrkFails nbytes s.heap then
            some ({ s with heap := { s.heap with errno := enomem } }.setPc i .idle)
          else some (s.setPc i (.base nbytes))
      | .base nbytes => some (s.setPc i (.update nbytes s.heap.heapTop))
      | .update nbytes base =>
          some ({ s with heap :=
            { s.heap with heapTop := s.heap.heapTop + nbytes.toUInt32 } }.setPc i
              (.finish nbytes base))
      | .finish nbytes base =>
          some ({ s with returned := s.returned ++ [(base, nbytes)] }.setPc i .idle)

/-- No call has been made yet. -/
def noCalls (ι : Type*) (L : Layout) : SbrkTasks ι where
  heap := L.heap
  pc _ := .idle
  returned := []

/-- The tasks and their calls, scheduled in any order. -/
def sbrkTasks (ι : Type*) [DecidableEq ι] (L : Layout) : System (SbrkTasks ι) (SbrkAct ι) where
  init s := s = noCalls ι L
  step s a t := sbrkNext s a = some t

/-- Every step, with everything it can do. -/
inductive SbrkStep (s : SbrkTasks ι) : SbrkAct ι → SbrkTasks ι → Prop where
  | call {i : ι} {nbytes : Int32} (idle : s.pc i = .idle) (nonneg : 0 ≤ nbytes) :
      SbrkStep s (.call i nbytes) (s.setPc i (.limit nbytes))
  | fails {i : ι} {nbytes : Int32} (pc : s.pc i = .limit nbytes)
      (full : SbrkFails nbytes s.heap) :
      SbrkStep s (.run i) ({ s with heap := { s.heap with errno := enomem } }.setPc i .idle)
  | fits {i : ι} {nbytes : Int32} (pc : s.pc i = .limit nbytes)
      (room : ¬ SbrkFails nbytes s.heap) :
      SbrkStep s (.run i) (s.setPc i (.base nbytes))
  | base {i : ι} {nbytes : Int32} (pc : s.pc i = .base nbytes) :
      SbrkStep s (.run i) (s.setPc i (.update nbytes s.heap.heapTop))
  | update {i : ι} {nbytes : Int32} {base : UInt32} (pc : s.pc i = .update nbytes base) :
      SbrkStep s (.run i) ({ s with heap :=
        { s.heap with heapTop := s.heap.heapTop + nbytes.toUInt32 } }.setPc i
          (.finish nbytes base))
  | finish {i : ι} {nbytes : Int32} {base : UInt32} (pc : s.pc i = .finish nbytes base) :
      SbrkStep s (.run i) ({ s with returned := s.returned ++ [(base, nbytes)] }.setPc i .idle)

theorem sbrk_step {s t : SbrkTasks ι} {a : SbrkAct ι} (hstep : sbrkNext s a = some t) :
    SbrkStep s a t := by
  cases a with
  | call i nbytes =>
      rw [sbrkNext] at hstep
      split at hstep
      · rename_i hguard
        obtain rfl := Option.some.inj hstep
        exact .call hguard.1 hguard.2
      · cases hstep
  | run i =>
      rw [sbrkNext] at hstep
      cases hpc : s.pc i with
      | idle =>
          rw [hpc] at hstep
          cases hstep
      | limit nbytes =>
          rw [hpc] at hstep
          dsimp only at hstep
          split at hstep
          · rename_i hfull
            obtain rfl := Option.some.inj hstep
            exact .fails hpc hfull
          · rename_i hroom
            obtain rfl := Option.some.inj hstep
            exact .fits hpc hroom
      | base nbytes =>
          rw [hpc] at hstep
          obtain rfl := Option.some.inj hstep
          exact .base hpc
      | update nbytes base =>
          rw [hpc] at hstep
          obtain rfl := Option.some.inj hstep
          exact .update hpc
      | finish nbytes base =>
          rw [hpc] at hstep
          obtain rfl := Option.some.inj hstep
          exact .finish hpc

/-- The blocks returned do not overlap, and lie in the heap. -/
structure BlocksSafe (L : Layout) (s : SbrkTasks ι) : Prop where
  disjoint : ∀ (k l : Nat) (x y : UInt32 × Int32), k ≠ l →
    s.returned[k]? = some x → s.returned[l]? = some y →
    Disjoint (heapBlock x.1 x.2) (heapBlock y.1 y.2)
  inside : ∀ x ∈ s.returned, ∀ a ∈ heapBlock x.1 x.2,
    L.heapStart ≤ a.toNat ∧ a.toNat < L.heapEnd

/-- A call that is about to move `heap_top` by some bytes finds it where it took
its base, and the limit test would still pass. -/
def SbrkPc.Undisturbed (h : Heap) : SbrkPc → Prop
  | .update nbytes found => nbytes ≠ 0 → found = h.heapTop ∧ ¬ SbrkFails nbytes h
  | .idle => True
  | .limit _ => True
  | .base _ => True
  | .finish _ _ => True

instance (h : Heap) (pc : SbrkPc) : Decidable (pc.Undisturbed h) :=
  match pc with
  | .update nbytes found => inferInstanceAs
      (Decidable (nbytes ≠ 0 → found = h.heapTop ∧ ¬ SbrkFails nbytes h))
  | .idle => .isTrue trivial
  | .limit _ => .isTrue trivial
  | .base _ => .isTrue trivial
  | .finish _ _ => .isTrue trivial

def Undisturbed (s : SbrkTasks ι) : SbrkAct ι → Prop
  | .call _ _ => True
  | .run i => (s.pc i).Undisturbed s.heap

instance (s : SbrkTasks ι) (a : SbrkAct ι) : Decidable (Undisturbed s a) :=
  match a with
  | .call _ _ => .isTrue trivial
  | .run i => inferInstanceAs (Decidable ((s.pc i).Undisturbed s.heap))

/-- Without a switch the four statements are `sysSbrk`. -/
theorem sbrk_uninterrupted (s : SbrkTasks ι) (i : ι) (nbytes : Int32) (hidle : s.pc i = .idle)
    (hnonneg : 0 ≤ nbytes) (hok : ¬ SbrkFails nbytes s.heap) :
    run sbrkNext s [.call i nbytes, .run i, .run i, .run i, .run i] =
      some { heap := (sysSbrk nbytes s.heap).1
             pc := Function.update s.pc i .idle
             returned := s.returned ++ [((sysSbrk nbytes s.heap).2, nbytes)] } := by
  have hsbrk : sysSbrk nbytes s.heap =
      ({ s.heap with heapTop := s.heap.heapTop + nbytes.toUInt32 }, s.heap.heapTop) := if_neg hok
  simp [run, sbrkNext, SbrkTasks.setPc, hidle, hnonneg, hok, hsbrk]

/-- A block that has been cut off the heap: `inl` for a call about to return it,
`inr` for one that is returned. -/
def Holds (s : SbrkTasks ι) : ι ⊕ Nat → UInt32 × Int32 → Prop
  | .inl i, x => s.pc i = .finish x.2 x.1
  | .inr k, x => s.returned[k]? = some x

/-- The block ends below `heap_top`. -/
structure Below (L : Layout) (h : Heap) (x : UInt32 × Int32) : Prop where
  nonneg : 0 ≤ x.2.toInt
  low : L.heapStart ≤ x.1.toNat
  high : x.1.toNat + x.2.toInt ≤ h.heapTop.toNat

/-- What a task knows at each statement. -/
def PcOk (L : Layout) (h : Heap) : SbrkPc → Prop
  | .idle => True
  | .limit nbytes => 0 ≤ nbytes.toInt
  | .base nbytes => 0 ≤ nbytes.toInt
  | .update nbytes base =>
      0 ≤ nbytes.toInt ∧ L.heapStart ≤ base.toNat ∧ base.toNat ≤ h.heapTop.toNat
  | .finish _ _ => True

structure SbrkInv (L : Layout) (s : SbrkTasks ι) : Prop where
  low : L.heapStart ≤ s.heap.heapTop.toNat
  high : s.heap.heapTop.toNat ≤ L.heapEnd
  heapEnd : s.heap.heapEnd.toNat = L.heapEnd
  pc : ∀ i, PcOk L s.heap (s.pc i)
  below : ∀ key x, Holds s key x → Below L s.heap x
  apart : ∀ key key' x y, key ≠ key' → Holds s key x → Holds s key' y →
    Disjoint (heapBlock x.1 x.2) (heapBlock y.1 y.2)

section Blocks

variable {L : Layout} {s : SbrkTasks ι} {i : ι}

omit [DecidableEq ι] in
theorem Below.mono {h h' : Heap} {x : UInt32 × Int32} (hx : Below L h x)
    (hle : h.heapTop.toNat ≤ h'.heapTop.toNat) : Below L h' x := by
  have hhigh := hx.high
  exact ⟨hx.nonneg, hx.low, by omega⟩

theorem PcOk.mono {h h' : Heap} {pc : SbrkPc} (hpc : PcOk L h pc)
    (hle : h.heapTop.toNat ≤ h'.heapTop.toNat) : PcOk L h' pc := by
  cases pc with
  | update nbytes base => exact ⟨hpc.1, hpc.2.1, hpc.2.2.trans hle⟩
  | idle => exact hpc
  | limit nbytes => exact hpc
  | base nbytes => exact hpc
  | finish nbytes base => exact hpc

/-- A block below `heap_top` and one from there on do not overlap. -/
theorem disjoint_top {h : Heap} {x : UInt32 × Int32} (hx : Below L h x) (nbytes : Int32) :
    Disjoint (heapBlock x.1 x.2) (heapBlock h.heapTop nbytes) := by
  rw [Set.disjoint_left]
  rintro a ⟨_, hend⟩ ⟨hstart, _⟩
  have hhigh := hx.high
  rw [UInt32.le_iff_toNat_le] at hstart
  omega

theorem heapBlock_zero (base : UInt32) : heapBlock base 0 = ∅ := by
  apply Set.eq_empty_of_forall_notMem
  rintro a ⟨hstart, hend⟩
  rw [UInt32.le_iff_toNat_le] at hstart
  rw [Int32.toInt_zero] at hend
  omega

/-- A block that is held after a task has moved on was held before, unless it
is the one that the task has just cut off. -/
theorem Holds.of_setPc {pc : SbrkPc} {key : ι ⊕ Nat} {x : UInt32 × Int32}
    (h : Holds (s.setPc i pc) key x) :
    Holds s key x ∧ key ≠ .inl i ∨ key = .inl i ∧ pc = .finish x.2 x.1 := by
  cases key with
  | inr k => exact .inl ⟨h, nofun⟩
  | inl j =>
      by_cases hj : j = i
      · subst hj
        rw [Holds, SbrkTasks.setPc_self] at h
        exact .inr ⟨rfl, h⟩
      · rw [Holds, SbrkTasks.setPc_other s i pc hj] at h
        exact .inl ⟨h, fun heq => hj (Sum.inl.inj heq)⟩

theorem Holds.setPc {pc : SbrkPc} {key : ι ⊕ Nat} {x : UInt32 × Int32} (h : Holds s key x)
    (hne : key ≠ .inl i) : Holds (s.setPc i pc) key x := by
  cases key with
  | inr k => exact h
  | inl j => exact (SbrkTasks.setPc_other s i pc fun heq => hne (congrArg Sum.inl heq)).trans h

theorem SbrkInv.setPc_ok (h : SbrkInv L s) {heap : Heap} {pc : SbrkPc} (hok : PcOk L heap pc)
    (hle : s.heap.heapTop.toNat ≤ heap.heapTop.toNat) (j : ι) :
    PcOk L heap ((s.setPc i pc).pc j) := by
  by_cases hj : j = i
  · subst hj
    rw [SbrkTasks.setPc_self]
    exact hok
  · rw [SbrkTasks.setPc_other s i pc hj]
    exact (h.pc j).mono hle

/-- A statement that moves neither `heap_top` nor a block. -/
theorem SbrkInv.setPc (h : SbrkInv L s) {pc : SbrkPc} (hok : PcOk L s.heap pc)
    (hpc : ∀ nbytes base, pc ≠ .finish nbytes base) : SbrkInv L (s.setPc i pc) := by
  have hback : ∀ key x, Holds (s.setPc i pc) key x → Holds s key x := by
    intro key x hx
    rcases hx.of_setPc with ⟨hold, _⟩ | ⟨_, hnew⟩
    · exact hold
    · exact absurd hnew (hpc _ _)
  exact {
    low := h.low
    high := h.high
    heapEnd := h.heapEnd
    pc := h.setPc_ok hok (Nat.le_refl _)
    below := fun key x hx => h.below key x (hback key x hx)
    apart := fun key key' x y hne hx hy => h.apart key key' x y hne (hback _ _ hx) (hback _ _ hy) }

omit [DecidableEq ι] in
/-- The heap ends so low that the sum of the limit test does not wrap. -/
theorem SbrkInv.top_add (h : SbrkInv L s) {nbytes : Int32} (hnonneg : 0 ≤ nbytes.toInt) :
    ((s.heap.heapTop + nbytes.toUInt32).toNat : Int) = s.heap.heapTop.toNat + nbytes.toInt := by
  have hbounds := L.bounds
  have hhigh := h.high
  have hmax := nbytes.toInt_lt
  have hle : (0 : Int32) ≤ nbytes := by
    rw [Int32.le_iff_toInt_le]
    exact hnonneg
  have hcount : (nbytes.toUInt32.toNat : Int) = nbytes.toInt := by
    rw [Int32.toNat_toUInt32_of_le hle]
    exact Int.toNat_of_nonneg hnonneg
  have hsum : (s.heap.heapTop + nbytes.toUInt32).toNat =
      s.heap.heapTop.toNat + nbytes.toUInt32.toNat := by
    rw [UInt32.toNat_add]
    exact Nat.mod_eq_of_lt (by omega)
  rw [hsum]
  omega

omit [DecidableEq ι] in
/-- A request that fits leaves `heap_top` in the heap. -/
theorem SbrkInv.top_le (h : SbrkInv L s) {nbytes : Int32} (hnonneg : 0 ≤ nbytes.toInt)
    (hfits : nbytes ≠ 0 → ¬ SbrkFails nbytes s.heap) :
    (s.heap.heapTop + nbytes.toUInt32).toNat ≤ L.heapEnd := by
  by_cases hzero : nbytes = 0
  · have htop := h.top_add hnonneg
    have hhigh := h.high
    rw [hzero, Int32.toInt_zero] at htop
    rw [hzero]
    omega
  · rw [← h.heapEnd]
    exact UInt32.le_iff_toNat_le.mp (UInt32.not_lt.mp (hfits hzero))

/-- `heap_top += nbytes`, when the base is still `heap_top` and the block fits. -/
theorem SbrkInv.update (h : SbrkInv L s) {nbytes : Int32} {base : UInt32}
    (hpc : s.pc i = .update nbytes base)
    (hfits : nbytes ≠ 0 → base = s.heap.heapTop ∧ ¬ SbrkFails nbytes s.heap) :
    SbrkInv L (({ s with heap := { s.heap with
      heapTop := s.heap.heapTop + nbytes.toUInt32 } } : SbrkTasks ι).setPc i
        (.finish nbytes base)) := by
  have hok := h.pc i
  rw [hpc] at hok
  obtain ⟨hnonneg, hlow, hbelow⟩ := hok
  have htop := h.top_add hnonneg
  have hle : s.heap.heapTop.toNat ≤ (s.heap.heapTop + nbytes.toUInt32).toNat := by omega
  have hend := h.top_le hnonneg fun hne => (hfits hne).2
  -- the new block starts where all others have ended
  have hnew : ∀ key x, Holds s key x → Disjoint (heapBlock x.1 x.2) (heapBlock base nbytes) := by
    intro key x hx
    by_cases hzero : nbytes = 0
    · rw [hzero, heapBlock_zero]
      exact Set.disjoint_empty _
    · rw [(hfits hzero).1]
      exact disjoint_top (h.below key x hx) nbytes
  constructor
  · exact h.low.trans hle
  · exact hend
  · exact h.heapEnd
  · exact h.setPc_ok trivial hle
  · intro key x hx
    rcases hx.of_setPc with ⟨hold, _⟩ | ⟨_, hself⟩
    · exact (h.below key x hold).mono hle
    · obtain ⟨rfl, rfl⟩ := SbrkPc.finish.inj hself
      refine ⟨hnonneg, hlow, ?_⟩
      rw [SbrkTasks.setPc_heap, htop]
      omega
  · intro key key' x y hne hx hy
    rcases hx.of_setPc with ⟨hxold, _⟩ | ⟨rfl, hself⟩ <;>
      rcases hy.of_setPc with ⟨hyold, _⟩ | ⟨rfl, hself'⟩
    · exact h.apart key key' x y hne hxold hyold
    · obtain ⟨rfl, rfl⟩ := SbrkPc.finish.inj hself'
      exact hnew key x hxold
    · obtain ⟨rfl, rfl⟩ := SbrkPc.finish.inj hself
      exact (hnew key' y hyold).symm
    · exact absurd rfl hne

/-- Who held the block of `key` before task `i` returned its own as number `k`
of the list. -/
def heldBefore (i : ι) (k : Nat) (key : ι ⊕ Nat) : ι ⊕ Nat :=
  if key = .inr k then .inl i else key

theorem heldBefore_ne {k : Nat} {key key' : ι ⊕ Nat} (hi : key ≠ .inl i) (hi' : key' ≠ .inl i)
    (hne : key ≠ key') : heldBefore i k key ≠ heldBefore i k key' := by
  unfold heldBefore
  split_ifs with hlast hlast'
  · exact absurd (hlast.trans hlast'.symm) hne
  · exact fun heq => hi' heq.symm
  · exact hi
  · exact hne

/-- After a return each block is held by who held it, or is the last of the
list. -/
theorem Holds.of_finish {nbytes : Int32} {base : UInt32} {key : ι ⊕ Nat} {x : UInt32 × Int32}
    (hpc : s.pc i = .finish nbytes base)
    (hx : Holds (({ s with returned := s.returned ++ [(base, nbytes)] } : SbrkTasks ι).setPc i
      .idle) key x) :
    Holds s (heldBefore i s.returned.length key) x ∧ key ≠ .inl i := by
  rcases hx.of_setPc with ⟨hold, hother⟩ | ⟨_, hself⟩
  · refine ⟨?_, hother⟩
    cases key with
    | inl j => exact hold
    | inr k =>
        change (s.returned ++ [(base, nbytes)])[k]? = some x at hold
        by_cases hlast : k = s.returned.length
        · subst hlast
          obtain rfl : (base, nbytes) = x := by simpa using hold
          rw [heldBefore, if_pos rfl]
          exact hpc
        · have hlt : k < s.returned.length := by
            have hk := (List.getElem?_eq_some_iff.mp hold).1
            simp only [List.length_append, List.length_singleton] at hk
            omega
          rw [List.getElem?_append_left hlt] at hold
          rw [heldBefore, if_neg (by simpa using hlast)]
          exact hold
  · cases hself

/-- The return of a call hands its block over to the list. -/
theorem SbrkInv.finish (h : SbrkInv L s) {nbytes : Int32} {base : UInt32}
    (hpc : s.pc i = .finish nbytes base) :
    SbrkInv L (({ s with returned := s.returned ++ [(base, nbytes)] } : SbrkTasks ι).setPc i
      .idle) := by
  constructor
  · exact h.low
  · exact h.high
  · exact h.heapEnd
  · exact h.setPc_ok trivial (Nat.le_refl _)
  · exact fun key x hx => h.below _ x (hx.of_finish hpc).1
  · intro key key' x y hne hx hy
    obtain ⟨hx, hi⟩ := hx.of_finish hpc
    obtain ⟨hy, hi'⟩ := hy.of_finish hpc
    exact h.apart _ _ x y (heldBefore_ne hi hi' hne) hx hy

end Blocks

section Runs

variable {L : Layout} {s t : SbrkTasks ι} {a : SbrkAct ι}

theorem heap_heapTop (L : Layout) : L.heap.heapTop.toNat = L.heapStart := by
  have hbounds := L.bounds
  apply UInt32.toNat_ofNat_of_lt'
  have hsize : UInt32.size = 2 ^ 32 := rfl
  change L.bssEnd < _
  omega

omit [DecidableEq ι] in
theorem SbrkInv.init : SbrkInv L (noCalls ι L) := by
  obtain ⟨hle, hend⟩ := (heap_invariant L).init L.heap rfl
  refine ⟨(heap_heapTop L).ge, hle, hend, fun _ => trivial, ?_, ?_⟩
  · rintro (j | k) x hx
    · cases hx
    · cases hx
  · rintro (j | k) key' x y _ hx _
    · cases hx
    · cases hx

/-- One statement of a task that is not disturbed. -/
theorem SbrkInv.step (h : SbrkInv L s) (hund : Undisturbed s a) (hstep : sbrkNext s a = some t) :
    SbrkInv L t := by
  cases sbrk_step hstep with
  | call _ hnonneg =>
      refine h.setPc ?_ nofun
      rw [PcOk, ← Int32.toInt_zero]
      exact Int32.le_iff_toInt_le.mp hnonneg
  | fails _ _ =>
      have herrno : SbrkInv L { s with heap := { s.heap with errno := enomem } } :=
        ⟨h.low, h.high, h.heapEnd, fun j => (h.pc j).mono (Nat.le_refl _),
          fun key x hx => (h.below key x hx).mono (Nat.le_refl _), h.apart⟩
      exact herrno.setPc trivial nofun
  | @fits i _ hpc _ =>
      have hok := h.pc i
      rw [hpc] at hok
      exact h.setPc hok nofun
  | @base i _ hpc =>
      have hok := h.pc i
      rw [hpc] at hok
      exact h.setPc ⟨hok, h.low, Nat.le_refl _⟩ nofun
  | update hpc =>
      rw [Undisturbed, hpc] at hund
      exact h.update hpc hund
  | finish hpc => exact h.finish hpc

theorem SbrkInv.path {tr : List (Event (SbrkTasks ι) (SbrkAct ι))} (h : SbrkInv L s)
    (hpath : Path (sbrkTasks ι L) s tr t) (hund : ∀ e ∈ tr, Undisturbed e.pre e.label) :
    SbrkInv L t ∧ ∀ e ∈ tr, SbrkInv L e.pre := by
  induction hpath with
  | nil => exact ⟨h, nofun⟩
  | cons hstep _ ih =>
      obtain ⟨hfirst, hlater⟩ := List.forall_mem_cons.mp hund
      obtain ⟨hlast, hall⟩ := ih (h.step hfirst hstep) hlater
      exact ⟨hlast, List.forall_mem_cons.mpr ⟨h, hall⟩⟩

/-- The blocks that are held do not overlap, and lie in the heap. -/
structure HeldSafe (L : Layout) (s : SbrkTasks ι) : Prop where
  disjoint : ∀ key key' x y, key ≠ key' → Holds s key x → Holds s key' y →
    Disjoint (heapBlock x.1 x.2) (heapBlock y.1 y.2)
  inside : ∀ key x, Holds s key x → ∀ a ∈ heapBlock x.1 x.2,
    L.heapStart ≤ a.toNat ∧ a.toNat < L.heapEnd

omit [DecidableEq ι] in
theorem SbrkInv.held (h : SbrkInv L s) : HeldSafe L s where
  disjoint := h.apart
  inside key x hx a ha := by
    have hbelow := h.below key x hx
    obtain ⟨hstart, hend⟩ := ha
    rw [UInt32.le_iff_toNat_le] at hstart
    have hlow := hbelow.low
    have hhigh := hbelow.high
    have htop := h.high
    omega

omit [DecidableEq ι] in
/-- The blocks returned are among those held, and all of them once every call has
returned. -/
theorem HeldSafe.blocks (h : HeldSafe L s) : BlocksSafe L s where
  disjoint k l x y hne hx hy :=
    h.disjoint (.inr k) (.inr l) x y (fun heq => hne (Sum.inr.inj heq)) hx hy
  inside x hmem := by
    obtain ⟨k, hk, hx⟩ := List.mem_iff_getElem.mp hmem
    exact h.inside (.inr k) x (List.getElem?_eq_some_iff.mpr ⟨hk, hx⟩)

omit [DecidableEq ι] in
theorem BlocksSafe.held (h : BlocksSafe L s) (hidle : ∀ i, s.pc i = .idle) : HeldSafe L s := by
  have hnone : ∀ i x, ¬ Holds s (.inl i) x := by
    intro i x hx
    rw [Holds, hidle i] at hx
    cases hx
  constructor
  · rintro (i | k) (j | l) x y hne hx hy
    · exact absurd hx (hnone i x)
    · exact absurd hx (hnone i x)
    · exact absurd hy (hnone j y)
    · exact h.disjoint k l x y (fun heq => hne (congrArg Sum.inr heq)) hx hy
  · rintro (i | k) x hx
    · exact absurd hx (hnone i x)
    · exact h.inside x (List.mem_of_getElem? hx)

/-- Every byte below `heap_top` has been cut off the heap. -/
def Covered (L : Layout) (s : SbrkTasks ι) : Prop :=
  ∀ a : UInt32, L.heapStart ≤ a.toNat → a.toNat < s.heap.heapTop.toNat →
    ∃ key x, Holds s key x ∧ a ∈ heapBlock x.1 x.2

/-- Whoever holds a block of `s` is somebody in `t` who holds it. -/
def HoldsOn (s t : SbrkTasks ι) : Prop :=
  ∃ after : ι ⊕ Nat → ι ⊕ Nat, (∀ key x, Holds s key x → Holds t (after key) x) ∧
    ∀ key key' x y, key ≠ key' → Holds s key x → Holds s key' y → after key ≠ after key'

omit [DecidableEq ι] in
theorem HoldsOn.refl : HoldsOn s s :=
  ⟨id, fun _ _ hx => hx, fun _ _ _ _ hne _ _ => hne⟩

omit [DecidableEq ι] in
theorem HoldsOn.trans {u : SbrkTasks ι} (h : HoldsOn s t) (h' : HoldsOn t u) : HoldsOn s u := by
  obtain ⟨after, hholds, hne⟩ := h
  obtain ⟨after', hholds', hne'⟩ := h'
  refine ⟨after' ∘ after, fun key x hx => hholds' _ _ (hholds key x hx), ?_⟩
  intro key key' x y hdiff hx hy
  exact hne' _ _ x y (hne key key' x y hdiff hx hy) (hholds key x hx) (hholds key' y hy)

omit [DecidableEq ι] in
/-- What is wrong with the blocks stays wrong. -/
theorem HoldsOn.safe (h : HoldsOn s t) (hsafe : HeldSafe L t) : HeldSafe L s := by
  obtain ⟨after, hholds, hne⟩ := h
  constructor
  · intro key key' x y hdiff hx hy
    exact hsafe.disjoint _ _ x y (hne key key' x y hdiff hx hy) (hholds key x hx)
      (hholds key' y hy)
  · exact fun key x hx => hsafe.inside _ x (hholds key x hx)

/-- A task that holds no block moves on. -/
theorem holdsOn_setPc {i : ι} {heap : Heap} {pc : SbrkPc}
    (hpc : ∀ nbytes base, s.pc i ≠ .finish nbytes base) :
    HoldsOn s (({ s with heap } : SbrkTasks ι).setPc i pc) := by
  refine ⟨id, ?_, fun _ _ _ _ hne _ _ => hne⟩
  intro key x hx
  apply Holds.setPc hx
  rintro rfl
  exact hpc _ _ hx

/-- The block of a task that returns becomes the last of the list. -/
theorem holdsOn_finish {i : ι} {nbytes : Int32} {base : UInt32}
    (hpc : s.pc i = .finish nbytes base) :
    HoldsOn s (({ s with returned := s.returned ++ [(base, nbytes)] } : SbrkTasks ι).setPc i
      .idle) := by
  have hfresh : ∀ x, ¬ Holds s (.inr s.returned.length) x := by
    intro x hx
    exact absurd (List.getElem?_eq_some_iff.mp hx).1 (Nat.lt_irrefl _)
  refine ⟨fun key => if key = .inl i then .inr s.returned.length else key, ?_, ?_⟩
  · intro key x hx
    dsimp only
    by_cases hself : key = .inl i
    · subst hself
      obtain ⟨rfl, rfl⟩ := SbrkPc.finish.inj (hpc.symm.trans hx)
      rw [if_pos rfl]
      change (s.returned ++ [x])[s.returned.length]? = some x
      simp
    · rw [if_neg hself]
      apply Holds.setPc _ hself
      cases key with
      | inl j => exact hx
      | inr k =>
          have hk := (List.getElem?_eq_some_iff.mp hx).1
          exact (List.getElem?_append_left hk).trans hx
  · intro key key' x y hne hx hy
    dsimp only
    split_ifs with hself hself'
    · exact absurd (hself.trans hself'.symm) hne
    · exact fun heq => hfresh y (heq ▸ hy)
    · exact fun heq => hfresh x (heq ▸ hx)
    · exact hne

theorem holdsOn_step (hstep : sbrkNext s a = some t) : HoldsOn s t := by
  cases sbrk_step hstep with
  | call hidle _ => exact holdsOn_setPc (by simp [hidle])
  | fails hpc _ => exact holdsOn_setPc (by simp [hpc])
  | fits hpc _ => exact holdsOn_setPc (by simp [hpc])
  | base hpc => exact holdsOn_setPc (by simp [hpc])
  | update hpc => exact holdsOn_setPc (by simp [hpc])
  | finish hpc => exact holdsOn_finish hpc

theorem holdsOn_path {tr : List (Event (SbrkTasks ι) (SbrkAct ι))}
    (hpath : Path (sbrkTasks ι L) s tr t) : HoldsOn s t := by
  induction hpath with
  | nil => exact HoldsOn.refl
  | cons hstep _ ih => exact (holdsOn_step hstep).trans ih

omit [DecidableEq ι] in
theorem Covered.init : Covered L (noCalls ι L) := by
  intro a hlow htop
  exact absurd (htop.trans_eq (heap_heapTop L)) (Nat.not_lt.mpr hlow)

/-- An update that is not disturbed cuts off what it adds to `heap_top`. -/
theorem Covered.step (hinv : SbrkInv L s) (h : Covered L s) (hund : Undisturbed s a)
    (hstep : sbrkNext s a = some t) : Covered L t := by
  have hkept : ∀ a : UInt32, L.heapStart ≤ a.toNat → a.toNat < s.heap.heapTop.toNat →
      ∃ key x, Holds t key x ∧ a ∈ heapBlock x.1 x.2 := by
    intro a hlow htop
    obtain ⟨key, x, hx, hmem⟩ := h a hlow htop
    obtain ⟨after, hholds, _⟩ := holdsOn_step hstep
    exact ⟨after key, x, hholds key x hx, hmem⟩
  cases sbrk_step hstep with
  | call _ _ => exact hkept
  | fails _ _ => exact hkept
  | fits _ _ => exact hkept
  | base _ => exact hkept
  | finish _ => exact hkept
  | @update i nbytes base hpc =>
      intro a hlow htop
      by_cases hold : a.toNat < s.heap.heapTop.toNat
      · exact hkept a hlow hold
      · rw [Undisturbed, hpc] at hund
        have hok := hinv.pc i
        rw [hpc] at hok
        have hmoved := hinv.top_add hok.1
        change a.toNat < (s.heap.heapTop + nbytes.toUInt32).toNat at htop
        have hne : nbytes ≠ 0 := by
          rintro rfl
          rw [Int32.toInt_zero] at hmoved
          omega
        refine ⟨.inl i, (base, nbytes), SbrkTasks.setPc_self _ _ _, ?_⟩
        rw [(hund hne).1]
        have hend : (a.toNat : Int) < s.heap.heapTop.toNat + nbytes.toInt := by omega
        exact ⟨UInt32.le_iff_toNat_le.mpr (Nat.le_of_not_lt hold), hend⟩

omit [DecidableEq ι] in
/-- Only an update can be disturbed: `heap_top` is not where the call took its
base, or leaves no room. -/
theorem disturbed_update (hund : ¬ Undisturbed s a) :
    ∃ i nbytes base, a = .run i ∧ s.pc i = .update nbytes base ∧ nbytes ≠ 0 ∧
      (base = s.heap.heapTop → SbrkFails nbytes s.heap) := by
  cases a with
  | call i nbytes => exact absurd trivial hund
  | run i =>
      rw [Undisturbed] at hund
      cases hpc : s.pc i with
      | update nbytes base =>
          rw [hpc, SbrkPc.Undisturbed] at hund
          push Not at hund
          exact ⟨i, nbytes, base, rfl, hpc, hund.1, hund.2⟩
      | idle | limit nbytes | base nbytes | finish nbytes base =>
          rw [hpc] at hund
          exact absurd trivial hund

/-- A disturbed update takes a byte that another block has, or one past the heap. -/
theorem disturbed_unsafe (hinv : SbrkInv L s) (h : Covered L s) (hund : ¬ Undisturbed s a)
    (hstep : sbrkNext s a = some t) : ¬ HeldSafe L t := by
  intro hsafe
  obtain ⟨i, nbytes, base, rfl, hpc, hne, hfound⟩ := disturbed_update hund
  rw [sbrkNext, hpc] at hstep
  obtain rfl := Option.some.inj hstep
  have hok := hinv.pc i
  rw [hpc] at hok
  obtain ⟨hnonneg, hlow, hbelow⟩ := hok
  have hpos : 0 < nbytes.toInt := by
    have := mt Int32.toInt_inj.mp hne
    rw [Int32.toInt_zero] at this
    omega
  have hnew : Holds (({ s with heap := { s.heap with
      heapTop := s.heap.heapTop + nbytes.toUInt32 } } : SbrkTasks ι).setPc i
        (.finish nbytes base)) (.inl i) (base, nbytes) := SbrkTasks.setPc_self _ _ _
  by_cases hbase : base = s.heap.heapTop
  · have hfull := UInt32.lt_iff_toNat_lt.mp (hfound hbase)
    have htop := hinv.top_add hnonneg
    have hhigh := hinv.high
    have hend := hinv.heapEnd
    have hmem : s.heap.heapEnd ∈ heapBlock base nbytes := by
      rw [hbase]
      exact ⟨UInt32.le_iff_toNat_le.mpr (by omega), by omega⟩
    have hinside := (hsafe.inside (.inl i) _ hnew _ hmem).2
    omega
  · have hlt : base.toNat < s.heap.heapTop.toNat := by
      have := mt UInt32.toNat_inj.mp hbase
      omega
    obtain ⟨key, x, hx, hmem⟩ := h base hlow hlt
    have hother : key ≠ .inl i := by
      rintro rfl
      rw [Holds, hpc] at hx
      cases hx
    have hself : base ∈ heapBlock base nbytes := ⟨UInt32.le_refl _, by omega⟩
    exact Set.disjoint_left.mp (hsafe.disjoint key (.inl i) x _ hother
      (Holds.setPc hx hother) hnew) hmem hself

/-- A run that ends with all blocks safe was not disturbed. -/
theorem SbrkInv.undisturbed {tr : List (Event (SbrkTasks ι) (SbrkAct ι))} (h : SbrkInv L s)
    (hcovered : Covered L s) (hpath : Path (sbrkTasks ι L) s tr t) (hsafe : HeldSafe L t) :
    ∀ e ∈ tr, Undisturbed e.pre e.label := by
  induction hpath with
  | nil => exact nofun
  | @cons s u t a tr hstep hrest ih =>
      have hund : Undisturbed s a := by
        by_contra hdisturbed
        exact disturbed_unsafe h hcovered hdisturbed hstep ((holdsOn_path hrest).safe hsafe)
      exact List.forall_mem_cons.mpr
        ⟨hund, ih (h.step hund hstep) (hcovered.step h hund hstep) hsafe⟩

/-- In every run in which each task that moves `heap_top` finds it where it took
its base, with room for its block, the blocks returned are disjoint and lie in
the heap. Where all calls have returned, they do so in no other run. -/
theorem sbrk_blocks_safe (ι : Type*) [DecidableEq ι] (L : Layout) (s₀ s : SbrkTasks ι)
    (tr : List (Event (SbrkTasks ι) (SbrkAct ι))) (hinit : (sbrkTasks ι L).init s₀)
    (hpath : Path (sbrkTasks ι L) s₀ tr s) :
    ((∀ e ∈ tr, Undisturbed e.pre e.label) → BlocksSafe L s ∧ ∀ e ∈ tr, BlocksSafe L e.pre) ∧
      ((∀ i, s.pc i = .idle) → (BlocksSafe L s ↔ ∀ e ∈ tr, Undisturbed e.pre e.label)) := by
  obtain rfl : s₀ = _ := hinit
  have hstart : SbrkInv L (noCalls ι L) := SbrkInv.init
  have hforward : (∀ e ∈ tr, Undisturbed e.pre e.label) →
      BlocksSafe L s ∧ ∀ e ∈ tr, BlocksSafe L e.pre := by
    intro hund
    obtain ⟨hlast, hall⟩ := hstart.path hpath hund
    exact ⟨hlast.held.blocks, fun e he => (hall e he).held.blocks⟩
  refine ⟨hforward, ?_⟩
  intro hidle
  constructor
  · exact fun hsafe => hstart.undisturbed Covered.init hpath (hsafe.held hidle)
  · exact fun hund => (hforward hund).1

/-- Two tasks, of which one takes its base before the other has moved
`heap_top`: both get the block at `__heap`. -/
theorem sbrk_same_block :
    ∃ s tr, Path (sbrkTasks Bool smallImage) (noCalls Bool smallImage) tr s ∧
      s.returned = [(0x20000400, 16), (0x20000400, 16)] ∧ ¬ BlocksSafe smallImage s := by
  obtain ⟨s, hrun, hreturned⟩ := exists_of_any
    (by decide +kernel : (run sbrkNext (noCalls Bool smallImage)
      [.call false 16, .run false, .run false, .call true 16, .run true, .run true, .run true,
        .run true, .run false, .run false]).any
      (fun s => decide (s.returned = [(0x20000400, 16), (0x20000400, 16)])) = true)
  obtain ⟨tr, hpath, _⟩ := run_path (M := sbrkTasks Bool smallImage) (fun _ _ _ h => h) hrun
  refine ⟨s, tr, hpath, hreturned, ?_⟩
  intro hsafe
  have hdisjoint := hsafe.disjoint 0 1 _ _ (by decide) (by rw [hreturned]; rfl)
    (by rw [hreturned]; rfl)
  have hmem : (0x20000400 : UInt32) ∈ heapBlock 0x20000400 16 := ⟨by decide, by decide⟩
  exact Set.disjoint_left.mp hdisjoint hmem hmem

/-- Two tasks that interleave without disturbing each other. -/
theorem sbrk_blocks_safe_in_turn :
    ∃ s tr, Path (sbrkTasks Bool smallImage) (noCalls Bool smallImage) tr s ∧
      s.returned = [(0x20000400, 16), (0x20000410, 16)] ∧ BlocksSafe smallImage s := by
  obtain ⟨s, hrun, hreturned⟩ := exists_of_any
    (by decide +kernel : (run (fun s a => if Undisturbed s a then sbrkNext s a else none)
      (noCalls Bool smallImage)
      [.call false 16, .call true 16, .run true, .run false, .run false, .run false, .run true,
        .run false, .run true, .run true]).any
      (fun s => decide (s.returned = [(0x20000400, 16), (0x20000410, 16)])) = true)
  obtain ⟨tr, hpath, _⟩ := run_path (M := (sbrkTasks Bool smallImage).guarded Undisturbed)
    (fun s a t h => by
      split at h
      · rename_i hund
        exact ⟨hund, h⟩
      · cases h) hrun
  obtain ⟨hpath, hund⟩ := path_guarded.mp hpath
  exact ⟨s, tr, hpath, hreturned, ((sbrk_blocks_safe Bool smallImage _ s tr rfl hpath).1 hund).1⟩

end Runs

end Tasks

end PascalScheduler
