import PascalScheduler.Sys.Dev
import PascalScheduler.Library.Transition
import PascalScheduler.Library.Wrapping

/-!
`dev_seek` (`sys/dev.c`). Its guard refuses the relative offsets that lead below
zero, by comparing the negated offset with the current one. Negating the smallest
integer does not make it positive, and nothing stops a sum from passing the
largest one; everything else is handled as it should be.
-/

namespace PascalScheduler.Sys

open Transition

/-- `enum seek_whence` -/
inductive SeekWhence where
  | seekSet
  | seekCur
  | seekEnd
  deriving DecidableEq

/-- The vnode after the call, and what the call returns. -/
def devSeek (offset : Int32) (whence : SeekWhence) (vnode : Vnode) : Vnode × Int32 :=
  match whence with
  | .seekSet =>
      if offset < 0 then (vnode, -1)
      else
        let vnode := { vnode with offset := offset }
        (vnode, vnode.offset)
  | .seekCur =>
      if offset < 0 ∧ -offset > vnode.offset then (vnode, -1)
      else
        let vnode := { vnode with offset := vnode.offset + offset }
        (vnode, vnode.offset)
  | .seekEnd => (vnode, -1)

/-- The arguments of a call. -/
structure SeekCall where
  offset : Int32
  whence : SeekWhence

/-- The calls of `dev_seek` on one vnode whose offset starts non-negative. -/
def seekSystem : System Vnode SeekCall where
  init vnode := 0 ≤ vnode.offset.toInt
  step vnode call vnode' := vnode' = (devSeek call.offset call.whence vnode).1

/-- The position that a call asks for, where it asks for one. -/
def requested (vnode : Vnode) (call : SeekCall) : Option Int :=
  match call.whence with
  | .seekSet => some call.offset.toInt
  | .seekCur => some (vnode.offset.toInt + call.offset.toInt)
  | .seekEnd => none

/-- The offset stays valid, and either the call fails and leaves it, or it goes
to the position asked for, which is returned. -/
def SeekOk (vnode : Vnode) (call : SeekCall) : Prop :=
  let answer := devSeek call.offset call.whence vnode
  0 ≤ answer.1.offset.toInt ∧
    (answer.2 = -1 ∧ answer.1.offset = vnode.offset ∨
      answer.2 = answer.1.offset ∧ requested vnode call = some answer.1.offset.toInt)

/-- A relative seek is not by the smallest integer and does not pass the largest. -/
def SeekFits (vnode : Vnode) (call : SeekCall) : Prop :=
  call.whence = .seekCur →
    call.offset ≠ Int32.minValue ∧ vnode.offset.toInt + call.offset.toInt ≤ Int32.maxValue.toInt

section Calls

variable {vnode : Vnode} {offset : Int32}

theorem seek_set_ok (h : 0 ≤ vnode.offset.toInt) : SeekOk vnode ⟨offset, .seekSet⟩ := by
  unfold SeekOk devSeek
  by_cases hneg : offset < 0
  · simp [hneg, h]
  · have hnonneg : 0 ≤ offset.toInt := Int32.le_iff_toInt_le.mp (Int32.not_lt.mp hneg)
    simp [hneg, hnonneg, requested]

theorem seek_end_ok (h : 0 ≤ vnode.offset.toInt) : SeekOk vnode ⟨offset, .seekEnd⟩ := by
  simp [SeekOk, devSeek, h]

/-- Negation is exact for all negative offsets but one. -/
theorem neg_toInt (h : offset ≠ Int32.minValue) : (-offset).toInt = -offset.toInt := by
  have hne : offset.toInt ≠ -2 ^ 31 := fun heq => h (Int32.toInt_inj.mp heq)
  have hlow := offset.le_toInt
  have hhigh := offset.toInt_lt
  rw [Int32.toInt_neg]
  exact Int.bmod_eq_of_le (by omega) (by omega)

/-- A seek by the smallest integer passes the guard and leads below zero. -/
theorem seek_cur_min (h : 0 ≤ vnode.offset.toInt) :
    ¬ SeekOk vnode ⟨Int32.minValue, .seekCur⟩ := by
  have hhigh := vnode.offset.toInt_lt
  have hmin : Int32.minValue.toInt = -2 ^ 31 := rfl
  have hpass : ¬ (Int32.minValue < 0 ∧ -Int32.minValue > vnode.offset) := by
    rintro ⟨_, hgt⟩
    have hlt : vnode.offset.toInt < (-Int32.minValue).toInt := Int32.lt_iff_toInt_lt.mp hgt
    rw [show -Int32.minValue = Int32.minValue by decide] at hlt
    omega
  have hsum := Wrapping.toInt_add_of_le (x := vnode.offset) (y := Int32.minValue)
    (by omega) (by omega)
  simp only [SeekOk, devSeek, if_neg hpass]
  omega

/-- So does a sum beyond the largest integer. -/
theorem seek_cur_beyond (hover : 2 ^ 31 - 1 < vnode.offset.toInt + offset.toInt) :
    ¬ SeekOk vnode ⟨offset, .seekCur⟩ := by
  have hhigh := vnode.offset.toInt_lt
  have hpass : ¬ (offset < 0 ∧ -offset > vnode.offset) := by
    rintro ⟨hneg, _⟩
    have hlt : offset.toInt < 0 := Int32.lt_iff_toInt_lt.mp hneg
    omega
  have hsum := Wrapping.toInt_add_of_gt hover
  have hbound := offset.toInt_lt
  simp only [SeekOk, devSeek, if_neg hpass]
  omega

theorem seek_cur_fits (h : 0 ≤ vnode.offset.toInt) (hmin : offset ≠ Int32.minValue)
    (hfits : vnode.offset.toInt + offset.toInt ≤ 2 ^ 31 - 1) :
    SeekOk vnode ⟨offset, .seekCur⟩ := by
  by_cases hrefused : offset < 0 ∧ -offset > vnode.offset
  · simp [SeekOk, devSeek, if_pos hrefused, h]
  · have hstays : 0 ≤ vnode.offset.toInt + offset.toInt := by
      by_contra hbelow
      apply hrefused
      rw [gt_iff_lt, Int32.lt_iff_toInt_lt, Int32.lt_iff_toInt_lt, neg_toInt hmin]
      exact ⟨by change offset.toInt < 0; omega, by omega⟩
    have hsum := Wrapping.toInt_add_of_le (x := vnode.offset) (y := offset) (by omega) hfits
    simp [SeekOk, devSeek, if_neg hrefused, requested, hsum, hstays]

end Calls

theorem seekOk_iff {vnode : Vnode} (h : 0 ≤ vnode.offset.toInt) (call : SeekCall) :
    SeekOk vnode call ↔ SeekFits vnode call := by
  have hmax : Int32.maxValue.toInt = 2 ^ 31 - 1 := rfl
  obtain ⟨offset, whence⟩ := call
  cases whence with
  | seekSet => exact ⟨nofun, fun _ => seek_set_ok h⟩
  | seekEnd => exact ⟨nofun, fun _ => seek_end_ok h⟩
  | seekCur =>
      constructor
      · intro hok _
        refine ⟨?_, ?_⟩
        · rintro rfl
          exact seek_cur_min h hok
        · by_contra hover
          rw [hmax, Int.not_le] at hover
          exact seek_cur_beyond hover hok
      · intro hfits
        obtain ⟨hmin, hsum⟩ := hfits rfl
        rw [hmax] at hsum
        exact seek_cur_fits h hmin hsum

/-- Along every sequence of calls from a non-negative offset, all calls do what
they should if and only if no relative seek is by the smallest integer or leads
beyond the largest one. -/
theorem dev_seek_iff (vnode vnode' : Vnode) (tr : List (Event Vnode SeekCall))
    (hinit : seekSystem.init vnode) (h : Path seekSystem vnode tr vnode') :
    (∀ e ∈ tr, SeekOk e.pre e.label) ↔ ∀ e ∈ tr, SeekFits e.pre e.label := by
  refine h.forall_iff (P := fun v => 0 ≤ v.offset.toInt) ?_ ?_ hinit
  · intro v call v' hv _
    exact seekOk_iff hv call
  · rintro v call v' _ rfl hok
    exact hok.1

/-- While the calls do what they should, the offset stays valid. -/
theorem SeekOk.path {vnode vnode' : Vnode} {tr : List (Event Vnode SeekCall)}
    (hinit : seekSystem.init vnode) (h : Path seekSystem vnode tr vnode')
    (hok : ∀ e ∈ tr, SeekOk e.pre e.label) : seekSystem.init vnode' := by
  induction h with
  | nil => exact hinit
  | cons hstep _ ih =>
      obtain rfl := hstep
      obtain ⟨hfirst, hrest⟩ := List.forall_mem_cons.mp hok
      exact ih hfirst.1 hrest

/-- A vnode of the card at an offset. -/
def cardAt (offset : Int32) : Vnode := ⟨.mmc, 0, offset, none⟩

/-- One relative seek by the smallest integer, or one step beyond the largest
position, makes the offset negative. -/
theorem dev_seek_below_zero :
    seekSystem.init (cardAt 0) ∧
      (∃ v tr, Path seekSystem (cardAt 0) tr v ∧
        tr.map Event.label = [⟨Int32.minValue, .seekCur⟩] ∧ v.offset = Int32.minValue ∧
        ¬ ∀ e ∈ tr, SeekOk e.pre e.label) ∧
      ∃ v tr, Path seekSystem (cardAt 0) tr v ∧
        tr.map Event.label = [⟨Int32.maxValue, .seekSet⟩, ⟨1, .seekCur⟩] ∧
        v.offset = Int32.minValue ∧ ¬ ∀ e ∈ tr, SeekOk e.pre e.label := by
  have hinit : seekSystem.init (cardAt 0) := by simp [seekSystem, cardAt]
  have hinvalid : ¬ seekSystem.init (cardAt Int32.minValue) := by
    change ¬ 0 ≤ Int32.minValue.toInt
    decide
  have hmin : seekSystem.step (cardAt 0) ⟨Int32.minValue, .seekCur⟩ (cardAt Int32.minValue) := by
    simp only [seekSystem, devSeek, cardAt, if_neg (show ¬ (Int32.minValue < 0 ∧
      -Int32.minValue > 0) by decide)]
    rfl
  have hset : seekSystem.step (cardAt 0) ⟨Int32.maxValue, .seekSet⟩ (cardAt Int32.maxValue) := by
    simp only [seekSystem, devSeek, cardAt, if_neg (show ¬ Int32.maxValue < 0 by decide)]
  have hbeyond : seekSystem.step (cardAt Int32.maxValue) ⟨1, .seekCur⟩
      (cardAt Int32.minValue) := by
    simp only [seekSystem, devSeek, cardAt, if_neg (show ¬ ((1 : Int32) < 0 ∧
      -1 > Int32.maxValue) by decide)]
    rfl
  have hfirst : Path seekSystem _ _ _ := .single hmin
  have hsecond : Path seekSystem _ _ _ := .cons hset (.single hbeyond)
  exact ⟨hinit, ⟨_, _, hfirst, rfl, rfl, fun hok => hinvalid (SeekOk.path hinit hfirst hok)⟩,
    _, _, hsecond, rfl, rfl, fun hok => hinvalid (SeekOk.path hinit hsecond hok)⟩

/-- Forwards, back, and refused below zero. -/
theorem dev_seek_iff_back : ∃ v tr, Path seekSystem (cardAt 0) tr v ∧
    tr.map Event.label = [⟨100, .seekSet⟩, ⟨-40, .seekCur⟩, ⟨-61, .seekCur⟩] ∧
    v.offset = 60 ∧ ∀ e ∈ tr, SeekOk e.pre e.label := by
  have hset : seekSystem.step (cardAt 0) ⟨100, .seekSet⟩ (cardAt 100) := by
    simp only [seekSystem, devSeek, cardAt, if_neg (show ¬ (100 : Int32) < 0 by decide)]
  have hback : seekSystem.step (cardAt 100) ⟨-40, .seekCur⟩ (cardAt 60) := by
    simp only [seekSystem, devSeek, cardAt, if_neg (show ¬ ((-40 : Int32) < 0 ∧
      - -40 > (100 : Int32)) by decide)]
    rfl
  have hrefused : seekSystem.step (cardAt 60) ⟨-61, .seekCur⟩ (cardAt 60) := by
    simp only [seekSystem, devSeek, cardAt, if_pos (show (-61 : Int32) < 0 ∧
      - -61 > (60 : Int32) by decide)]
  have hpath : Path seekSystem _ _ _ := .cons hset (.cons hback (.single hrefused))
  refine ⟨_, _, hpath, rfl, rfl, ?_⟩
  rw [dev_seek_iff _ _ _ (by simp [seekSystem, cardAt]) hpath]
  simp only [List.forall_mem_cons, SeekFits, cardAt]
  decide

end PascalScheduler.Sys
