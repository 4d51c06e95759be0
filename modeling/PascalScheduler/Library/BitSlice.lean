import Mathlib.Tactic

/-!
Bit slices of a number, and the number of a string of bytes sent most
significant byte first. Both are compared bit by bit.
-/

namespace BitSlice

/-- The `size` bits of `r` from bit `start` on. -/
def slice (r start size : Nat) : Nat :=
  r / 2 ^ start % 2 ^ size

/-- The number formed by the first `m` bytes. -/
def bigEndian (bytes : Nat → UInt8) (m : Nat) : Nat :=
  (List.range m).foldl (fun r i => 2 ^ 8 * r + (bytes i).toNat) 0

theorem slice_testBit (r start size k : Nat) :
    (slice r start size).testBit k = (decide (k < size) && r.testBit (start + k)) := by
  rw [slice, Nat.testBit_mod_two_pow, Nat.testBit_div_two_pow, Nat.add_comm]

/-- A number is a slice when its bits are those of the slice. -/
theorem eq_slice {n r start size : Nat}
    (h : ∀ k, n.testBit k = (decide (k < size) && r.testBit (start + k))) :
    n = slice r start size := by
  apply Nat.eq_of_testBit_eq
  intro k
  rw [h, slice_testBit]

theorem slice_lt (r start size : Nat) : slice r start size < 2 ^ size :=
  Nat.mod_lt _ (Nat.two_pow_pos size)

theorem byte_testBit (b : UInt8) {k : Nat} (hk : 8 ≤ k) : b.toNat.testBit k = false :=
  Nat.testBit_lt_two_pow (lt_of_lt_of_le b.toNat_lt (Nat.pow_le_pow_right (by omega) hk))

theorem bigEndian_succ (bytes : Nat → UInt8) (m : Nat) :
    bigEndian bytes (m + 1) = 2 ^ 8 * bigEndian bytes m + (bytes m).toNat := by
  simp only [bigEndian, List.range_succ, List.foldl_append, List.foldl_cons, List.foldl_nil]

/-- Bit `n` is bit `n % 8` of the byte that is `n / 8` places before the last. -/
theorem bigEndian_testBit (bytes : Nat → UInt8) (m n : Nat) (hn : n < 8 * m) :
    (bigEndian bytes m).testBit n = (bytes (m - 1 - n / 8)).toNat.testBit (n % 8) := by
  induction m generalizing n with
  | zero => omega
  | succ m ih =>
      rw [bigEndian_succ, Nat.testBit_two_pow_mul_add _ (bytes m).toNat_lt]
      split
      · rename_i hlast
        rw [Nat.div_eq_of_lt hlast, Nat.mod_eq_of_lt hlast]
        rfl
      · rename_i hearlier
        rw [ih (n - 8) (by omega)]
        congr 1
        · congr 2
          omega
        · omega

/-- Each byte is a slice of eight bits. -/
theorem slice_bigEndian (bytes : Nat → UInt8) {m k : Nat} (hk : k < m) :
    slice (bigEndian bytes m) (8 * (m - 1 - k)) 8 = (bytes k).toNat := by
  symm
  apply eq_slice
  intro i
  by_cases hi : i < 8
  · rw [bigEndian_testBit _ _ _ (by omega), decide_eq_true hi, Bool.true_and]
    congr 1
    · congr 2
      omega
    · omega
  · rw [byte_testBit _ (by omega), decide_eq_false hi, Bool.false_and]

end BitSlice
