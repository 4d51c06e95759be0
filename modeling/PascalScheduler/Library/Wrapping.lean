import Mathlib.Tactic

/-!
Sums of 32-bit signed integers read as integers: exact while they fit, off by
`2^32` once they do not.
-/

namespace Wrapping

theorem toInt_add_of_le {x y : Int32} (hlow : -2 ^ 31 ≤ x.toInt + y.toInt)
    (hhigh : x.toInt + y.toInt ≤ 2 ^ 31 - 1) : (x + y).toInt = x.toInt + y.toInt := by
  rw [Int32.toInt_add]
  exact Int.bmod_eq_of_le (by omega) (by omega)

theorem toInt_add_of_gt {x y : Int32} (h : 2 ^ 31 - 1 < x.toInt + y.toInt) :
    (x + y).toInt = x.toInt + y.toInt - 2 ^ 32 := by
  have hx := x.toInt_lt
  have hy := y.toInt_lt
  rw [Int32.toInt_add, ← Int.sub_bmod_right]
  exact Int.bmod_eq_of_le (by omega) (by omega)

theorem toInt_succ {x : Int32} (h : x.toInt < 2 ^ 31 - 1) :
    (x + 1).toInt = x.toInt + 1 :=
  toInt_add_of_le
    (by have := x.le_toInt; rw [Int32.toInt_one]; omega)
    (by rw [Int32.toInt_one]; omega)

end Wrapping
