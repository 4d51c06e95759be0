import Mathlib.Tactic
import Mathlib.Data.Nat.Digits.Lemmas

/-!
Positional numerals, most significant digit first. A program that prints a
number divides it by falling powers of the base; `leading` is the list of its
quotients. From the highest power that is not above the number on, these are
the digits of the number.
-/

namespace Numeral

/-- Division by the powers of `base` from the `k`-th down. -/
def leading (base : Nat) : Nat → Nat → List Nat
  | 0, n => [n]
  | k + 1, n => n / base ^ (k + 1) :: leading base k (n % base ^ (k + 1))

/-- The digits of a number, without leading zeros; 0 has one digit. -/
def digits (base n : Nat) : List Nat :=
  if n = 0 then [0] else (Nat.digits base n).reverse

/-- What makes a list of digits the numeral of `n`. -/
structure Canonical (base n : Nat) (ds : List Nat) : Prop where
  below : ∀ d ∈ ds, d < base
  value : Nat.ofDigits base ds.reverse = n
  leading : ds = [0] ∨ ∃ d rest, ds = d :: rest ∧ 0 < d

/-- `base ^ k` is the highest power to divide `n` by. -/
structure Highest (base k n : Nat) : Prop where
  lt : n < base ^ (k + 1)
  le : k = 0 ∨ base ^ k ≤ n

variable {base k n : Nat}

/-- The last quotient is the lowest digit. -/
theorem leading_snoc :
    leading base (k + 1) n = leading base k (n / base) ++ [n % base] := by
  induction k generalizing n with
  | zero => simp [leading]
  | succ k ih =>
      have hquot : n / base ^ (k + 2) = n / base / base ^ (k + 1) := by
        rw [Nat.div_div_eq_div_mul, ← Nat.pow_succ']
      have hrest : n % base ^ (k + 2) / base = n / base % base ^ (k + 1) := by
        rw [Nat.pow_succ', Nat.mod_mul_right_div_self]
      have hlow : n % base ^ (k + 2) % base = n % base :=
        Nat.mod_mod_of_dvd n (Dvd.intro_left (base ^ (k + 1)) rfl)
      calc leading base (k + 2) n
          = n / base ^ (k + 2) :: leading base (k + 1) (n % base ^ (k + 2)) := rfl
        _ = n / base / base ^ (k + 1) ::
              (leading base k (n / base % base ^ (k + 1)) ++ [n % base]) := by
            rw [ih, hquot, hrest, hlow]
        _ = leading base (k + 1) (n / base) ++ [n % base] := rfl

theorem length_leading (base k n : Nat) : (leading base k n).length = k + 1 := by
  induction k generalizing n with
  | zero => rfl
  | succ k ih => rw [leading, List.length_cons, ih]

theorem Highest.div (hbase : 1 < base) (h : Highest base (k + 1) n) :
    Highest base k (n / base) := by
  constructor
  · apply Nat.div_lt_of_lt_mul
    rw [← Nat.pow_succ']
    exact h.lt
  · right
    have hle : base ^ (k + 1) ≤ n := by simpa using h.le
    rw [Nat.le_div_iff_mul_le (by omega), ← Nat.pow_succ]
    exact hle

/-- The quotients from the highest power on are the digits. -/
theorem leading_eq_digits (hbase : 1 < base) (h : Highest base k n) :
    leading base k n = digits base n := by
  induction k generalizing n with
  | zero =>
      have hlt : n < base := by simpa using h.lt
      unfold digits leading
      split
      · rename_i hzero
        rw [hzero]
      · rename_i hpos
        rw [Nat.digits_of_lt base n hpos hlt, List.reverse_singleton]
  | succ k ih =>
      have hle : base ^ (k + 1) ≤ n := by simpa using h.le
      have hpow : 0 < base ^ (k + 1) := Nat.pow_pos (by omega)
      have hbelow : base ≤ base ^ (k + 1) := Nat.le_self_pow (by omega) base
      have hpos : 0 < n := by omega
      have hquot : n / base ≠ 0 := (Nat.div_pos (by omega) (by omega)).ne'
      rw [leading_snoc, ih (h.div hbase), digits, if_neg hquot, digits, if_neg hpos.ne',
        Nat.digits_def' hbase hpos, List.reverse_cons]

theorem exists_highest (hbase : 1 < base) (n : Nat) : ∃ k, Highest base k n := by
  by_cases hzero : n = 0
  · exact ⟨0, by simp [hzero]; omega, .inl rfl⟩
  · refine ⟨Nat.log base n, Nat.lt_pow_succ_log_self hbase n, .inr ?_⟩
    exact Nat.pow_log_le_self base hzero

theorem Highest.length (hbase : 1 < base) (h : Highest base k n) :
    (digits base n).length = k + 1 := by
  rw [← leading_eq_digits hbase h, length_leading]

/-- A number below the `width`-th power has at most `width` digits. -/
theorem length_digits_le (hbase : 1 < base) {width : Nat} (hwidth : 0 < width)
    (h : n < base ^ width) : (digits base n).length ≤ width := by
  obtain ⟨k, hk⟩ := exists_highest hbase n
  rw [hk.length hbase]
  rcases hk.le with hzero | hle
  · omega
  · have hlt := (Nat.pow_lt_pow_iff_right hbase).mp (Nat.lt_of_le_of_lt hle h)
    omega

theorem lt_of_mem_digits (hbase : 1 < base) {d : Nat} (h : d ∈ digits base n) : d < base := by
  rw [digits] at h
  split at h
  · obtain rfl := List.mem_singleton.mp h
    omega
  · exact Nat.digits_lt_base hbase (List.mem_reverse.mp h)

/-- Every number has a numeral. -/
theorem digits_canonical (hbase : 1 < base) (n : Nat) : Canonical base n (digits base n) := by
  refine ⟨fun d hd => lt_of_mem_digits hbase hd, ?_, ?_⟩
  · unfold digits
    split
    · rename_i hzero
      simp [hzero]
    · rw [List.reverse_reverse, Nat.ofDigits_digits]
  · unfold digits
    split
    · exact .inl rfl
    · rename_i hpos
      have hne : Nat.digits base n ≠ [] := Nat.digits_ne_nil_iff_ne_zero.mpr hpos
      have hlast := Nat.getLast_digit_ne_zero base hpos
      rw [← List.head_reverse (by simpa using hne)] at hlast
      obtain ⟨d, rest, hcons⟩ := List.exists_cons_of_ne_nil (List.reverse_ne_nil_iff.mpr hne)
      simp only [hcons, List.head_cons] at hlast
      exact .inr ⟨d, rest, hcons, Nat.pos_of_ne_zero hlast⟩

/-- And only one. -/
theorem Canonical.eq_digits (hbase : 1 < base) {ds : List Nat} (h : Canonical base n ds) :
    ds = digits base n := by
  have hvalue := h.value
  rcases h.leading with rfl | ⟨d, rest, rfl, hpos⟩
  · have hzero : n = 0 := by simpa using hvalue.symm
    rw [digits, if_pos hzero]
  · have hdigits : Nat.digits base n = (d :: rest).reverse := by
      rw [← hvalue]
      apply Nat.digits_ofDigits base hbase
      · intro x hx
        exact h.below x (List.mem_reverse.mp hx)
      · intro _
        simp
        omega
    have hn : n ≠ 0 := by
      rintro rfl
      simp at hdigits
    rw [digits, if_neg hn, hdigits, List.reverse_reverse]

theorem canonical_iff (hbase : 1 < base) {ds : List Nat} :
    Canonical base n ds ↔ ds = digits base n := by
  constructor
  · exact fun h => h.eq_digits hbase
  · rintro rfl
    exact digits_canonical hbase n

end Numeral
