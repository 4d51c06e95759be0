import PascalScheduler.Library.Numeral
import PascalScheduler.Libc.Printf

/-!
The numbers that `printf.c` writes: for 32-bit arguments `ui2a` and `i2a` write
the canonical numeral, with a NUL after it.
-/

namespace PascalScheduler

/-- The character of a digit. -/
def digitByte (d : Nat) : UInt8 :=
  UInt8.ofNat (if d < 10 then 48 + d else 55 + d)

/-- The canonical numeral, in upper case. -/
def numeral (base n : Nat) : List UInt8 :=
  (Numeral.digits base n).map digitByte

/-- The numeral of a signed number. -/
def signedNumeral (base : Nat) (z : Int) : List UInt8 :=
  if z < 0 then '-'.toUInt8 :: numeral base z.natAbs else numeral base z.natAbs

section Numeral

variable {base n : Nat}

theorem digitByte_ne_zero {d : Nat} (h : d < 36) : digitByte d ≠ 0 := by
  have hall : ∀ d < 36, digitByte d ≠ 0 := by decide
  exact hall d h

theorem numeral_ne_zero (hbase : 1 < base) (hle : base ≤ 36) :
    ∀ c ∈ numeral base n, c ≠ 0 := by
  intro c hc
  obtain ⟨d, hd, rfl⟩ := List.mem_map.mp hc
  have hlt := Numeral.lt_of_mem_digits hbase hd
  exact digitByte_ne_zero (by omega)

theorem signedNumeral_ne_zero (hbase : 1 < base) (hle : base ≤ 36) (z : Int) :
    ∀ c ∈ signedNumeral base z, c ≠ 0 := by
  intro c hc
  rw [signedNumeral] at hc
  split at hc
  · rcases List.mem_cons.mp hc with rfl | hmem
    · decide
    · exact numeral_ne_zero hbase hle c hmem
  · exact numeral_ne_zero hbase hle c hc

theorem length_numeral_le (hbase : 1 < base) {width : Nat} (hwidth : 0 < width)
    (h : n < base ^ width) : (numeral base n).length ≤ width := by
  rw [numeral, List.length_map]
  exact Numeral.length_digits_le hbase hwidth h

theorem length_signedNumeral_le (hbase : 1 < base) {width : Nat} (hwidth : 0 < width) {z : Int}
    (h : z.natAbs < base ^ width) : (signedNumeral base z).length ≤ width + 1 := by
  have hle := length_numeral_le hbase hwidth h
  unfold signedNumeral
  split
  · simp only [List.length_cons]
    omega
  · omega

end Numeral

section Ui2a

variable {num : UInt64} {base : UInt32}

theorem pow_toNat {k : Nat} (h : base.toNat ^ k < 2 ^ 32) :
    (UInt32.ofNat (base.toNat ^ k)).toNat = base.toNat ^ k :=
  UInt32.toNat_ofNat_of_lt' h

theorem exponent_lt {k : Nat} (hbase : 1 < base.toNat) (h : base.toNat ^ k < 2 ^ 32) :
    k < 32 := by
  have htwo : 2 ^ k ≤ base.toNat ^ k := Nat.pow_le_pow_left hbase k
  exact (Nat.pow_lt_pow_iff_right (by omega)).mp (Nat.lt_of_le_of_lt htwo h)

/-- The test of the first loop asks whether the next divisor is still below the
number. -/
theorem scale_test {d : UInt32} (hd : 0 < d.toNat) :
    num / d.toUInt64 ≥ base.toUInt64 ↔ d.toNat * base.toNat ≤ num.toNat := by
  rw [ge_iff_le, UInt64.le_iff_toNat_le, UInt64.toNat_div, UInt32.toNat_toUInt64,
    UInt32.toNat_toUInt64, Nat.le_div_iff_mul_le hd, Nat.mul_comm]

/-- The divisor grows by powers of the base up to the highest one. -/
theorem ui2aScale_highest (hnum : num.toNat < 2 ^ 32) (hbase : 1 < base.toNat) (turns j : Nat)
    (hturns : turns + j = 33) (hle : j = 0 ∨ base.toNat ^ j ≤ num.toNat) :
    ∃ k, Numeral.Highest base.toNat k num.toNat ∧ base.toNat ^ k < 2 ^ 32 ∧
      ui2aScale num base turns (UInt32.ofNat (base.toNat ^ j)) =
        some (UInt32.ofNat (base.toNat ^ k)) := by
  have hpow : base.toNat ^ j < 2 ^ 32 := by
    rcases hle with rfl | hle
    · simp
    · omega
  induction turns generalizing j with
  | zero =>
      have hj := exponent_lt hbase hpow
      omega
  | succ turns ih =>
      have hpos : 0 < base.toNat ^ j := Nat.pow_pos (by omega)
      have hd := pow_toNat hpow
      have hne : UInt32.ofNat (base.toNat ^ j) ≠ 0 := by
        intro hzero
        rw [hzero] at hd
        exact hpos.ne' hd.symm
      have htest : num / (UInt32.ofNat (base.toNat ^ j)).toUInt64 ≥ base.toUInt64 ↔
          base.toNat ^ (j + 1) ≤ num.toNat := by
        rw [scale_test (by omega), hd, Nat.pow_succ]
      rw [ui2aScale, if_neg hne]
      by_cases hmore : base.toNat ^ (j + 1) ≤ num.toNat
      · have hnext : UInt32.ofNat (base.toNat ^ j) * base =
            UInt32.ofNat (base.toNat ^ (j + 1)) := by
          rw [Nat.pow_succ, UInt32.ofNat_mul, UInt32.ofNat_toNat]
        rw [if_pos (htest.mpr hmore), hnext]
        exact ih (j + 1) (by omega) (.inr hmore) (by omega)
      · exact ⟨j, ⟨by omega, hle⟩, hpow, if_neg (mt htest.mp hmore)⟩

/-- A digit below 36 as the `int` that it is. -/
theorem digitChar_eq {x : UInt32} (h : x.toNat < 36) :
    digitChar x.toInt32 = digitByte x.toNat ∧ (x.toInt32 > 0 ↔ 0 < x.toNat) := by
  have hall : ∀ q < 36, digitChar (UInt32.ofNat q).toInt32 = digitByte q ∧
      ((UInt32.ofNat q).toInt32 > 0 ↔ 0 < q) := by decide
  have hx := hall x.toNat h
  rwa [UInt32.ofNat_toNat] at hx

theorem quotient_toNat (d : UInt32) (hnum : num.toNat < 2 ^ 32) :
    (num / d.toUInt64).toUInt32.toNat = num.toNat / d.toNat := by
  have hle := Nat.div_le_self num.toNat d.toNat
  rw [UInt64.toNat_toUInt32, UInt64.toNat_div, UInt32.toNat_toUInt64]
  exact Nat.mod_eq_of_lt (by omega)

/-- Taking the digit away leaves the remainder, though the digit is an `int`. -/
theorem remainder_eq (d : UInt32) (hnum : num.toNat < 2 ^ 32) :
    num - ((num / d.toUInt64).toUInt32.toInt32.toUInt32 * d).toUInt64 =
      UInt64.ofNat (num.toNat % d.toNat) := by
  have hbelow := Nat.div_mul_le_self num.toNat d.toNat
  have htaken : ((num / d.toUInt64).toUInt32.toInt32.toUInt32 * d).toUInt64.toNat =
      num.toNat / d.toNat * d.toNat := by
    rw [UInt32.toUInt32_toInt32, UInt32.toNat_toUInt64, UInt32.toNat_mul, quotient_toNat d hnum]
    exact Nat.mod_eq_of_lt (by omega)
  apply UInt64.toNat_inj.mp
  rw [UInt64.toNat_sub_of_le _ _ (by rw [UInt64.le_iff_toNat_le, htaken]; exact hbelow), htaken,
    UInt64.toNat_ofNat_of_lt' (Nat.lt_of_le_of_lt (Nat.mod_le _ _) num.toNat_lt),
    Nat.mod_eq_sub_div_mul]

/-- One turn writes the quotient and goes on with the remainder. -/
theorem ui2aDigits_turn {k turns : Nat} {n : Int32} (hnum : num.toNat < 2 ^ 32)
    (hlt : num.toNat < base.toNat ^ (k + 1))
    (hbase : 1 < base.toNat) (hle : base.toNat ≤ 36) (hpow : base.toNat ^ k < 2 ^ 32)
    (hwrites : n ≠ 0 ∨ 0 < num.toNat / base.toNat ^ k ∨ k = 0) :
    ui2aDigits base (turns + 1) num (UInt32.ofNat (base.toNat ^ k)) n =
      (ui2aDigits base turns (UInt64.ofNat (num.toNat % base.toNat ^ k))
        (UInt32.ofNat (base.toNat ^ k / base.toNat)) (n + 1)).map
          (fun bf => digitByte (num.toNat / base.toNat ^ k) :: bf) := by
  have hpos : 0 < base.toNat ^ k := Nat.pow_pos (by omega)
  have hd := pow_toNat hpow
  generalize hdd : UInt32.ofNat (base.toNat ^ k) = d at hd
  have hdne : d ≠ 0 := by
    rintro rfl
    exact hpos.ne' hd.symm
  have hbne : base ≠ 0 := by
    rintro rfl
    exact absurd hbase (by decide)
  have hquot : num.toNat / base.toNat ^ k < base.toNat := by
    apply Nat.div_lt_of_lt_mul
    rw [← Nat.pow_succ]
    exact hlt
  have hdgt := quotient_toNat d hnum
  have hrest := remainder_eq d hnum
  rw [hd] at hdgt hrest
  obtain ⟨hchar, hgt⟩ := digitChar_eq (x := (num / d.toUInt64).toUInt32) (by omega)
  have hdiv : d / base = UInt32.ofNat (base.toNat ^ k / base.toNat) := by
    apply UInt32.toNat_inj.mp
    have hsmall := Nat.div_le_self (base.toNat ^ k) base.toNat
    rw [UInt32.toNat_div, hd, UInt32.toNat_ofNat_of_lt' (Nat.lt_of_le_of_lt hsmall hpow)]
  have hlast : k = 0 → d / base = 0 := by
    rintro rfl
    rw [hdiv, Nat.pow_zero, Nat.div_eq_of_lt hbase]
    rfl
  rw [ui2aDigits, if_neg hdne, if_neg hbne]
  dsimp only
  rw [hrest, hchar, hdgt, if_pos, hdiv]
  rcases hwrites with hn | hq | hk
  · exact .inl hn
  · exact .inr (.inl (hgt.mpr (by omega)))
  · exact .inr (.inr (hlast hk))

/-- From the `k`-th power on, the second loop writes `k + 1` digits. -/
theorem ui2aDigits_leading (hbase : 1 < base.toNat) (hle : base.toNat ≤ 36) (k turns : Nat)
    (num : UInt64) (n : Int32) (hturns : k + 1 < turns) (hnum : num.toNat < 2 ^ 32)
    (hlt : num.toNat < base.toNat ^ (k + 1)) (hpow : base.toNat ^ k < 2 ^ 32)
    (hn : 0 ≤ n.toInt ∧ n.toInt + turns < 100)
    (hwrites : n ≠ 0 ∨ 0 < num.toNat / base.toNat ^ k ∨ k = 0) :
    ui2aDigits base turns num (UInt32.ofNat (base.toNat ^ k)) n =
      some ((Numeral.leading base.toNat k num.toNat).map digitByte ++ [0]) := by
  induction k generalizing num n turns with
  | zero =>
      obtain ⟨turns, rfl⟩ := Nat.exists_eq_add_of_lt hturns
      have hend : UInt32.ofNat (base.toNat ^ 0 / base.toNat) = 0 := by
        rw [Nat.pow_zero, Nat.div_eq_of_lt hbase]
        rfl
      rw [ui2aDigits_turn hnum hlt hbase hle hpow hwrites, hend, Nat.zero_add, Nat.add_comm 1,
        ui2aDigits, if_pos rfl]
      simp [Numeral.leading]
  | succ k ih =>
      obtain ⟨turns, rfl⟩ := Nat.exists_eq_add_of_lt (Nat.lt_of_succ_lt hturns)
      have hpos : 0 < base.toNat ^ (k + 1) := Nat.pow_pos (by omega)
      have hdown : base.toNat ^ (k + 1) / base.toNat = base.toNat ^ k := by
        rw [Nat.pow_succ, Nat.mul_div_cancel _ (by omega)]
      have hsmall : base.toNat ^ k ≤ base.toNat ^ (k + 1) :=
        Nat.pow_le_pow_right (by omega) (Nat.le_succ k)
      have hmod := Nat.mod_lt num.toNat hpos
      have hrest : (UInt64.ofNat (num.toNat % base.toNat ^ (k + 1))).toNat =
          num.toNat % base.toNat ^ (k + 1) :=
        UInt64.toNat_ofNat_of_lt' (Nat.lt_of_le_of_lt (Nat.mod_le _ _) num.toNat_lt)
      have hone : (n + 1).toInt = n.toInt + 1 := by
        rw [Int32.toInt_add]
        exact Int.bmod_eq_of_le (by simp; omega) (by simp; omega)
      have hcount : n + 1 ≠ 0 := by
        intro hzero
        rw [hzero, Int32.toInt_zero] at hone
        omega
      rw [ui2aDigits_turn hnum hlt hbase hle hpow hwrites, hdown,
        ih _ (UInt64.ofNat (num.toNat % base.toNat ^ (k + 1))) (n + 1) (by omega) (by omega)
          (by omega) (by omega) (by omega) (.inl hcount), hrest]
      rfl

/-- `ui2a` of a 32-bit number ends, and writes its numeral. -/
theorem ui2a_numeral (hnum : num.toNat < 2 ^ 32) (hbase : 1 < base.toNat)
    (hle : base.toNat ≤ 36) :
    ui2a num base = some (numeral base.toNat num.toNat ++ [0]) := by
  obtain ⟨k, hk, hpow, hscale⟩ := ui2aScale_highest hnum hbase 33 0 (by omega) (.inl rfl)
  rw [Nat.pow_zero] at hscale
  have hlead : 0 < num.toNat / base.toNat ^ k ∨ k = 0 := by
    rcases hk.le with hzero | hge
    · exact .inr hzero
    · exact .inl (Nat.div_pos hge (Nat.pow_pos (by omega)))
  have hlt := exponent_lt hbase hpow
  rw [ui2a, show (1 : UInt32) = UInt32.ofNat 1 from rfl, hscale, Option.bind_some,
    ui2aDigits_leading hbase hle k 33 num 0 (by omega) hnum hk.lt hpow (by decide) (.inr hlead),
    Numeral.leading_eq_digits hbase hk, numeral]

theorem toUInt64_toNat {x : Int64} (h : 0 ≤ x.toInt) : x.toUInt64.toNat = x.toInt.natAbs := by
  have hle : (0 : Int64) ≤ x := by
    rw [Int64.le_iff_toInt_le]
    exact h
  rw [Int64.toNat_toUInt64_of_le hle, ← Int64.toNat_toInt]
  omega

/-- `i2a` of a number whose magnitude has 32 bits. -/
theorem i2a_signedNumeral {num : Int64} (hnum : num.toInt.natAbs < 2 ^ 32)
    (hbase : 1 < base.toNat) (hle : base.toNat ≤ 36) :
    i2a num base = some (signedNumeral base.toNat num.toInt ++ [0]) := by
  have hsign : num < 0 ↔ num.toInt < 0 := by
    rw [Int64.lt_iff_toInt_lt, Int64.toInt_zero]
  unfold i2a signedNumeral
  by_cases hneg : num.toInt < 0
  · have habs : (-num).toUInt64.toNat = num.toInt.natAbs := by
      have hminus : (-num).toInt = -num.toInt := by
        rw [Int64.toInt_neg]
        exact Int.bmod_eq_of_le (by omega) (by omega)
      rw [toUInt64_toNat (by omega), hminus, Int.natAbs_neg]
    rw [if_pos (hsign.mpr hneg), if_pos hneg, ui2a_numeral (by omega) hbase hle, habs]
    rfl
  · have habs : num.toUInt64.toNat = num.toInt.natAbs := toUInt64_toNat (by omega)
    rw [if_neg (mt hsign.mp hneg), if_neg hneg, ui2a_numeral (by omega) hbase hle, habs]

/-- `i2a` of an argument of 32 bits. -/
theorem i2a_numeral (w : UInt32) (hbase : 1 < base.toNat) (hle : base.toNat ≤ 36) :
    i2a w.toInt32.toInt64 base = some (signedNumeral base.toNat w.toInt32.toInt ++ [0]) := by
  have hlow := w.toInt32.le_toInt
  have hhigh := w.toInt32.toInt_lt
  have hwide : w.toInt32.toInt64.toInt = w.toInt32.toInt := Int32.toInt_toInt64 _
  rw [i2a_signedNumeral (by omega) hbase hle, hwide]

theorem length_decimal (w : UInt32) : (numeral 10 w.toNat).length ≤ 10 := by
  have hlt := w.toNat_lt
  exact length_numeral_le (by omega) (by omega) (by omega)

/-- A signed argument takes at most 11 characters in decimal. -/
theorem length_signed_decimal (w : UInt32) :
    (signedNumeral 10 w.toInt32.toInt).length ≤ 11 := by
  have hlow := w.toInt32.le_toInt
  have hhigh := w.toInt32.toInt_lt
  exact length_signedNumeral_le (by omega) (by omega) (by omega)

theorem length_signed_hex (w : UInt32) :
    (signedNumeral 16 w.toInt32.toInt).length ≤ 9 := by
  have hlow := w.toInt32.le_toInt
  have hhigh := w.toInt32.toInt_lt
  exact length_signedNumeral_le (by omega) (by omega) (by omega)

end Ui2a

end PascalScheduler
