import Mathlib.Tactic
import Mathlib.Algebra.CharP.Two
import Mathlib.Algebra.Polynomial.Div
import Mathlib.GroupTheory.OrderOfElement
import Mathlib.RingTheory.AdjoinRoot

/-!
Cyclic redundancy checks over the field of two elements. A shift register of
`w` bits with feedback `g` computes the remainder of a message by the generator
`X ^ w + g`, and a generator of prime period `n` tells apart any two words of
at most `n` bits that differ in one or two places.
-/

namespace Crc

open Polynomial

/-- A bit as a coefficient. -/
def bit (b : Bool) : ZMod 2 := if b then 1 else 0

/-- The polynomial of a message, its first bit the highest coefficient. -/
noncomputable def ofBits (message : List Bool) : (ZMod 2)[X] :=
  message.foldl (fun p b => p * X + C (bit b)) 0

/-- The polynomial of a word: bit `i` is the coefficient of `X ^ i`. -/
noncomputable def ofWord {w : Nat} (v : BitVec w) : (ZMod 2)[X] :=
  ∑ i ∈ Finset.range w, C (bit (v.getLsbD i)) * X ^ i

/-- The number whose binary digits are the coefficients below `X ^ w`. -/
noncomputable def number (w : Nat) (p : (ZMod 2)[X]) : Nat :=
  Nat.ofBits fun i : Fin w => decide (p.coeff i = 1)

noncomputable def generator {w : Nat} (g : BitVec w) : (ZMod 2)[X] :=
  X ^ w + ofWord g

/-- One message bit enters the register. -/
def shiftIn {w : Nat} (g r : BitVec w) (b : Bool) : BitVec w :=
  if (r.msb ^^ b) = true then r <<< 1 ^^^ g else r <<< 1

def remainder {w : Nat} (g : BitVec w) (message : List Bool) : BitVec w :=
  message.foldl (shiftIn g) 0#w

section Bits

@[simp] theorem bit_false : bit false = 0 := rfl

@[simp] theorem bit_true : bit true = 1 := rfl

theorem bit_xor (a b : Bool) : bit (a ^^ b) = bit a + bit b := by
  cases a <;> cases b <;> decide

theorem bit_sub (a b : Bool) : bit a - bit b = if a = b then 0 else 1 := by
  cases a <;> cases b <;> decide

theorem bit_eq_one {b : Bool} : bit b = 1 ↔ b = true := by
  cases b <;> decide

theorem ofBits_concat (message : List Bool) (b : Bool) :
    ofBits (message ++ [b]) = ofBits message * X + C (bit b) := by
  simp only [ofBits, List.foldl_append, List.foldl_cons, List.foldl_nil]

theorem ofBits_append (message more : List Bool) :
    ofBits (message ++ more) = ofBits message * X ^ more.length + ofBits more := by
  induction more using List.reverseRecOn with
  | nil => simp [ofBits]
  | append_singleton more b ih =>
      rw [← List.append_assoc, ofBits_concat, ofBits_concat, ih, List.length_append]
      simp only [List.length_singleton, pow_succ]
      ring

theorem ofBits_zeros (n : Nat) : ofBits (List.replicate n false) = 0 := by
  induction n with
  | zero => rfl
  | succ n ih =>
      rw [List.replicate_succ', ofBits_concat, ih]
      simp

/-- Bit `k` of a message of `n` bits is the coefficient of `X ^ (n - 1 - k)`. -/
theorem ofBits_range (n : Nat) (f : Nat → Bool) :
    ofBits ((List.range n).map f) =
      ∑ k ∈ Finset.range n, C (bit (f k)) * X ^ (n - 1 - k) := by
  induction n with
  | zero => rfl
  | succ n ih =>
      rw [List.range_succ, List.map_append, List.map_singleton, ofBits_concat, ih,
        Finset.sum_range_succ, Finset.sum_mul]
      have hshift : ∀ k ∈ Finset.range n,
          C (bit (f k)) * X ^ (n - 1 - k) * X = C (bit (f k)) * X ^ (n + 1 - 1 - k) := by
        intro k hk
        have hlt := Finset.mem_range.mp hk
        rw [mul_assoc, ← pow_succ]
        congr 2
        omega
      rw [Finset.sum_congr rfl hshift]
      simp

/-- Two messages of one length differ by the monomials of the places where
they differ. -/
theorem ofBits_sub (n : Nat) (f g : Nat → Bool) :
    ofBits ((List.range n).map f) - ofBits ((List.range n).map g) =
      ∑ k ∈ (Finset.range n).filter (fun k => f k ≠ g k), X ^ (n - 1 - k) := by
  rw [ofBits_range, ofBits_range, ← Finset.sum_sub_distrib, Finset.sum_filter]
  apply Finset.sum_congr rfl
  intro k _
  rw [← sub_mul, ← C_sub, bit_sub]
  by_cases hsame : f k = g k
  · simp [hsame]
  · simp [hsame]

end Bits

section Words

variable {w : Nat} (g v : BitVec w)

theorem ofWord_coeff (i : Nat) : (ofWord v).coeff i = bit (v.getLsbD i) := by
  rw [ofWord, finsetSum_coeff]
  simp only [coeff_C_mul_X_pow, Finset.sum_ite_eq, Finset.mem_range]
  split
  · rfl
  · rename_i hout
    rw [BitVec.getLsbD_of_ge v i (not_lt.mp hout), bit_false]

theorem ofWord_degree_lt : (ofWord v).degree < w := by
  rw [degree_lt_iff_coeff_zero]
  intro i hi
  rw [ofWord_coeff, BitVec.getLsbD_of_ge v i hi, bit_false]

/-- The bits of a word, highest first, are a message. -/
theorem ofBits_word : ofBits ((List.range w).map v.getMsbD) = ofWord v := by
  rw [ofBits_range, ofWord, ← Finset.sum_range_reflect]
  apply Finset.sum_congr rfl
  intro i hi
  have hlt := Finset.mem_range.mp hi
  rw [BitVec.getMsbD_eq_getLsbD]
  simp [show w - 1 - i < w by omega, show w - 1 - (w - 1 - i) = i by omega]

theorem number_ofWord : number w (ofWord v) = v.toNat := by
  apply Nat.eq_of_testBit_eq
  intro i
  rw [number, Nat.testBit_ofBits]
  split
  · simp only [ofWord_coeff, bit_eq_one, Bool.decide_eq_true]
    rfl
  · rename_i hout
    rw [Nat.testBit_lt_two_pow]
    exact lt_of_lt_of_le v.isLt (Nat.pow_le_pow_right (by omega) (not_lt.mp hout))

theorem generator_monic : (generator g).Monic :=
  monic_X_pow_add (ofWord_degree_lt g)

theorem generator_degree : (generator g).degree = w := by
  have hlow : (ofWord g).degree < (X ^ w : (ZMod 2)[X]).degree := by
    rw [degree_X_pow]
    exact ofWord_degree_lt g
  rw [generator, degree_add_eq_left_of_degree_lt hlow, degree_X_pow]

end Words

section Remainder

variable {w : Nat} (g : BitVec w)

/-- The quotient digit of a turn is the bit that leaves the register plus the
bit that enters. -/
theorem shiftIn_coeff (r : BitVec w) (b : Bool) (i : Nat) :
    bit ((shiftIn g r b).getLsbD i) + bit (r.msb ^^ b) * bit (g.getLsbD i) =
      bit ((r <<< 1).getLsbD i) := by
  rw [shiftIn]
  cases r.msb ^^ b with
  | false => simp
  | true =>
      rw [if_pos rfl, BitVec.getLsbD_xor, bit_xor, bit_true, one_mul, add_assoc,
        CharTwo.add_self_eq_zero, add_zero]

theorem shiftIn_division (r : BitVec w) (b : Bool) :
    ofWord (shiftIn g r b) + generator g * C (bit (r.msb ^^ b)) =
      ofWord r * X + C (bit b) * X ^ w := by
  ext i
  rw [generator, add_mul]
  simp only [coeff_add, coeff_mul_C, coeff_C_mul, ofWord_coeff, coeff_X_pow]
  rcases Nat.lt_trichotomy i w with hlt | rfl | hgt
  · have hturn := shiftIn_coeff g r b i
    simp only [if_neg (Nat.ne_of_lt hlt), zero_mul, mul_zero, zero_add, add_zero]
    rw [mul_comm (bit (g.getLsbD i)), hturn, BitVec.getLsbD_shiftLeft]
    cases i with
    | zero => simp
    | succ i => simp [hlt, coeff_mul_X, ofWord_coeff]
  · rw [BitVec.getLsbD_of_ge _ i le_rfl, BitVec.getLsbD_of_ge g i le_rfl, bit_xor]
    cases i with
    | zero => simp [BitVec.msb_eq_getLsbD_last]
    | succ i => simp [coeff_mul_X, ofWord_coeff, BitVec.msb_eq_getLsbD_last]
  · obtain ⟨k, rfl⟩ : ∃ k, i = k + 1 := ⟨i - 1, by omega⟩
    rw [BitVec.getLsbD_of_ge _ _ hgt.le, BitVec.getLsbD_of_ge g _ hgt.le, coeff_mul_X,
      ofWord_coeff, BitVec.getLsbD_of_ge r k (by omega)]
    simp [Nat.ne_of_gt hgt]

/-- One turn of the register multiplies by `X`, adds the bit and reduces. -/
theorem shiftIn_mod (r : BitVec w) (b : Bool) :
    ofWord (shiftIn g r b) = (ofWord r * X + C (bit b) * X ^ w) %ₘ generator g := by
  have hdegree : (ofWord (shiftIn g r b)).degree < (generator g).degree := by
    rw [generator_degree]
    exact ofWord_degree_lt _
  exact (div_modByMonic_unique _ _ (generator_monic g)
    ⟨shiftIn_division g r b, hdegree⟩).2.symm

/-- The register holds the remainder of the message shifted by its width. -/
theorem remainder_mod (message : List Bool) :
    ofWord (remainder g message) = (ofBits message * X ^ w) %ₘ generator g := by
  induction message using List.reverseRecOn with
  | nil =>
      have hzero : ofWord (0#w) = 0 := by
        ext i
        rw [ofWord_coeff]
        simp
      simpa [remainder, ofBits] using hzero
  | append_singleton message b ih =>
      have hturn : remainder g (message ++ [b]) = shiftIn g (remainder g message) b := by
        simp only [remainder, List.foldl_append, List.foldl_cons, List.foldl_nil]
      rw [hturn, shiftIn_mod, ih, ofBits_concat]
      apply modByMonic_eq_of_dvd_sub (generator_monic g)
      have hfactor : ofBits message * X ^ w %ₘ generator g * X + C (bit b) * X ^ w -
          (ofBits message * X + C (bit b)) * X ^ w =
            (ofBits message * X ^ w %ₘ generator g - ofBits message * X ^ w) * X := by
        ring
      rw [hfactor]
      exact dvd_mul_of_dvd_left (dvd_modByMonic_sub _ _) X

/-- A message followed by its remainder is a multiple of the generator. -/
theorem generator_dvd_codeword (message : List Bool) :
    generator g ∣ ofBits message * X ^ w + ofWord (remainder g message) := by
  rw [remainder_mod, add_comm, ← CharTwo.sub_eq_add]
  exact dvd_modByMonic_sub _ _

end Remainder

section Detection

variable {w : Nat} {g : BitVec w}

/-- The register after a single one reads off the powers of `X`. -/
theorem remainder_one (n : Nat) :
    ofWord (remainder g (true :: List.replicate n false)) =
      X ^ (n + w) %ₘ generator g := by
  have hone : ofBits (true :: List.replicate n false) = X ^ n := by
    rw [← List.singleton_append, ofBits_append, ofBits_zeros, List.length_replicate]
    simp [ofBits]
  rw [remainder_mod, hone, pow_add]

/-- `X ^ n` leaves the remainder one. -/
def Period (p : (ZMod 2)[X]) (n : Nat) : Prop :=
  p ∣ X ^ n - 1

theorem period_of_remainder {n : Nat} (hw : 0 < w)
    (h : remainder g (true :: List.replicate n false) = 1#w) :
    Period (generator g) (n + w) := by
  have hone : ofWord (1#w) = 1 := by
    ext i
    rw [ofWord_coeff, coeff_one]
    by_cases hi : i = 0
    · simp [hi, hw]
    · simp [hi, BitVec.getLsbD_one]
  have hmod : X ^ (n + w) %ₘ generator g = 1 := by
    rw [← remainder_one, h, hone]
  rw [Period, ← neg_sub, dvd_neg]
  have hdvd := dvd_modByMonic_sub (X ^ (n + w)) (generator g)
  rwa [hmod] at hdvd

/-- A generator of more than one bit does not divide `X - 1`. -/
theorem generator_not_dvd (hw : 1 < w) : ¬ generator g ∣ X - 1 := by
  apply (generator_monic g).not_dvd_of_degree_lt
  · exact X_sub_C_ne_zero 1
  · rw [generator_degree, ← C_1, degree_X_sub_C]
    exact_mod_cast hw

variable {p : (ZMod 2)[X]} {n : Nat}

/-- The powers of `X` below a prime period are different modulo `p`. -/
theorem dvd_pow_sub_pow (hn : n.Prime) (hperiod : Period p n) (hone : ¬ p ∣ X - 1)
    {i j : Nat} (h : p ∣ X ^ j - X ^ i) : i ≡ j [MOD n] := by
  have : Fact n.Prime := ⟨hn⟩
  have hroot : AdjoinRoot.root p ^ n = 1 := by
    have hzero := AdjoinRoot.mk_eq_zero.mpr hperiod
    simpa [sub_eq_zero] using hzero
  let u := Units.ofPowEqOne (AdjoinRoot.root p) n hroot hn.ne_zero
  have hu : u ^ n = 1 := Units.ext hroot
  have hne : u ≠ 1 := by
    intro hcontra
    apply hone
    apply AdjoinRoot.mk_eq_zero.mp
    have hval : AdjoinRoot.root p = 1 := congrArg Units.val hcontra
    simp [hval]
  have hpow : u ^ i = u ^ j := by
    apply Units.ext
    have hzero := AdjoinRoot.mk_eq_zero.mpr h
    have heq : AdjoinRoot.root p ^ j = AdjoinRoot.root p ^ i := by
      simpa [sub_eq_zero] using hzero
    exact heq.symm
  rw [← orderOf_eq_prime hu hne]
  exact pow_eq_pow_iff_modEq.mp hpow

theorem not_dvd_pow (hn : n.Prime) (hperiod : Period p n) (hone : ¬ p ∣ X - 1) (i : Nat) :
    ¬ p ∣ X ^ i := by
  intro hi
  -- the next power would then be congruent to this one
  have hsub : p ∣ X ^ (i + 1) - X ^ i := by
    rw [pow_succ]
    exact dvd_sub (dvd_mul_of_dvd_left hi X) hi
  have hmod := dvd_pow_sub_pow hn hperiod hone hsub
  have hdvd : n ∣ i + 1 - i := (Nat.modEq_iff_dvd' (by omega)).mp hmod
  rw [Nat.add_sub_cancel_left, Nat.dvd_one] at hdvd
  exact hn.one_lt.ne' hdvd

/-- No change of one or two places within a period is a multiple. -/
theorem not_dvd_change (hn : n.Prime) (hperiod : Period p n) (hone : ¬ p ∣ X - 1)
    {e : Finset Nat} (hcard : e.card = 1 ∨ e.card = 2)
    (hspread : ∀ i ∈ e, ∀ j ∈ e, j < i + n) : ¬ p ∣ ∑ i ∈ e, X ^ i := by
  rcases hcard with hcard | hcard
  · obtain ⟨i, rfl⟩ := Finset.card_eq_one.mp hcard
    rw [Finset.sum_singleton]
    exact not_dvd_pow hn hperiod hone i
  · obtain ⟨i, j, hne, rfl⟩ := Finset.card_eq_two.mp hcard
    rw [Finset.sum_pair hne, add_comm, ← CharTwo.sub_eq_add]
    intro hdvd
    have hmod := dvd_pow_sub_pow hn hperiod hone hdvd
    have hij := hspread i (by simp) j (by simp)
    have hji := hspread j (by simp) i (by simp)
    rcases Nat.lt_or_gt_of_ne hne with hlt | hgt
    · have hle := Nat.le_of_dvd (by omega) ((Nat.modEq_iff_dvd' hlt.le).mp hmod)
      omega
    · have hle := Nat.le_of_dvd (by omega) ((Nat.modEq_iff_dvd' hgt.le).mp hmod.symm)
      omega

end Detection

end Crc
