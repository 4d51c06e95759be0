import PascalScheduler.Dev.MmcCrc
import PascalScheduler.Dev.MmcRegisters

/-!
What the check of `mmc_read_csd` and `mmc_read_cid` catches. A register that
passes it is a multiple of the generator but for its stop bit, and the
generator has the prime period 127, the number of the other bits.
-/

namespace PascalScheduler

open Polynomial

/-- Bit `k` of a register image, in the order of transmission. -/
def imageBit (bytes : Nat → UInt8) (k : Nat) : Bool :=
  (bytes (k / 8)).toBitVec.getMsbD (k % 8)

/-- The bits in which two register images differ. -/
def changedBits (bytes bytes' : Nat → UInt8) : Finset Nat :=
  (Finset.range 128).filter fun k => imageBit bytes k ≠ imageBit bytes' k

noncomputable def imagePolynomial (bytes : Nat → UInt8) : (ZMod 2)[X] :=
  Crc.ofBits ((List.range 128).map (imageBit bytes))

variable {bytes bytes' : Nat → UInt8}

theorem messageBits_range (bytes : Nat → UInt8) (n : Nat) :
    messageBits ((List.range n).map bytes) = (List.range (8 * n)).map (imageBit bytes) := by
  induction n with
  | zero => rfl
  | succ n ih =>
      have hlast : (List.range 8).map (bytes n).toBitVec.getMsbD =
          ((List.range 8).map (8 * n + ·)).map (imageBit bytes) := by
        rw [List.map_map]
        apply List.map_congr_left
        intro i hi
        have hlt := List.mem_range.mp hi
        simp only [Function.comp_apply, imageBit]
        rw [show (8 * n + i) / 8 = n by omega, show (8 * n + i) % 8 = i by omega]
      rw [List.range_succ, List.map_append, Nat.mul_succ, List.range_add, List.map_append,
        ← ih, ← hlast]
      simp [messageBits]

/-- A register image is its message followed by its last byte. -/
theorem imagePolynomial_split (bytes : Nat → UInt8) :
    imagePolynomial bytes =
      Crc.ofBits (messageBits ((List.range 15).map bytes)) * X ^ 8 +
        Crc.ofWord (bytes 15).toBitVec := by
  have hsplit : (List.range 128).map (imageBit bytes) =
      messageBits ((List.range 15).map bytes) ++
        (List.range 8).map (bytes 15).toBitVec.getMsbD := by
    have hall := messageBits_range bytes 16
    rw [List.range_succ, List.map_append, messageBits, List.flatMap_append] at hall
    simpa [messageBits] using hall.symm
  rw [imagePolynomial, hsplit, Crc.ofBits_append, Crc.ofBits_word]
  simp

/-- The last byte of a register that passes: the CRC and the stop bit. -/
theorem valid_lastByte (h : registerValid bytes) :
    Crc.ofWord (bytes 15).toBitVec =
      Crc.ofWord (Crc.remainder crcFeedback (messageBits ((List.range 15).map bytes))) * X +
        1 := by
  have hbyte := mmcCrc7_toNat ((List.range 15).map bytes)
  rw [registerValid] at h
  rw [h] at hbyte
  ext i
  rw [coeff_add, coeff_one, Crc.ofWord_coeff]
  change Crc.bit ((bytes 15).toNat.testBit i) = _
  rw [hbyte]
  cases i with
  | zero => simp
  | succ i =>
      rw [Nat.testBit_succ, coeff_mul_X, Crc.ofWord_coeff, if_neg (Nat.succ_ne_zero i), add_zero]
      congr 2
      omega

theorem valid_stopBit (h : registerValid bytes) : imageBit bytes 127 = true := by
  have hbyte := mmcCrc7_toNat ((List.range 15).map bytes)
  rw [registerValid] at h
  rw [h] at hbyte
  change (bytes 15).toNat.testBit 0 = true
  simp [hbyte]

-- unifying the ring operations of the polynomials over `ZMod 2` goes deep
set_option maxRecDepth 2000 in
/-- But for the stop bit, a register that passes is a multiple of the generator. -/
theorem valid_dvd (h : registerValid bytes) :
    Crc.generator crcFeedback ∣ imagePolynomial bytes - 1 := by
  have hcode := Crc.generator_dvd_codeword crcFeedback
    (messageBits ((List.range 15).map bytes))
  rw [imagePolynomial_split, valid_lastByte h]
  have hshift : ∀ p r : (ZMod 2)[X], p * X ^ 8 + (r * X + 1) - 1 = (p * X ^ 7 + r) * X := by
    intro p r
    ring
  rw [hshift]
  exact dvd_mul_of_dvd_left hcode X

theorem crc_period : Crc.Period (Crc.generator crcFeedback) (120 + 7) := by
  apply Crc.period_of_remainder (by omega)
  decide +kernel

/-- The places of the changed bits, as powers of `X`. -/
theorem imagePolynomial_sub (bytes bytes' : Nat → UInt8) :
    imagePolynomial bytes - imagePolynomial bytes' =
      ∑ i ∈ (changedBits bytes bytes').image (127 - ·), X ^ i := by
  rw [imagePolynomial, imagePolynomial, Crc.ofBits_sub, changedBits, Finset.sum_image]
  intro i hi j hj hij
  have hi' := Finset.mem_range.mp (Finset.mem_filter.mp hi).1
  have hj' := Finset.mem_range.mp (Finset.mem_filter.mp hj).1
  change 127 - i = 127 - j at hij
  omega

set_option maxRecDepth 2000 in
/-- Two registers that both pass are equal, or differ in at least three bits. -/
theorem valid_distance (h : registerValid bytes) (h' : registerValid bytes') :
    ¬ ((changedBits bytes bytes').card = 1 ∨ (changedBits bytes bytes').card = 2) := by
  intro hcard
  have hplace : ∀ i ∈ (changedBits bytes bytes').image (127 - ·), 1 ≤ i ∧ i ≤ 127 := by
    intro i hi
    obtain ⟨k, hk, rfl⟩ := Finset.mem_image.mp hi
    obtain ⟨hrange, hne⟩ := Finset.mem_filter.mp hk
    have hlt := Finset.mem_range.mp hrange
    -- the stop bit is set in both
    have hstop : k ≠ 127 := by
      rintro rfl
      exact hne ((valid_stopBit h).trans (valid_stopBit h').symm)
    change 1 ≤ 127 - k ∧ 127 - k ≤ 127
    omega
  have hinjective : Set.InjOn (127 - ·) (changedBits bytes bytes' : Set Nat) := by
    intro i hi j hj hij
    have hi' := Finset.mem_range.mp (Finset.mem_filter.mp hi).1
    have hj' := Finset.mem_range.mp (Finset.mem_filter.mp hj).1
    change 127 - i = 127 - j at hij
    omega
  rw [← Finset.card_image_of_injOn hinjective] at hcard
  refine Crc.not_dvd_change (by norm_num) crc_period (Crc.generator_not_dvd (by omega)) hcard
    ?_ ?_
  · intro i hi j hj
    have := hplace i hi
    have := hplace j hj
    omega
  · rw [← imagePolynomial_sub]
    have hboth := dvd_sub (valid_dvd h) (valid_dvd h')
    rwa [sub_sub_sub_cancel_right] at hboth

/-- The register check catches every change of one or two bits: the changed
register is refused, and nothing is decoded from it. -/
theorem register_check_catches (bytes bytes' : Nat → UInt8) (h : registerValid bytes)
    (hchange : (changedBits bytes bytes').card = 1 ∨ (changedBits bytes bytes').card = 2) :
    ¬ registerValid bytes' ∧
      ∀ card, decodeCsd bytes' card = (mmcError, card) ∧
        decodeCid bytes' card = (mmcError, card) := by
  have hrefused : ¬ registerValid bytes' := fun h' => valid_distance h h' hchange
  refine ⟨hrefused, ?_⟩
  intro card
  rw [decodeCsd, decodeCid, if_pos hrefused, if_pos hrefused]
  exact ⟨rfl, rfl⟩

/-- The CID of a card, and the same with two bits changed, one of them in the
CRC. -/
theorem register_check_catches_cid :
    let cid := arrayOf [0x02, 0x54, 0x4D, 0x53, 0x41, 0x30, 0x38, 0x47, 0x14, 0x39, 0x4A,
      0x67, 0xC7, 0x00, 0xE4, 0xE5]
    let cid' := arrayOf [0x02, 0x54, 0x4D, 0x53, 0x41, 0x31, 0x38, 0x47, 0x14, 0x39, 0x4A,
      0x67, 0xC7, 0x00, 0xE4, 0xE7]
    registerValid cid ∧ (changedBits cid cid').card = 2 ∧ ¬ registerValid cid' := by
  intro cid cid'
  have hvalid : registerValid cid := by decide +kernel
  have hcard : (changedBits cid cid').card = 2 := by decide +kernel
  exact ⟨hvalid, hcard, (register_check_catches cid cid' hvalid (.inr hcard)).1⟩

end PascalScheduler
