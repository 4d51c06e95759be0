import PascalScheduler.Library.Crc
import PascalScheduler.Dev.Mmc

/-!
`mmc_crc7` as the CRC-7 of the standard. The accumulator has eight bits of
which the loop over the bits of a byte keeps seven: what is shifted into the
top bit is stale and is dropped by the next shift or by the mask at the end of
the byte. The low seven bits are the register of `Crc`.
-/

namespace PascalScheduler

open Polynomial

/-- The feedback `0x09` of `mmc_crc7`: `X ^ 3 + 1`. -/
def crcFeedback : BitVec 7 := 0x09#7

/-- The bits of a message in the order of transmission. -/
def messageBits (data : List UInt8) : List Bool :=
  data.flatMap fun c => (List.range 8).map c.toBitVec.getMsbD

/-- The bits of the accumulator that the code relies on. -/
def crcRegister (crc : UInt8) : BitVec 7 := crc.toBitVec.setWidth 7

theorem crc_generator : Crc.generator crcFeedback = X ^ 7 + X ^ 3 + 1 := by
  have hword : Crc.ofWord crcFeedback = X ^ 3 + 1 := by
    ext i
    have hbit : crcFeedback.getLsbD i = decide (i = 3 ∨ i = 0) := by
      by_cases hi : i < 7
      · interval_cases i <;> rfl
      · rw [BitVec.getLsbD_of_ge _ i (not_lt.mp hi), eq_comm, decide_eq_false_iff_not]
        omega
    rw [Crc.ofWord_coeff, hbit, coeff_add, coeff_X_pow, coeff_one]
    by_cases h3 : i = 3
    · simp [h3]
    · by_cases h0 : i = 0
      · simp [h0]
      · simp [h3, h0]
  rw [Crc.generator, hword, ← add_assoc]

/-- The test of the top bit of the code. -/
theorem topBit_ne_zero (c : UInt8) : c &&& 0x80 ≠ 0 ↔ c.toBitVec.getMsbD 0 = true := by
  have hbits : (c &&& 0x80).toBitVec = c.toBitVec &&& BitVec.twoPow 8 7 := rfl
  rw [ne_eq, ← UInt8.toBitVec_inj, hbits, BitVec.and_twoPow]
  have hmsb : c.toBitVec.getMsbD 0 = c.toBitVec.getLsbD 7 := rfl
  rw [hmsb]
  cases c.toBitVec.getLsbD 7 <;> simp

theorem crcRegister_xor (a b : UInt8) :
    crcRegister (a ^^^ b) = crcRegister a ^^^ crcRegister b := by
  simp [crcRegister]

theorem crcRegister_shift (crc : UInt8) :
    crcRegister (crc <<< 1) = crcRegister crc <<< 1 := by
  ext i hi
  simp [crcRegister, BitVec.getElem_shiftLeft]

/-- The mask at the end of a byte drops what the code does not rely on. -/
theorem crcRegister_mask (crc : UInt8) : crcRegister (crc &&& 0x7F) = crcRegister crc := by
  have hmask : crcRegister 0x7F = BitVec.allOnes 7 := rfl
  have hand : crcRegister (crc &&& 0x7F) = crcRegister crc &&& crcRegister 0x7F := by
    simp [crcRegister]
  rw [hand, hmask, BitVec.and_allOnes]

/-- One turn of the inner loop. -/
theorem crcTurn_register (c crc : UInt8) :
    crcRegister (if (c ^^^ crc <<< 1) &&& 0x80 ≠ 0 then crc <<< 1 ^^^ 0x09 else crc <<< 1) =
      Crc.shiftIn crcFeedback (crcRegister crc) (c.toBitVec.getMsbD 0) := by
  have htop : (c ^^^ crc <<< 1).toBitVec.getMsbD 0 =
      ((crcRegister crc).msb ^^ c.toBitVec.getMsbD 0) := by
    simp [crcRegister, BitVec.msb_eq_getLsbD_last, BitVec.getMsbD_eq_getLsbD, Bool.xor_comm]
  simp only [topBit_ne_zero, htop, Crc.shiftIn]
  split
  · rw [crcRegister_xor, crcRegister_shift]
    rfl
  · exact crcRegister_shift crc

/-- The inner loop takes the top `n` bits of its byte. -/
theorem crcBits_register (n : Nat) (c crc : UInt8) :
    crcRegister (crcBits n c crc) =
      ((List.range n).map c.toBitVec.getMsbD).foldl (Crc.shiftIn crcFeedback)
        (crcRegister crc) := by
  induction n generalizing c crc with
  | zero => rfl
  | succ n ih =>
      have hbits : (List.range (n + 1)).map c.toBitVec.getMsbD =
          c.toBitVec.getMsbD 0 :: (List.range n).map (c <<< 1).toBitVec.getMsbD := by
        rw [List.range_succ_eq_map, List.map_cons, List.map_map]
        congr 1
        apply List.map_congr_left
        intro i _
        simp [BitVec.getMsbD_shiftLeft]
      rw [hbits, List.foldl_cons, ← crcTurn_register, ← ih]
      rfl

theorem crcBytes_register (data : List UInt8) (crc : UInt8) :
    crcRegister (data.foldl (fun crc c => crcBits 8 c crc &&& 0x7F) crc) =
      (messageBits data).foldl (Crc.shiftIn crcFeedback) (crcRegister crc) := by
  induction data generalizing crc with
  | nil => rfl
  | cons c data ih =>
      rw [messageBits, List.flatMap_cons, List.foldl_append, List.foldl_cons, ih,
        crcRegister_mask, crcBits_register]
      rfl

/-- After each byte the top bit of the accumulator is clear. -/
theorem crcBytes_lt (data : List UInt8) :
    (data.foldl (fun crc c => crcBits 8 c crc &&& 0x7F) 0).toNat < 128 := by
  induction data using List.reverseRecOn with
  | nil => decide
  | append_singleton data c _ =>
      rw [List.foldl_append, List.foldl_cons, List.foldl_nil, UInt8.toNat_and]
      exact Nat.lt_succ_of_le Nat.and_le_right

/-- The byte that `mmc_crc7` returns: the register and the stop bit. -/
theorem mmcCrc7_toNat (data : List UInt8) :
    (mmcCrc7 data).toNat = 2 * (Crc.remainder crcFeedback (messageBits data)).toNat + 1 := by
  have hregister := crcBytes_register data 0
  have hlt := crcBytes_lt data
  rw [mmcCrc7]
  generalize data.foldl (fun crc c => crcBits 8 c crc &&& 0x7F) 0 = crc at hregister hlt
  have hzero : crcRegister 0 = 0#7 := rfl
  rw [hzero] at hregister
  rw [Crc.remainder, ← hregister]
  have hstop : (crc <<< 1 ||| 0x1).toNat = 2 * crc.toNat + 1 := by
    have hshift : (crc <<< 1).toNat = 2 ^ 1 * crc.toNat := by
      rw [UInt8.toNat_shiftLeft]
      change (crc.toNat <<< 1) % 256 = _
      rw [Nat.shiftLeft_eq]
      omega
    rw [UInt8.toNat_or, hshift]
    exact (Nat.two_pow_add_eq_or_of_lt (by decide : (1 : UInt8).toNat < 2 ^ 1) _).symm
  have hlow : (crcRegister crc).toNat = crc.toNat := by
    rw [crcRegister, BitVec.toNat_setWidth]
    exact Nat.mod_eq_of_lt hlt
  rw [hstop, hlow]

/-- `mmc_crc7` is the CRC-7 of the standard: the remainder of the message by
`X ^ 7 + X ^ 3 + 1`, and the stop bit. -/
theorem mmc_crc7_remainder (data : List UInt8) :
    (mmcCrc7 data).toNat =
      2 * Crc.number 7 ((Crc.ofBits (messageBits data) * X ^ 7) %ₘ (X ^ 7 + X ^ 3 + 1)) + 1 := by
  rw [mmcCrc7_toNat, ← crc_generator, ← Crc.remainder_mod, Crc.number_ofWord]

end PascalScheduler
