import PascalScheduler.Library.BitSlice
import PascalScheduler.Dev.MmcRegisters

/-!
The fields of the CSD and CID registers as slices of one number, the 128 bits
of the register. Word selection, the byte swap and the shifts across a word
boundary of `UNSTUFF_BITS` are compared with it bit by bit.
-/

namespace PascalScheduler

open BitSlice

/-- The register: the number formed by its 16 bytes, the first the highest. -/
def registerNumber (bytes : Nat → UInt8) : Nat :=
  bigEndian bytes 16

variable (bytes : Nat → UInt8)

theorem swapWords_apply (data : Nat → UInt8) (k j : Nat) :
    swapWords data k j = if k ≤ j ∧ j < k + 4 then data (2 * k + 3 - j) else data j := by
  simp only [swapWords, Function.update_apply]
  split_ifs <;> first | omega | congr 1 <;> omega

/-- Each word of the register is turned round. -/
theorem swapRegister_apply {j : Nat} (hj : j < 16) :
    swapRegister bytes j = bytes (4 * (j / 4) + 3 - j % 4) := by
  interval_cases j <;> simp [swapRegister, swapWords_apply]

/-- A byte that is shifted to place `k` of a word. -/
theorem byte_place (b : UInt8) (k n : Nat) :
    (decide (8 * k ≤ n) && b.toNat.testBit (n - 8 * k)) =
      (decide (n / 8 = k) && b.toNat.testBit (n % 8)) := by
  by_cases hk : n / 8 = k
  · rw [decide_eq_true (by omega : 8 * k ≤ n), decide_eq_true hk]
    congr 2
    omega
  · rw [decide_eq_false hk, Bool.false_and]
    by_cases hle : 8 * k ≤ n
    · rw [byte_testBit b (by omega), Bool.and_false]
    · rw [decide_eq_false hle, Bool.false_and]

theorem byte_shift_testBit (b : UInt8) (c : UInt32) {k : Nat} (n : Nat) (hk : k < 4)
    (hc : c.toNat = 8 * k) :
    (b.toUInt32 <<< c).toNat.testBit n =
      (decide (n / 8 = k) && b.toNat.testBit (n % 8)) := by
  rw [UInt32.toNat_shiftLeft, UInt8.toNat_toUInt32, hc, Nat.mod_eq_of_lt (by omega : 8 * k < 32),
    Nat.testBit_mod_two_pow, Nat.testBit_shiftLeft, ← byte_place]
  by_cases hn : n < 32
  · simp [hn]
  · rw [byte_testBit b (by omega)]
    simp

/-- Bit `n` of a word is bit `n % 8` of its byte `n / 8`. -/
theorem wordAt_testBit (data : Nat → UInt8) (i : Nat) {n : Nat} (hn : n < 32) :
    (wordAt data i).toNat.testBit n = (data (4 * i + n / 8)).toNat.testBit (n % 8) := by
  have hfirst : (data (4 * i)).toUInt32.toNat.testBit n =
      (decide (n / 8 = 0) && (data (4 * i)).toNat.testBit (n % 8)) := by
    rw [← byte_place, UInt8.toNat_toUInt32]
    simp
  rw [wordAt, UInt32.toNat_or, UInt32.toNat_or, UInt32.toNat_or, Nat.testBit_or,
    Nat.testBit_or, Nat.testBit_or, hfirst,
    byte_shift_testBit _ 8 (k := 1) _ (by omega) rfl,
    byte_shift_testBit _ 16 (k := 2) _ (by omega) rfl,
    byte_shift_testBit _ 24 (k := 3) _ (by omega) rfl]
  have hplace : n / 8 < 4 := by omega
  generalize n / 8 = place at hplace
  interval_cases place <;> simp

/-- The words of the register after the swap, the first the highest. -/
theorem registerWord_testBit {i n : Nat} (hi : i < 4) (hn : n < 32) :
    (wordAt (swapRegister bytes) i).toNat.testBit n =
      (registerNumber bytes).testBit (32 * (3 - i) + n) := by
  rw [wordAt_testBit _ _ hn, swapRegister_apply _ (by omega), registerNumber,
    bigEndian_testBit _ _ _ (by omega)]
  congr 1
  · congr 2
    omega
  · omega

theorem unstuffMask_toNat (size : UInt32) (hpos : 1 ≤ size.toNat) (hle : size.toNat ≤ 32) :
    ((if size < 32 then (1 : UInt32) <<< size else 0) - 1).toNat = 2 ^ size.toNat - 1 := by
  split
  · rename_i hlt
    have hsize : size.toNat < 32 := hlt
    have hshift : ((1 : UInt32) <<< size).toNat = 2 ^ size.toNat := by
      rw [UInt32.toNat_shiftLeft, Nat.mod_eq_of_lt hsize]
      change (1 <<< size.toNat) % 2 ^ 32 = _
      rw [Nat.shiftLeft_eq, one_mul, Nat.mod_eq_of_lt (Nat.pow_lt_pow_right (by omega) hsize)]
    have hone : (1 : UInt32) ≤ (1 : UInt32) <<< size := by
      rw [UInt32.le_iff_toNat_le, hshift]
      exact Nat.one_le_two_pow
    rw [UInt32.toNat_sub_of_le _ _ hone, hshift]
    rfl
  · rename_i hge
    have hsize : size.toNat = 32 := by
      have hle' : ¬ size.toNat < 32 := hge
      omega
    rw [hsize]
    rfl

theorem unstuffShift_toNat (start : UInt32) : (start &&& 31).toNat = start.toNat % 32 := by
  rw [UInt32.toNat_and]
  exact Nat.and_two_pow_sub_one_eq_mod start.toNat 5

theorem word_testBit (x : UInt32) {n : Nat} (hn : 32 ≤ n) : x.toNat.testBit n = false :=
  Nat.testBit_lt_two_pow (lt_of_lt_of_le x.toNat_lt (Nat.pow_le_pow_right (by omega) hn))

/-- The lower word, shifted down by the place of the first bit. -/
theorem unstuffLower_testBit (x start : UInt32) (k : Nat) :
    (x >>> (start &&& 31)).toNat.testBit k = x.toNat.testBit (start.toNat % 32 + k) := by
  rw [UInt32.toNat_shiftRight, unstuffShift_toNat, Nat.mod_mod, Nat.testBit_shiftRight]

/-- The upper word, shifted up behind what the lower one left. -/
theorem unstuffUpper_testBit (x start : UInt32) {k : Nat} (hplace : 0 < start.toNat % 32)
    (hk : k < 32) :
    (x <<< ((32 - (start &&& 31)) % 32)).toNat.testBit k =
      (decide (32 ≤ start.toNat % 32 + k) &&
        x.toNat.testBit (start.toNat % 32 + k - 32)) := by
  have hle : start &&& 31 ≤ 32 := by
    rw [UInt32.le_iff_toNat_le, unstuffShift_toNat]
    change start.toNat % 32 ≤ 32
    omega
  have hshift : ((32 - (start &&& 31)) % 32).toNat = 32 - start.toNat % 32 := by
    rw [UInt32.toNat_mod, UInt32.toNat_sub_of_le _ _ hle, unstuffShift_toNat]
    exact Nat.mod_eq_of_lt (by omega : 32 - start.toNat % 32 < 32)
  rw [UInt32.toNat_shiftLeft, hshift,
    Nat.mod_eq_of_lt (by omega : 32 - start.toNat % 32 < 32), Nat.testBit_mod_two_pow,
    Nat.testBit_shiftLeft, decide_eq_true hk, Bool.true_and]
  congr 1
  · exact decide_eq_decide.mpr (by omega)
  · congr 1
    omega

/-- The bits that `UNSTUFF_BITS` takes from the two words. -/
theorem unstuffBits_testBit (resp : Nat → UInt32) (start size : UInt32) (k : Nat)
    (hpos : 1 ≤ size.toNat) (hle : size.toNat ≤ 32) :
    (unstuffBits resp start size).toNat.testBit k =
      (decide (k < size.toNat) &&
        if start.toNat % 32 + k < 32 then
          (resp (3 - start.toNat / 32)).toNat.testBit (start.toNat % 32 + k)
        else (resp (3 - start.toNat / 32 - 1)).toNat.testBit (start.toNat % 32 + k - 32)) := by
  have hword : (start / 32).toNat = start.toNat / 32 := UInt32.toNat_div start 32
  have hcross : size + (start &&& 31) > 32 ↔ 32 < size.toNat + start.toNat % 32 := by
    rw [gt_iff_lt, UInt32.lt_iff_toNat_lt, UInt32.toNat_add, unstuffShift_toNat,
      Nat.mod_eq_of_lt (by omega)]
    rfl
  simp only [unstuffBits, hword, UInt32.toNat_and, unstuffMask_toNat size hpos hle,
    Nat.testBit_and, Nat.testBit_two_pow_sub_one, hcross]
  rw [Bool.and_comm]
  by_cases hk : k < size.toNat
  · rw [decide_eq_true hk, Bool.true_and, Bool.true_and]
    by_cases hup : 32 < size.toNat + start.toNat % 32
    · rw [if_pos hup, UInt32.toNat_or, Nat.testBit_or, unstuffLower_testBit,
        unstuffUpper_testBit _ _ (by omega) (by omega)]
      by_cases hlow : start.toNat % 32 + k < 32
      · rw [if_pos hlow, decide_eq_false (by omega), Bool.false_and, Bool.or_false]
      · rw [if_neg hlow, decide_eq_true (by omega), Bool.true_and,
          word_testBit _ (by omega), Bool.false_or]
    · rw [if_neg hup, unstuffLower_testBit, if_pos (by omega)]
  · rw [decide_eq_false hk, Bool.false_and, Bool.false_and]

/-- `UNSTUFF_BITS` takes a slice of the register. -/
theorem unstuffBits_slice (start size : UInt32) (hpos : 1 ≤ size.toNat)
    (hle : size.toNat ≤ 32) (hend : start.toNat + size.toNat ≤ 128) :
    (unstuffBits (wordAt (swapRegister bytes)) start size).toNat =
      slice (registerNumber bytes) start.toNat size.toNat := by
  apply eq_slice
  intro k
  rw [unstuffBits_testBit _ _ _ _ hpos hle]
  by_cases hk : k < size.toNat
  · rw [decide_eq_true hk, Bool.true_and, Bool.true_and]
    split
    · rw [registerWord_testBit _ (by omega) (by omega)]
      congr 1
      omega
    · rw [registerWord_testBit _ (by omega) (by omega)]
      congr 1
      omega
  · rw [decide_eq_false hk, Bool.false_and, Bool.false_and]

theorem unstuffByte_slice (start size : UInt32) (hpos : 1 ≤ size.toNat)
    (hle : size.toNat ≤ 8) (hend : start.toNat + size.toNat ≤ 128) :
    (unstuffBits (wordAt (swapRegister bytes)) start size).toUInt8.toNat =
      slice (registerNumber bytes) start.toNat size.toNat := by
  have hlt := slice_lt (registerNumber bytes) start.toNat size.toNat
  have hbyte : 2 ^ size.toNat ≤ 2 ^ 8 := Nat.pow_le_pow_right (by omega) hle
  rw [UInt32.toNat_toUInt8, unstuffBits_slice _ _ _ hpos (by omega) hend]
  exact Nat.mod_eq_of_lt (by omega)

/-- The characters of a string field whose first byte starts at bit `first` of
the register: those before the first zero. -/
def characters (r first num : Nat) : List Nat :=
  ((List.range num).map fun k => slice r (first - 8 * k) 8).takeWhile (· ≠ 0)

/-- The fields that both CSD decoders set. -/
structure CsdLengths (r : Nat) (csd : MmcCsd) : Prop where
  cStructure : csd.cStructure.toNat = slice r 126 2
  readBlLen : csd.readBlLen.toNat = slice r 80 4
  writeBlLen : csd.writeBlLen.toNat = slice r 22 4

/-- The size of a card by `c_size` and `c_mult`. -/
structure CsdSize (r : Nat) (csd : MmcCsd) : Prop where
  cSize : csd.cSize.toNat = slice r 62 12
  cMult : csd.cMult.toNat = slice r 47 3

/-- The CSD of an SD card, whose layout its structure number tells. -/
structure SdCsdFields (r : Nat) (csd : MmcCsd) : Prop extends CsdLengths r csd where
  version1 : slice r 126 2 = 0 → CsdSize r csd
  version2 : slice r 126 2 = 1 → csd.cSize.toNat = slice r 48 22

structure MmcCsdFields (r : Nat) (csd : MmcCsd) : Prop
    extends CsdLengths r csd, CsdSize r csd

/-- The fields of a CID, its two strings filled up with zeros. -/
structure CidFields (r : Nat) (cid : MmcCid) : Prop where
  mid : cid.mid.toNat = slice r 120 8
  oid : cid.oid.map UInt8.toNat = (characters r 112 2).rightpad 3 0
  pnm : cid.pnm.map UInt8.toNat = (characters r 96 5).rightpad 6 0
  prv : cid.prv.toNat = slice r 56 8
  psn : cid.psn.toNat = slice r 24 32
  mdtYear : cid.mdtYear.toNat = slice r 12 8 + 2000
  mdtMonth : cid.mdtMonth.toNat = slice r 8 4
  crc7 : cid.crc7.toNat = slice r 1 7

theorem decodeBlockSizes_lengths (card : MmcCard) :
    CsdLengths (registerNumber bytes)
      (decodeBlockSizes (wordAt (swapRegister bytes)) card).csd where
  cStructure := unstuffByte_slice bytes 126 2 (by decide) (by decide) (by decide)
  readBlLen := unstuffByte_slice bytes 80 4 (by decide) (by decide) (by decide)
  writeBlLen := unstuffByte_slice bytes 22 4 (by decide) (by decide) (by decide)

theorem decodeSize_size (card : MmcCard) :
    CsdSize (registerNumber bytes) (decodeSize (wordAt (swapRegister bytes)) card).csd where
  cSize := unstuffBits_slice bytes 62 12 (by decide) (by decide) (by decide)
  cMult := unstuffByte_slice bytes 47 3 (by decide) (by decide) (by decide)

theorem sdDecodeCsd_fields (card : MmcCard) :
    SdCsdFields (registerNumber bytes)
      (sdDecodeCsd (wordAt (swapRegister bytes)) card).2.csd := by
  have hlengths := decodeBlockSizes_lengths bytes card
  have hstructure := hlengths.cStructure
  have hone : (1 : UInt8).toNat = 1 := rfl
  simp only [sdDecodeCsd]
  split
  · rename_i hzero
    refine ⟨⟨hlengths.cStructure, hlengths.readBlLen, hlengths.writeBlLen⟩, ?_, ?_⟩
    · exact fun _ => decodeSize_size bytes _
    · intro hversion
      rw [hzero, hversion] at hstructure
      exact absurd hstructure (by decide)
  · rename_i hnonzero
    have hzero : slice (registerNumber bytes) 126 2 ≠ 0 := by
      intro hversion
      rw [hversion] at hstructure
      exact hnonzero (UInt8.toNat_inj.mp hstructure)
    split
    · refine ⟨⟨hlengths.cStructure, hlengths.readBlLen, hlengths.writeBlLen⟩, ?_, ?_⟩
      · exact fun hversion => absurd hversion hzero
      · exact fun _ => unstuffBits_slice bytes 48 22 (by decide) (by decide) (by decide)
    · rename_i hnotone
      refine ⟨hlengths, fun hversion => absurd hversion hzero, ?_⟩
      intro hversion
      rw [hversion, ← hone] at hstructure
      exact absurd (UInt8.toNat_inj.mp hstructure) hnotone

theorem mmcDecodeCsd_fields (card : MmcCard) :
    MmcCsdFields (registerNumber bytes)
      (mmcDecodeCsd (wordAt (swapRegister bytes)) card).2.csd := by
  have hlengths := decodeBlockSizes_lengths bytes card
  have hsize := decodeSize_size bytes (decodeBlockSizes (wordAt (swapRegister bytes)) card)
  exact ⟨⟨hlengths.cStructure, hlengths.readBlLen, hlengths.writeBlLen⟩, hsize⟩

/-- `strncpy` keeps the characters before the first zero. -/
theorem strncpy_characters (source : Nat → UInt8) (num i : Nat) :
    (strncpy source num i).map UInt8.toNat =
      (((List.range num).map fun k => (source (i + k)).toNat).takeWhile (· ≠ 0)).rightpad
        num 0 := by
  induction num generalizing i with
  | zero => rfl
  | succ num ih =>
      rw [strncpy, List.range_succ_eq_map, List.map_cons, List.map_map]
      by_cases hzero : source i = 0
      · simp [hzero, List.rightpad]
      · have hne : (source i).toNat ≠ 0 := fun h => hzero (UInt8.toNat_inj.mp h)
        have hshift : ((fun k => (source (i + k)).toNat) ∘ Nat.succ) =
            fun k => (source (i + 1 + k)).toNat := by
          funext k
          simp only [Function.comp_apply, Nat.succ_eq_add_one]
          rw [show i + (k + 1) = i + 1 + k by omega]
        rw [if_neg hzero, List.map_cons, ih, hshift]
        simp [hne, List.rightpad]

/-- A string field of the register as the code copies it, with its terminator. -/
theorem stringField_characters {i num : Nat} (hend : i + num ≤ 16) :
    (strncpy bytes num i ++ [0]).map UInt8.toNat =
      (characters (registerNumber bytes) (8 * (15 - i)) num).rightpad (num + 1) 0 := by
  have hbytes : ∀ k ∈ List.range num,
      (bytes (i + k)).toNat = slice (registerNumber bytes) (8 * (15 - i) - 8 * k) 8 := by
    intro k hk
    have hlt := List.mem_range.mp hk
    rw [registerNumber, ← slice_bigEndian bytes (by omega : i + k < 16)]
    congr 1
    omega
  rw [List.map_append, strncpy_characters, List.map_congr_left hbytes, characters]
  generalize hwhole : (List.range num).map _ = whole
  have hle : (whole.takeWhile (· ≠ 0)).length ≤ num := by
    apply le_trans (List.takeWhile_sublist _).length_le
    rw [← hwhole, List.length_map, List.length_range]
  rw [List.rightpad, List.rightpad, Nat.succ_sub hle, List.replicate_succ', List.append_assoc]
  rfl

theorem decodeCid_fields (card : MmcCard) (hvalid : registerValid bytes) :
    CidFields (registerNumber bytes) (decodeCid bytes card).2.cid := by
  rw [decodeCid, if_neg (not_not.mpr hvalid)]
  have hyear := unstuffBits_slice bytes 12 8 (by decide) (by decide) (by decide)
  refine ⟨?_, ?_, ?_, ?_, ?_, ?_, ?_, ?_⟩
  · exact unstuffByte_slice bytes 120 8 (by decide) (by decide) (by decide)
  · exact stringField_characters bytes (by omega : 1 + 2 ≤ 16)
  · exact stringField_characters bytes (by omega : 3 + 5 ≤ 16)
  · exact unstuffByte_slice bytes 56 8 (by decide) (by decide) (by decide)
  · exact unstuffBits_slice bytes 24 32 (by decide) (by decide) (by decide)
  · have hlt := slice_lt (registerNumber bytes) 12 8
    rw [UInt32.toNat_toUInt16, UInt32.toNat_add, hyear]
    change (slice (registerNumber bytes) 12 8 + 2000) % 2 ^ 32 % 2 ^ 16 = _
    omega
  · exact unstuffByte_slice bytes 8 4 (by decide) (by decide) (by decide)
  · exact unstuffByte_slice bytes 1 7 (by decide) (by decide) (by decide)

/-- `UNSTUFF_BITS` takes slices of the register, so the numeric fields of both
CSD layouts and of the CID are the slices at their positions. The two strings
of the CID are their slices up to the first zero byte, and zeros from there. -/
theorem register_fields_slices (card : MmcCard) :
    (∀ start size : UInt32, 1 ≤ size.toNat → size.toNat ≤ 32 →
      start.toNat + size.toNat ≤ 128 →
      (unstuffBits (wordAt (swapRegister bytes)) start size).toNat =
        slice (registerNumber bytes) start.toNat size.toNat) ∧
      SdCsdFields (registerNumber bytes)
        (sdDecodeCsd (wordAt (swapRegister bytes)) card).2.csd ∧
      MmcCsdFields (registerNumber bytes)
        (mmcDecodeCsd (wordAt (swapRegister bytes)) card).2.csd ∧
      (registerValid bytes →
        CidFields (registerNumber bytes) (decodeCid bytes card).2.cid) :=
  ⟨unstuffBits_slice bytes, sdDecodeCsd_fields bytes card, mmcDecodeCsd_fields bytes card,
    decodeCid_fields bytes card⟩

/-- The serial number of a card, which straddles two words. -/
theorem register_fields_slices_serial :
    let cid := arrayOf [0x02, 0x54, 0x4D, 0x53, 0x41, 0x30, 0x38, 0x47, 0x14, 0x39, 0x4A,
      0x67, 0xC7, 0x00, 0xE4, 0xE5]
    registerValid cid ∧ slice (registerNumber cid) 24 32 = 0x394A67C7 ∧
      (unstuffBits (wordAt (swapRegister cid)) 24 32).toNat =
        slice (registerNumber cid) 24 32 ∧
      ∀ card, CidFields (registerNumber cid) (decodeCid cid card).2.cid := by
  intro cid
  have hvalid : registerValid cid := by decide +kernel
  refine ⟨hvalid, by decide +kernel, ?_, ?_⟩
  · let csd : MmcCsd := ⟨0, 0, 0, 0, 0⟩
    let blank : MmcCid := ⟨0, [], 0, [], 0, 0, 0, 0⟩
    let card : MmcCard := ⟨⟨0, 0⟩, csd, blank, 0, 0, 0⟩
    exact (register_fields_slices cid card).1 24 32 (by decide) (by decide) (by decide)
  · intro card
    exact (register_fields_slices cid card).2.2.2 hvalid

/-- A product name with a zero byte in it is cut there: its third character is
not the slice of the register. -/
theorem product_name_cut :
    let cid := arrayOf [0x02, 0x54, 0x4D, 0x53, 0x00, 0x30, 0x38, 0x47, 0x14, 0x39, 0x4A,
      0x67, 0xC7, 0x00, 0xE4, 0x2B]
    registerValid cid ∧ ∀ card,
      ((decodeCid cid card).2.cid.pnm.getD 2 0).toNat = 0 ∧
        slice (registerNumber cid) (96 - 8 * 2) 8 = 0x30 := by
  intro cid
  have hvalid : registerValid cid := by decide +kernel
  refine ⟨hvalid, ?_⟩
  intro card
  constructor
  · rw [decodeCid, if_neg (not_not.mpr hvalid)]
    change ((strncpy cid 5 3 ++ [0]).getD 2 0).toNat = 0
    decide
  · decide +kernel

end PascalScheduler
