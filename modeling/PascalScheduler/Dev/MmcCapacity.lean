import PascalScheduler.Dev.MmcFields

/-!
The capacity of an SD card as `sd_decode_csd` computes it. For the first CSD
layout the number of bytes is formed before it is turned into MiB and has to fit
32 bits; for the second one `c_size+1 * 512` adds 512 where it should scale.
-/

namespace PascalScheduler

open BitSlice

/-- The bytes that a card of the first CSD layout holds. -/
def capacityVersion1 (r : Nat) : Nat :=
  (slice r 62 12 + 1) * 2 ^ (slice r 47 3 + 2) * 2 ^ slice r 80 4

/-- The same for the second layout, which counts in units of 512 KiB. -/
def capacityVersion2 (r : Nat) : Nat :=
  (slice r 48 22 + 1) * (512 * 1024)

/-- The bytes of an SD card by its CSD `r`. -/
def sdCapacity (r : Nat) : Nat :=
  if slice r 126 2 = 0 then capacityVersion1 r else capacityVersion2 r

variable (bytes : Nat → UInt8) (card : MmcCard)

theorem onePow_toNat {n : UInt32} (h : n.toNat < 32) :
    ((1 : UInt32) <<< n).toNat = 2 ^ n.toNat := by
  have hone : (1 : UInt32).toNat = 1 := rfl
  rw [UInt32.toNat_shiftLeft, hone, Nat.shiftLeft_eq, one_mul, Nat.mod_eq_of_lt h]
  exact Nat.mod_eq_of_lt (Nat.pow_lt_pow_right (by omega) h)

/-- The number of bytes is formed modulo `2 ^ 32`. -/
theorem decodeSize_memSize :
    let buf := wordAt (swapRegister bytes)
    (decodeSize buf (decodeBlockSizes buf card)).memSize.toNat =
      capacityVersion1 (registerNumber bytes) % 2 ^ 32 / 2 ^ 20 := by
  intro buf
  have hsize : (unstuffBits buf 62 12).toNat = slice (registerNumber bytes) 62 12 :=
    unstuffBits_slice bytes 62 12 (by decide) (by decide) (by decide)
  have hmult : (unstuffBits buf 47 3).toUInt8.toNat = slice (registerNumber bytes) 47 3 :=
    unstuffByte_slice bytes 47 3 (by decide) (by decide) (by decide)
  have hlen : (unstuffBits buf 80 4).toUInt8.toNat = slice (registerNumber bytes) 80 4 :=
    unstuffByte_slice bytes 80 4 (by decide) (by decide) (by decide)
  have hmult_lt := slice_lt (registerNumber bytes) 47 3
  have hlen_lt := slice_lt (registerNumber bytes) 80 4
  have hexponent : ((unstuffBits buf 47 3).toUInt8.toUInt32 + 2).toNat =
      slice (registerNumber bytes) 47 3 + 2 := by
    rw [UInt32.toNat_add, UInt8.toNat_toUInt32, hmult]
    exact Nat.mod_eq_of_lt (by change _ + 2 < 2 ^ 32; omega)
  have hblocks : ((1 : UInt32) <<< ((unstuffBits buf 47 3).toUInt8.toUInt32 + 2)).toNat =
      2 ^ (slice (registerNumber bytes) 47 3 + 2) := by
    rw [onePow_toNat (by omega), hexponent]
  have hblock : ((1 : UInt32) <<< (unstuffBits buf 80 4).toUInt8.toUInt32).toNat =
      2 ^ slice (registerNumber bytes) 80 4 := by
    rw [onePow_toNat (by rw [UInt8.toNat_toUInt32, hlen]; omega), UInt8.toNat_toUInt32, hlen]
  have hmega : ∀ n : UInt32, (n / 1024 / 1024).toNat = n.toNat / 2 ^ 20 := by
    intro n
    rw [UInt32.toNat_div, UInt32.toNat_div, Nat.div_div_eq_div_mul]
    rfl
  have hone : (1 : UInt32).toNat = 1 := rfl
  simp only [decodeSize, decodeBlockSizes, hmega, UInt32.toNat_mul, UInt32.toNat_add, hblocks,
    hblock, hsize, hone, Nat.mod_mul_mod, capacityVersion1]

/-- The structure number that the branches of `sd_decode_csd` test. -/
theorem cStructure_eq_iff (n : UInt8) :
    (decodeBlockSizes (wordAt (swapRegister bytes)) card).csd.cStructure = n ↔
      slice (registerNumber bytes) 126 2 = n.toNat := by
  rw [← (decodeBlockSizes_lengths bytes card).cStructure, UInt8.toNat_inj]

theorem sdDecodeCsd_version1 (h : slice (registerNumber bytes) 126 2 = 0) :
    (sdDecodeCsd (wordAt (swapRegister bytes)) card).2.memSize.toNat =
      capacityVersion1 (registerNumber bytes) % 2 ^ 32 / 2 ^ 20 := by
  rw [sdDecodeCsd, if_pos ((cStructure_eq_iff bytes card 0).mpr h)]
  exact decodeSize_memSize bytes card

theorem sdDecodeCsd_version2 (h : slice (registerNumber bytes) 126 2 = 1) :
    (sdDecodeCsd (wordAt (swapRegister bytes)) card).2.memSize.toNat =
      slice (registerNumber bytes) 48 22 + 512 := by
  have hsize : (unstuffBits (wordAt (swapRegister bytes)) 48 22).toNat =
      slice (registerNumber bytes) 48 22 :=
    unstuffBits_slice bytes 48 22 (by decide) (by decide) (by decide)
  have hlt := slice_lt (registerNumber bytes) 48 22
  have hnot : slice (registerNumber bytes) 126 2 ≠ 0 := by omega
  rw [sdDecodeCsd, if_neg (mt (cStructure_eq_iff bytes card 0).mp hnot),
    if_pos ((cStructure_eq_iff bytes card 1).mpr h)]
  change (unstuffBits (wordAt (swapRegister bytes)) 48 22 + 1 * 512).toNat = _
  rw [UInt32.toNat_add, hsize]
  exact Nat.mod_eq_of_lt (by change _ + 512 < 2 ^ 32; omega)

/-- A CSD is accepted when it has one of the two layouts. -/
theorem sdDecodeCsd_accepts (h : (sdDecodeCsd (wordAt (swapRegister bytes)) card).1 = mmcOk) :
    slice (registerNumber bytes) 126 2 = 0 ∨ slice (registerNumber bytes) 126 2 = 1 := by
  have hzero := cStructure_eq_iff bytes card 0
  have hone := cStructure_eq_iff bytes card 1
  rw [sdDecodeCsd] at h
  split at h
  · rename_i hfirst
    exact .inl (hzero.mp hfirst)
  · split at h
    · rename_i hsecond
      exact .inr (hone.mp hsecond)
    · have hne : mmcError ≠ mmcOk := by decide
      exact absurd h hne

/-- For every CSD that `sd_decode_csd` accepts, the size is the capacity in MiB,
rounded down, if and only if the CSD has the first layout and the capacity in
bytes fits 32 bits. -/
theorem sd_capacity_iff (bytes : Nat → UInt8) (card : MmcCard)
    (h : (sdDecodeCsd (wordAt (swapRegister bytes)) card).1 = mmcOk) :
    (sdDecodeCsd (wordAt (swapRegister bytes)) card).2.memSize.toNat =
        sdCapacity (registerNumber bytes) / 2 ^ 20 ↔
      slice (registerNumber bytes) 126 2 = 0 ∧ sdCapacity (registerNumber bytes) < 2 ^ 32 := by
  rcases sdDecodeCsd_accepts bytes card h with hone | htwo
  · rw [sdDecodeCsd_version1 bytes card hone, sdCapacity, if_pos hone]
    constructor
    · intro heq
      refine ⟨hone, ?_⟩
      by_contra hlarge
      -- the remainder has less than 2 ^ 12 MiB
      omega
    · rintro ⟨_, hlt⟩
      rw [Nat.mod_eq_of_lt hlt]
  · have hnot : slice (registerNumber bytes) 126 2 ≠ 0 := by omega
    rw [sdDecodeCsd_version2 bytes card htwo, sdCapacity, if_neg hnot, capacityVersion2]
    constructor
    · intro heq
      -- c_size + 512 against (c_size + 1) / 2
      omega
    · exact fun hfirst => absurd hfirst.1 hnot

/-- A card of 3781 MiB with the second layout is taken for one of 8074 MiB, and
one of 4096 MiB with the first layout for an empty one. -/
theorem sd_capacity_wrong :
    let sdhc := arrayOf [0x40, 0x0E, 0x00, 0x32, 0x5B, 0x59, 0x00, 0x00, 0x1D, 0x8A, 0x7F,
      0x80, 0x0A, 0x40, 0x00, 0x71]
    let large := arrayOf [0x00, 0x2E, 0x00, 0x32, 0x5B, 0x5B, 0x83, 0xFF, 0xFF, 0xFF, 0xFF,
      0x80, 0x16, 0x80, 0x00, 0xCB]
    registerValid sdhc ∧ (sdDecodeCsd (wordAt (swapRegister sdhc)) MmcCard.zero).1 = mmcOk ∧
      (sdDecodeCsd (wordAt (swapRegister sdhc)) MmcCard.zero).2.memSize = 8074 ∧
      sdCapacity (registerNumber sdhc) / 2 ^ 20 = 3781 ∧
    registerValid large ∧ (sdDecodeCsd (wordAt (swapRegister large)) MmcCard.zero).1 = mmcOk ∧
      (sdDecodeCsd (wordAt (swapRegister large)) MmcCard.zero).2.memSize = 0 ∧
      sdCapacity (registerNumber large) / 2 ^ 20 = 4096 := by
  decide +kernel

/-- A card of 1876 MiB. -/
theorem sd_capacity_iff_standard :
    let csd := arrayOf [0x00, 0x2E, 0x00, 0x32, 0x5B, 0x5A, 0x83, 0xA9, 0xFF, 0xFF, 0xFF,
      0x80, 0x16, 0x80, 0x00, 0x91]
    registerValid csd ∧ sdCapacity (registerNumber csd) / 2 ^ 20 = 1876 ∧
      (sdDecodeCsd (wordAt (swapRegister csd)) MmcCard.zero).2.memSize.toNat =
        sdCapacity (registerNumber csd) / 2 ^ 20 := by
  intro csd
  have haccepted : (sdDecodeCsd (wordAt (swapRegister csd)) MmcCard.zero).1 = mmcOk := by
    decide +kernel
  refine ⟨by decide +kernel, by decide +kernel, ?_⟩
  apply (sd_capacity_iff csd MmcCard.zero haccepted).mpr
  decide +kernel

end PascalScheduler
