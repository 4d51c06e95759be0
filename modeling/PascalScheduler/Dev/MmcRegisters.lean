import PascalScheduler.Dev.Mmc

/-!
The registers of a memory card as `mmc_spi.c` decodes them: the whole of
`struct mmc_info`, `UNSTUFF_BITS`, the two CSD decoders and the CID fields. A
register arrives as 16 bytes, most significant first, in an array of words of
a little-endian machine.
-/

namespace PascalScheduler

/-- `struct mmc_cid` -/
structure MmcCid where
  psn : UInt32
  pnm : List UInt8
  mdtYear : UInt16
  oid : List UInt8
  mdtMonth : UInt8
  crc7 : UInt8
  prv : UInt8
  mid : UInt8

/-- `struct mmc_csd` -/
structure MmcCsd where
  cSize : UInt32
  cMult : UInt8
  readBlLen : UInt8
  writeBlLen : UInt8
  cStructure : UInt8

/-- `struct mmc_info` : the block sizes that the transfers read, and the rest. -/
structure MmcCard extends MmcInfo where
  csd : MmcCsd
  cid : MmcCid
  spiChannel : UInt32
  memSize : UInt32
  flags : UInt8

/-- `struct mmc_info` as the start-up code leaves it. -/
def MmcCard.zero : MmcCard where
  readBlockSize := 0
  writeBlockSize := 0
  csd := ⟨0, 0, 0, 0, 0⟩
  cid := ⟨0, [], 0, [], 0, 0, 0, 0⟩
  spiChannel := 0
  memSize := 0
  flags := 0

def mmcDisabled : UInt8 := 1
def mmcV1 : UInt8 := 2
def mmcV2 : UInt8 := 4
def sdSdhc : UInt8 := 8

/-- `swap_words` on the four bytes from `data[k]` on. -/
def swapWords (data : Nat → UInt8) (k : Nat) : Nat → UInt8 :=
  let tmp := data (k + 3)
  let data := Function.update data (k + 3) (data k)
  let data := Function.update data k tmp
  let tmp := data (k + 2)
  let data := Function.update data (k + 2) (data (k + 1))
  Function.update data (k + 1) tmp

/-- The loop over the four words of a register. -/
def swapRegister (data : Nat → UInt8) : Nat → UInt8 :=
  [0, 1, 2, 3].foldl (fun data i => swapWords data (4 * i)) data

/-- Word `i` of an array of bytes on a little-endian machine. -/
def wordAt (data : Nat → UInt8) (i : Nat) : UInt32 :=
  (data (4 * i)).toUInt32 ||| (data (4 * i + 1)).toUInt32 <<< 8 |||
    (data (4 * i + 2)).toUInt32 <<< 16 ||| (data (4 * i + 3)).toUInt32 <<< 24

/-- `UNSTUFF_BITS` -/
def unstuffBits (resp : Nat → UInt32) (start size : UInt32) : UInt32 :=
  let mask := (if size < 32 then (1 : UInt32) <<< size else 0) - 1
  let off := 3 - (start / 32).toNat
  let shft := start &&& 31
  let res := resp off >>> shft
  let res :=
    if size + shft > 32 then res ||| resp (off - 1) <<< ((32 - shft) % 32) else res
  res &&& mask

/-- `strncpy` from `source[i]` on: up to `num` characters, filled up with zeros. -/
def strncpy (source : Nat → UInt8) : Nat → Nat → List UInt8
  | 0, _ => []
  | num + 1, i =>
      if source i = 0 then List.replicate (num + 1) 0
      else source i :: strncpy source num (i + 1)

/-- The fields that both CSD layouts share. -/
def decodeBlockSizes (buf : Nat → UInt32) (card : MmcCard) : MmcCard :=
  let readBlLen := (unstuffBits buf 80 4).toUInt8
  let writeBlLen := (unstuffBits buf 22 4).toUInt8
  { card with
    csd := { card.csd with
      cStructure := (unstuffBits buf 126 2).toUInt8
      readBlLen := readBlLen
      writeBlLen := writeBlLen }
    readBlockSize := 1 <<< readBlLen.toUInt32
    writeBlockSize := 1 <<< writeBlLen.toUInt32 }

/-- The size of a card by `c_size` and `c_mult`, in MiB. -/
def decodeSize (buf : Nat → UInt32) (card : MmcCard) : MmcCard :=
  let cSize := unstuffBits buf 62 12
  let cMult := (unstuffBits buf 47 3).toUInt8
  let mult : UInt32 := 1 <<< (cMult.toUInt32 + 2)
  let blocknr := (cSize + 1) * mult
  { card with
    csd := { card.csd with cSize := cSize, cMult := cMult }
    memSize := blocknr * card.readBlockSize / 1024 / 1024 }

/-- `sd_decode_csd` -/
def sdDecodeCsd (buf : Nat → UInt32) (card : MmcCard) : Int32 × MmcCard :=
  let card := decodeBlockSizes buf card
  if card.csd.cStructure = 0 then (mmcOk, decodeSize buf card)
  else if card.csd.cStructure = 1 then
    let cSize := unstuffBits buf 48 22
    (mmcOk, { card with csd := { card.csd with cSize := cSize }, memSize := cSize + 1 * 512 })
  else (mmcError, card)

/-- `mmc_decode_csd` -/
def mmcDecodeCsd (buf : Nat → UInt32) (card : MmcCard) : Int32 × MmcCard :=
  (mmcOk, decodeSize buf (decodeBlockSizes buf card))

/-- The check on the 16 bytes of a register: its last byte is the CRC. -/
def registerValid (bytes : Nat → UInt8) : Prop :=
  mmcCrc7 ((List.range 15).map bytes) = bytes 15

instance (bytes : Nat → UInt8) : Decidable (registerValid bytes) :=
  inferInstanceAs (Decidable (_ = _))

/-- `mmc_read_csd` once the register is in `bytes`. -/
def decodeCsd (bytes : Nat → UInt8) (card : MmcCard) : Int32 × MmcCard :=
  if ¬ registerValid bytes then (mmcError, card)
  else
    let buf := wordAt (swapRegister bytes)
    if unstuffBits buf 122 4 = 0 then sdDecodeCsd buf card else mmcDecodeCsd buf card

/-- `mmc_read_cid` once the register is in `bytes`. -/
def decodeCid (bytes : Nat → UInt8) (card : MmcCard) : Int32 × MmcCard :=
  if ¬ registerValid bytes then (mmcError, card)
  else
    let buf := wordAt (swapRegister bytes)
    let cid : MmcCid :=
      { oid := strncpy bytes 2 1 ++ [0]
        pnm := strncpy bytes 5 3 ++ [0]
        mid := (unstuffBits buf 120 8).toUInt8
        prv := (unstuffBits buf 56 8).toUInt8
        psn := unstuffBits buf 24 32
        mdtYear := (unstuffBits buf 12 8 + 2000).toUInt16
        mdtMonth := (unstuffBits buf 8 4).toUInt8
        crc7 := (unstuffBits buf 1 7).toUInt8 }
    (mmcOk, { card with cid := cid })

/-- A card whose block sizes were decoded: powers of two up to `2 ^ 15`. -/
structure Decoded (card : MmcCard) : Prop where
  read : ∃ k, k < 16 ∧ card.readBlockSize.toNat = 2 ^ k
  write : ∃ k, k < 16 ∧ card.writeBlockSize.toNat = 2 ^ k

namespace Decoded

variable {card : MmcCard}

theorem read_pos (h : Decoded card) : 0 < card.readBlockSize.toNat := by
  obtain ⟨k, _, hpow⟩ := h.read
  rw [hpow]
  exact Nat.two_pow_pos k

theorem read_ne (h : Decoded card) : card.readBlockSize ≠ 0 := by
  intro hzero
  have hpos := h.read_pos
  rw [hzero] at hpos
  exact absurd hpos (by decide)

theorem read_le (h : Decoded card) : card.readBlockSize.toNat ≤ 2 ^ 15 := by
  obtain ⟨k, hk, hpow⟩ := h.read
  rw [hpow]
  exact Nat.pow_le_pow_right (by omega) (by omega)

end Decoded

section Decode

variable {bytes : Nat → UInt8} {card : MmcCard}

/-- A block length of four bits. -/
theorem blockSize_pow (buf : Nat → UInt32) (start : UInt32) :
    ∃ k, k < 16 ∧ ((1 : UInt32) <<< (unstuffBits buf start 4).toUInt8.toUInt32).toNat = 2 ^ k := by
  have hmask : ∃ x : UInt32, unstuffBits buf start 4 = x &&& 15 := ⟨_, rfl⟩
  obtain ⟨x, hx⟩ := hmask
  have hle : (x &&& 15).toNat ≤ 15 := by
    rw [UInt32.toNat_and]
    exact Nat.and_le_right
  refine ⟨(x &&& 15).toNat, by omega, ?_⟩
  have hbyte : (x &&& 15).toUInt8.toUInt32.toNat = (x &&& 15).toNat := by
    simp only [UInt8.toNat_toUInt32, UInt32.toNat_toUInt8]
    omega
  rw [hx, UInt32.toNat_shiftLeft, hbyte]
  have hpow : 2 ^ (x &&& 15).toNat ≤ 2 ^ 15 := Nat.pow_le_pow_right (by omega) hle
  rw [Nat.mod_eq_of_lt (by omega : (x &&& 15).toNat < 32)]
  have hone : (1 : UInt32).toNat = 1 := rfl
  rw [hone, Nat.shiftLeft_eq, one_mul, Nat.mod_eq_of_lt (by omega)]

theorem decodeBlockSizes_decoded (buf : Nat → UInt32) (card : MmcCard) :
    Decoded (decodeBlockSizes buf card) :=
  ⟨blockSize_pow buf 80, blockSize_pow buf 22⟩

/-- A CSD that is not refused leaves decoded block sizes. -/
theorem decodeCsd_decoded (h : (decodeCsd bytes card).1 ≠ mmcError) :
    Decoded (decodeCsd bytes card).2 := by
  have hsizes := decodeBlockSizes_decoded (wordAt (swapRegister bytes)) card
  rw [decodeCsd] at h ⊢
  by_cases hvalid : registerValid bytes
  · rw [if_neg (not_not.mpr hvalid)]
    dsimp only
    split
    · rw [sdDecodeCsd]
      dsimp only
      split
      · exact ⟨hsizes.read, hsizes.write⟩
      · split
        · exact ⟨hsizes.read, hsizes.write⟩
        · exact hsizes
    · exact ⟨hsizes.read, hsizes.write⟩
  · rw [if_pos hvalid] at h
    exact absurd rfl h

/-- The CID leaves everything else of the card alone. -/
theorem decodeCid_keeps (bytes : Nat → UInt8) (card : MmcCard) :
    decodeCid bytes card =
      ((decodeCid bytes card).1, { card with cid := (decodeCid bytes card).2.cid }) := by
  rw [decodeCid]
  split
  · rfl
  · rfl

end Decode

end PascalScheduler
