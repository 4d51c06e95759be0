import PascalScheduler.Dev.MmcBuffer
import PascalScheduler.Dev.MmcWire

/-!
Block addressing. A standard card takes the argument of CMD17 and CMD24 for the
address of a byte, an SDHC card for the number of a block of 512 bytes. The
driver multiplies one sector number by two block sizes and never looks at the
SDHC flag, so the arguments are right under a condition on the card and, for an
SDHC card, on the offset. A write sends its second command only after it has
filled the buffer, and with longer blocks than that holds anything may follow.
-/

namespace PascalScheduler

def MmcCard.isSdhc (card : MmcCard) : Prop :=
  card.flags &&& sdSdhc ≠ 0

instance (card : MmcCard) : Decidable card.isSdhc :=
  inferInstanceAs (Decidable (_ ≠ _))

/-- The bytes, start and length, that a card takes an argument for. `length` is
the block length of the command on a standard card. -/
def designates (card : MmcCard) (length address : UInt32) : Nat × Nat :=
  if card.isSdhc then (512 * address.toNat, 512) else (address.toNat, length.toNat)

/-- The block of the card around an offset. -/
def blockAround (card : MmcCard) (length : UInt32) (offset : Int32) : Nat × Nat :=
  if card.isSdhc then (512 * (offset.toInt.toNat / 512), 512)
  else (length.toNat * (offset.toInt.toNat / length.toNat), length.toNat)

/-- The CMD17 on the wire is for the block around the offset. -/
def ReadDesignates (card : MmcCard) (offset : Int32) (log : List UInt8) : Prop :=
  ∀ arg rest, log = commandBytes mmcCmd17 arg ++ rest →
    designates card card.readBlockSize arg = blockAround card card.readBlockSize offset

/-- A CMD24 behind it is too, and for the bytes that were read. -/
def WriteDesignates (card : MmcCard) (offset : Int32) (log : List UInt8) : Prop :=
  ∀ arg n arg' rest,
    log = commandBytes mmcCmd17 arg ++ (Card.filler n ++ (commandBytes mmcCmd24 arg' ++ rest)) →
      designates card card.writeBlockSize arg' = blockAround card card.writeBlockSize offset ∧
        designates card card.writeBlockSize arg' = designates card card.readBlockSize arg

/-- On every device, a read addresses the block it should. -/
def ReadAddresses (card : MmcCard) (offset : Int32) (uio : Uio) : Prop :=
  ∀ (σ : Type) (dev : SpiDevice σ) (fuel : Nat) (junk : Nat → UInt8) (s : σ)
    (r : Int32 × Uio × σ × List UInt8),
    mmcSpiRead (tap dev) fuel (some card.toMmcInfo) offset uio junk (s, []) = some r →
      ReadDesignates card offset r.2.2.2

/-- A write keeps to its buffer, and then addresses the blocks it should. -/
def WriteAddresses (card : MmcCard) (offset : Int32) (uio : Uio) : Prop :=
  WriteInBounds card offset uio ∧
    ∀ (σ : Type) (dev : SpiDevice σ) (fuel : Nat) (junk : Nat → UInt8) (s : σ)
      (r : Int32 × Uio × σ × List UInt8),
      mmcSpiWrite (tap dev) fuel (some card.toMmcInfo) offset uio junk (s, []) = some r →
        ReadDesignates card offset r.2.2.2 ∧ WriteDesignates card offset r.2.2.2

section Arithmetic

variable {card : MmcCard} {offset : Int32}

/-- The start of the sector, taken for a block number. -/
theorem sectorStart_eq_block {o r : Nat} (hr : 0 < r) :
    o / r * r = o / 512 ↔ o < 512 ∧ o < r := by
  have hle : o / r * r ≤ o := Nat.div_mul_le_self o r
  constructor
  · intro heq
    by_cases hsmall : o < r
    · rw [Nat.div_eq_of_lt hsmall, Nat.zero_mul] at heq
      omega
    · -- then the start of the sector is more than half of the offset
      have hone : 1 ≤ o / r := (Nat.one_le_div_iff hr).mpr (by omega)
      have hstart : r ≤ o / r * r := Nat.le_mul_of_pos_left r hone
      have hrest := Nat.div_add_mod' o r
      have hmod := Nat.mod_lt o hr
      omega
  · rintro ⟨hblock, hsector⟩
    rw [Nat.div_eq_of_lt hsector, Nat.div_eq_of_lt hblock, Nat.zero_mul]

theorem readArgument_toNat (hoffset : 0 ≤ offset.toInt) (info : MmcInfo) :
    (readArgument info offset).toNat =
      offset.toInt.toNat / info.readBlockSize.toNat * info.readBlockSize.toNat := by
  have hlt := offset.toUInt32.toNat_lt
  have hle := Nat.div_mul_le_self offset.toUInt32.toNat info.readBlockSize.toNat
  rw [readArgument, UInt32.toNat_mul, UInt32.toNat_div, Nat.mod_eq_of_lt (by omega),
    offset_toNat hoffset]

/-- A read is right on every standard card, and on an SDHC card in the first
sector and block only. -/
theorem readArgument_designates (hoffset : 0 ≤ offset.toInt)
    (hsize : 0 < card.readBlockSize.toNat) :
    designates card card.readBlockSize (readArgument card.toMmcInfo offset) =
        blockAround card card.readBlockSize offset ↔
      (card.isSdhc → offset.toInt.toNat < 512 ∧ offset.toInt.toNat < card.readBlockSize.toNat) := by
  rw [designates, blockAround, readArgument_toNat hoffset]
  by_cases hsdhc : card.isSdhc
  · rw [if_pos hsdhc, if_pos hsdhc, Prod.mk.injEq, Nat.mul_right_inj (by omega),
      sectorStart_eq_block hsize]
    simp [hsdhc]
  · rw [if_neg hsdhc, if_neg hsdhc, Nat.mul_comm]
    simp [hsdhc]

/-- The condition under which both arguments of a write are right. -/
def WritesInPlace (card : MmcCard) (offset : Int32) : Prop :=
  if card.isSdhc then offset.toInt.toNat < 512 ∧ offset.toInt.toNat < card.readBlockSize.toNat
  else card.readBlockSize = card.writeBlockSize

theorem writeArgument_designates (hoffset : 0 ≤ offset.toInt)
    (hsize : 0 < card.readBlockSize.toNat) :
    (designates card card.readBlockSize (readArgument card.toMmcInfo offset) =
        blockAround card card.readBlockSize offset ∧
      designates card card.writeBlockSize (writeArgument card.toMmcInfo offset) =
        blockAround card card.writeBlockSize offset ∧
      designates card card.writeBlockSize (writeArgument card.toMmcInfo offset) =
        designates card card.readBlockSize (readArgument card.toMmcInfo offset)) ↔
      WritesInPlace card offset := by
  rw [readArgument_designates hoffset hsize, WritesInPlace]
  by_cases hsdhc : card.isSdhc
  · rw [if_pos hsdhc]
    constructor
    · rintro ⟨hread, _⟩
      exact hread hsdhc
    · intro hfirst
      -- the sector number is zero, and with it both arguments
      have hzero : offset.toUInt32 / card.readBlockSize = 0 := by
        apply UInt32.toNat_inj.mp
        rw [UInt32.toNat_div, offset_toNat hoffset, Nat.div_eq_of_lt hfirst.2]
        rfl
      have hblock : offset.toInt.toNat / 512 = 0 := Nat.div_eq_of_lt hfirst.1
      refine ⟨fun _ => hfirst, ?_, ?_⟩
      · rw [designates, blockAround, if_pos hsdhc, if_pos hsdhc, hblock, writeArgument, hzero,
          UInt32.zero_mul]
        rfl
      · rw [designates, designates, if_pos hsdhc, if_pos hsdhc, writeArgument, readArgument,
          hzero, UInt32.zero_mul, UInt32.zero_mul]
  · rw [if_neg hsdhc]
    constructor
    · rintro ⟨_, _, hsame⟩
      rw [designates, designates, if_neg hsdhc, if_neg hsdhc, Prod.mk.injEq] at hsame
      exact (UInt32.toNat_inj.mp hsame.2).symm
    · intro hequal
      have hread := readArgument_designates hoffset hsize
      have hargs : writeArgument card.toMmcInfo offset = readArgument card.toMmcInfo offset := by
        rw [writeArgument, readArgument, hequal]
      rw [hargs, ← hequal]
      exact ⟨fun h => absurd h hsdhc, hread.mpr (fun h => absurd h hsdhc), rfl⟩

end Arithmetic

section Wire

variable {card : MmcCard} {offset : Int32} {uio : Uio}

theorem readAddresses_iff (haccepted : Accepted card.toMmcInfo offset uio .read) :
    ReadAddresses card offset uio ↔
      designates card card.readBlockSize (readArgument card.toMmcInfo offset) =
        blockAround card card.readBlockSize offset := by
  constructor
  · intro haddresses
    obtain ⟨fuel, r, hread⟩ := refusing_read (tap_streams fun _ => 1) (fun _ => 0) haccepted (0, [])
    obtain ⟨n, hlog⟩ := mmcSpiRead_wire haccepted hread
    exact haddresses _ _ _ _ _ _ hread _ _ hlog
  · intro hright σ dev fuel junk s r hread arg rest hparse
    obtain ⟨n, hlog⟩ := mmcSpiRead_wire haccepted hread
    rw [← (commandBytes_inj (hlog.symm.trans hparse)).1]
    exact hright

/-- The buffer has to hold the block that is read and the one that is sent. -/
def BlocksFit (card : MmcCard) : Prop :=
  card.readBlockSize.toNat ≤ maxBlockLength ∧ card.writeBlockSize.toNat ≤ maxBlockLength

theorem writeAddresses_iff (hcard : Decoded card)
    (haccepted : Accepted card.toMmcInfo offset uio .write) :
    WriteAddresses card offset uio ↔ BlocksFit card ∧
      designates card card.readBlockSize (readArgument card.toMmcInfo offset) =
          blockAround card card.readBlockSize offset ∧
        designates card card.writeBlockSize (writeArgument card.toMmcInfo offset) =
          blockAround card card.writeBlockSize offset ∧
        designates card card.writeBlockSize (writeArgument card.toMmcInfo offset) =
          designates card card.readBlockSize (readArgument card.toMmcInfo offset) := by
  have hne : mmcCmd24 ≠ 0xFF := by decide
  rw [WriteAddresses, writeInBounds_iff hcard haccepted, BlocksFit]
  apply and_congr_right
  rintro ⟨hreadFits, hwriteFits⟩
  constructor
  · intro haddresses
    obtain ⟨fuel, r, hwrite, hok⟩ := granting_write (s := (0, [])) (tap_streams grantingBytes) rfl
      (fun _ => 0) haccepted hreadFits hwriteFits
    obtain ⟨n, tail, hlog, htail⟩ := mmcSpiWrite_wire haccepted hwrite
    obtain ⟨hread, hsecond⟩ := haddresses _ _ _ _ _ _ hwrite
    rcases htail with ⟨_, hfailed⟩ | ⟨rest, rfl⟩
    · rw [hok] at hfailed
      exact absurd hfailed (by decide)
    · exact ⟨hread _ _ hlog, hsecond _ _ _ _ hlog⟩
  · rintro ⟨hread, hwrite, hsame⟩ σ dev fuel junk s r hrun
    obtain ⟨n, tail, hlog, htail⟩ := mmcSpiWrite_wire haccepted hrun
    constructor
    · intro arg rest hparse
      rw [← (commandBytes_inj (hlog.symm.trans hparse)).1]
      exact hread
    · intro arg m arg' rest hparse
      obtain ⟨harg, hrest⟩ := commandBytes_inj (hlog.symm.trans hparse)
      rcases htail with ⟨rfl, _⟩ | ⟨rest', rfl⟩
      · rw [List.append_nil] at hrest
        exact absurd hrest (filler_not_command hne)
      · rw [← harg, ← filler_command_inj hne hrest]
        exact ⟨hwrite, hsame⟩

end Wire

/-- On every card that `mmc_spi_open` accepts and for every request inside one
block: reads are addressed right unless the card is an SDHC card and the offset
lies beyond its first sector or block; writes are addressed right exactly when,
besides, a standard card has equal block lengths and the buffer holds a block. -/
theorem mmc_addressing_iff {σ : Type*} (dev : SpiDevice σ) (select : SpiSelect σ) (fuel : Nat)
    (data : Option MmcCard) (card : MmcCard) (s t : σ) (offset : Int32) (uio : Uio)
    (hopen : mmcSpiOpen dev select fuel data s = some (0, some card, t))
    (hoffset : 0 ≤ offset.toInt) (hinside : ¬ crossesSector card.toMmcInfo offset uio) :
    (ReadAddresses card offset { uio with rw := .read } ↔
      (card.isSdhc →
        offset.toInt.toNat < 512 ∧ offset.toInt.toNat < card.readBlockSize.toNat)) ∧
      (WriteAddresses card offset { uio with rw := .write } ↔
        BlocksFit card ∧ WritesInPlace card offset) := by
  have hcard := mmcSpiOpen_decoded hopen
  have hread : Accepted card.toMmcInfo offset { uio with rw := .read } .read :=
    ⟨rfl, hcard.read_ne, hinside⟩
  have hwrite : Accepted card.toMmcInfo offset { uio with rw := .write } .write :=
    ⟨rfl, hcard.read_ne, hinside⟩
  constructor
  · exact (readAddresses_iff hread).trans (readArgument_designates hoffset hcard.read_pos)
  · rw [writeAddresses_iff hcard hwrite, writeArgument_designates hoffset hcard.read_pos]

/-- An SDHC card is asked for its block 512 when the offset is 512, which lies
in block 1. -/
theorem mmc_sdhc_misaddressed :
    ∃ card n, openStream sdhcBytes = some (0, some card, n) ∧ card.isSdhc ∧
      readArgument card.toMmcInfo 512 = 512 ∧
      ¬ ReadAddresses card 512 ⟨fun _ => 0, 512, .read⟩ ∧
      ¬ WriteAddresses card 512 ⟨fun _ => 0, 512, .write⟩ := by
  obtain ⟨card, n, hopen, hsdhc, hsize⟩ := opens_of_any
    (by decide +kernel : (openStream sdhcBytes).any (fun r => r.1 == 0 && r.2.1.any
      (fun card => decide (card.isSdhc ∧ card.readBlockSize = 512))) = true)
  have hcard := mmcSpiOpen_decoded hopen
  have hargument : readArgument card.toMmcInfo 512 = 512 := by
    rw [readArgument, hsize]
    decide
  have hwrong : designates card card.readBlockSize (readArgument card.toMmcInfo 512) ≠
      blockAround card card.readBlockSize 512 := by
    rw [hargument, designates, blockAround, if_pos hsdhc, if_pos hsdhc]
    decide
  have hinside : ∀ direction, ¬ crossesSector card.toMmcInfo 512 ⟨fun _ => 0, 512, direction⟩ := by
    intro direction
    rw [crossesSector, hsize]
    change ¬ (512 : Int32).toUInt32 + (512 : Int32).toUInt32 % 512 > 512
    decide
  refine ⟨card, n, hopen, hsdhc, hargument, ?_, ?_⟩
  · rw [readAddresses_iff ⟨rfl, hcard.read_ne, hinside _⟩]
    exact hwrong
  · rw [writeAddresses_iff hcard ⟨rfl, hcard.read_ne, hinside _⟩]
    exact fun hright => hwrong hright.2.1

/-- A standard card with blocks of 512 bytes is addressed right. -/
theorem mmc_addressing_iff_standard :
    ∃ card n, openStream standardBytes = some (0, some card, n) ∧
      ReadAddresses card 512 ⟨fun _ => 0, 512, .read⟩ ∧
      WriteAddresses card 512 ⟨fun _ => 0, 512, .write⟩ := by
  obtain ⟨card, n, hopen, hsdhc, hread, hwrite⟩ := opens_of_any
    (by decide +kernel : (openStream standardBytes).any (fun r => r.1 == 0 && r.2.1.any
      (fun card => decide (¬ card.isSdhc ∧ card.readBlockSize = 512 ∧
        card.writeBlockSize = 512))) = true)
  have hinside : ¬ crossesSector card.toMmcInfo 512 ⟨fun _ => 0, 512, .read⟩ := by
    rw [crossesSector, hread]
    decide
  obtain ⟨hreads, hwrites⟩ := mmc_addressing_iff (streamDevice standardBytes) streamSelect 2
    (some MmcCard.zero) card 0 n 512 ⟨fun _ => 0, 512, .read⟩ hopen (by decide) hinside
  refine ⟨card, n, hopen, hreads.mpr (fun h => absurd h hsdhc), hwrites.mpr ⟨?_, ?_⟩⟩
  · rw [BlocksFit, hread, hwrite]
    decide
  · rw [WritesInPlace, if_neg hsdhc, hread, hwrite]

end PascalScheduler
