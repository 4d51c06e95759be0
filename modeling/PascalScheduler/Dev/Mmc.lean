import Mathlib.Tactic

/-!
The block transfers of the MMC driver (`mmc_spi.c`) over the SPI driver, for
any device on the bus. A buffer is a function of the index. The polling loops
take a number of turns; `none` means that it was not enough, or that C does not
say what happens: after a division by zero and after an access behind the end of
a buffer.
-/

namespace PascalScheduler

/-- A device on the bus: each byte sent to it clocks one byte back. -/
structure SpiDevice (σ : Type*) where
  exchange : UInt8 → σ → UInt8 × σ

inductive UioRw where
  | read
  | write
  deriving DecidableEq

/-- `struct uio`: the buffer at `iov_base` and what is left to transfer. -/
structure Uio where
  base : Nat → UInt8
  resid : Int32
  rw : UioRw

/-- The request behind a loop `for (; uio_resid > 0; uio_resid--)`. -/
def drained (uio : Uio) : Uio :=
  { uio with resid := if 0 < uio.resid then 0 else uio.resid }

/-- The fields of `struct mmc_info` that the transfers read. -/
structure MmcInfo where
  readBlockSize : UInt32
  writeBlockSize : UInt32

/-- `MAX_BLOCK_LENGTH`, the length of the buffer of both transfers. -/
def maxBlockLength : Nat := 512

def mmcError : Int32 := -1
def mmcOk : Int32 := 2

def mmcCmd17 : UInt8 := 0x51
def mmcCmd24 : UInt8 := 0x58

section Spi

variable {σ : Type*} (dev : SpiDevice σ)

def usicSpiSend (b : UInt8) (s : σ) : σ :=
  (dev.exchange b s).2

/-- The vendor library clocks out ones while it receives. -/
def usicSpiReceive (s : σ) : UInt8 × σ :=
  dev.exchange 0xFF s

/-- `dev_write` of `size` bytes of `buf` to the SPI node, from `buf[i]` on. -/
def devWrite (buf : Nat → UInt8) : Nat → Nat → σ → σ
  | 0, _, s => s
  | size + 1, i, s => devWrite buf size (i + 1) (usicSpiSend dev (buf i) s)

/-- `dev_read` of `size` bytes from the SPI node, into `buf[i]` and on. -/
def devRead : Nat → Nat → (Nat → UInt8) → σ → (Nat → UInt8) × σ
  | 0, _, buf, s => (buf, s)
  | size + 1, i, buf, s =>
      let answer := usicSpiReceive dev s
      devRead size (i + 1) (Function.update buf i answer.1) answer.2

end Spi

/-- The loop over the bits of `mmc_crc7`. -/
def crcBits : Nat → UInt8 → UInt8 → UInt8
  | 0, _, crc => crc
  | n + 1, c, crc =>
      let crc := crc <<< 1
      let crc := if (c ^^^ crc) &&& 0x80 ≠ 0 then crc ^^^ 0x09 else crc
      crcBits n (c <<< 1) crc

def mmcCrc7 (data : List UInt8) : UInt8 :=
  (data.foldl (fun crc c => crcBits 8 c crc &&& 0x7F) 0) <<< 1 ||| 0x1

/-- An array initialised with a list. -/
def arrayOf (bytes : List UInt8) (i : Nat) : UInt8 :=
  bytes.getD i 0

/-- `(arg & (0xFF << n*8)) >> n*8` -/
def argumentByte (arg n : UInt32) : UInt8 :=
  ((arg &&& ((0xFF : UInt32) <<< (n * 8))) >>> (n * 8)).toUInt8

def argumentBytes (arg : UInt32) : List UInt8 :=
  [argumentByte arg 3, argumentByte arg 2, argumentByte arg 1, argumentByte arg 0]

def commandFrame (cmd : UInt8) (arg : UInt32) : List UInt8 :=
  cmd :: argumentBytes arg

section Driver

variable {σ : Type*} (dev : SpiDevice σ)

def mmcSend (buf : Nat → UInt8) (size : Nat) (s : σ) : σ :=
  devWrite dev buf size 0 s

def mmcSendCmd (cmd : UInt8) (arg : UInt32) (s : σ) : σ :=
  mmcSend dev
    (arrayOf (0xFF :: commandFrame cmd arg ++ [mmcCrc7 (commandFrame cmd arg)])) 7 s

def mmcReadByte (s : σ) : UInt8 × σ :=
  usicSpiReceive dev s

/-- Read bytes until one is not `0xFF`. -/
def pollByte : Nat → σ → Option (UInt8 × σ)
  | 0, _ => none
  | fuel + 1, s =>
      let answer := mmcReadByte dev s
      if answer.1 = 0xFF then pollByte fuel answer.2 else some answer

def mmcSpiWaitUnbusy : Nat → σ → Option (UInt8 × σ) :=
  pollByte dev

def mmcSpiReadStatus : Nat → σ → Option (UInt8 × σ) :=
  pollByte dev

def mmcSpiWaitStartBlock (ignoreStatus : UInt8) : Nat → σ → Option (Int32 × σ)
  | 0, _ => none
  | fuel + 1, s =>
      let answer := mmcReadByte dev s
      if answer.1 &&& 0xF0 = 0 ∧ ignoreStatus = 0 then some (mmcError, answer.2)
      else if answer.1 ≠ 0xFE then mmcSpiWaitStartBlock ignoreStatus fuel answer.2
      else some (mmcOk, answer.2)

/-- `mmc_read` takes its first byte from the polling loop. -/
def mmcRead (fuel : Nat) (buf : Nat → UInt8) (size : Nat) (s : σ) :
    Option ((Nat → UInt8) × σ) :=
  (mmcSpiWaitUnbusy dev fuel s).map fun first =>
    devRead dev (size - 1) 1 (Function.update buf 0 first.1) first.2

def mmcReadSector (fuel : Nat) (info : MmcInfo) (buf : Nat → UInt8) (sector : Int32) (s : σ) :
    Option (Int32 × (Nat → UInt8) × σ) :=
  let s := mmcSendCmd dev mmcCmd17 (sector.toUInt32 * info.readBlockSize) s
  (mmcSpiReadStatus dev fuel s).bind fun status =>
    if status.1 ≠ 0 then some (mmcError, buf, status.2)
    else
      (mmcSpiWaitStartBlock dev 0 fuel status.2).bind fun start =>
        if start.1 = mmcError then some (mmcError, buf, start.2)
        else
          (mmcRead dev fuel buf info.readBlockSize.toNat start.2).map fun block =>
            (mmcOk, block.1, block.2)

def mmcWriteSector (fuel : Nat) (info : MmcInfo) (buf : Nat → UInt8) (sector : Int32) (s : σ) :
    Option (Int32 × σ) :=
  let s := mmcSendCmd dev mmcCmd24 (sector.toUInt32 * info.writeBlockSize) s
  (mmcSpiReadStatus dev fuel s).map fun status =>
    if status.1 ≠ 0 then (mmcError, status.2)
    else
      let s := mmcSend dev (arrayOf [0xFF, 0xFE]) 2 status.2
      (mmcOk, mmcSend dev buf info.writeBlockSize.toNat s)

/-- The copying loops: `n` bytes from `src[i]` on to `dst[j]` and on. -/
def copyBytes (src : Nat → UInt8) : Nat → Nat → Nat → (Nat → UInt8) → Nat → UInt8
  | 0, _, _, dst => dst
  | n + 1, i, j, dst => copyBytes src n (i + 1) (j + 1) (Function.update dst j (src i))

/-- How many turns a loop `for (; resid > 0; resid--)` takes. -/
def Uio.count (uio : Uio) : Nat :=
  uio.resid.toInt.toNat

/-- Both transfers refuse a request that crosses the end of a sector. -/
def crossesSector (info : MmcInfo) (offset : Int32) (uio : Uio) : Prop :=
  uio.resid.toUInt32 + offset.toUInt32 % info.readBlockSize > info.readBlockSize

instance (info : MmcInfo) (offset : Int32) (uio : Uio) :
    Decidable (crossesSector info offset uio) :=
  inferInstanceAs (Decidable (_ > _))

/-- `mmc_spi_write`; `junk` is what the buffer on the stack holds before. The
sector is read into it, and sent from it, whatever its block lengths are. -/
def mmcSpiWrite (fuel : Nat) (data : Option MmcInfo) (offset : Int32) (uio : Uio)
    (junk : Nat → UInt8) (s : σ) : Option (Int32 × Uio × σ) :=
  match data with
  | none => some (-1, uio, s)
  | some info =>
      if uio.rw ≠ .write then some (-1, uio, s)
      else if info.readBlockSize = 0 then none
      else
        let readSector := offset.toUInt32 / info.readBlockSize
        let readOffset := offset.toUInt32 % info.readBlockSize
        if crossesSector info offset uio then some (-1, uio, s)
        else
          (mmcReadSector dev fuel info junk readSector.toInt32 s).bind fun sector =>
            if sector.1 ≠ mmcOk then some (-1, uio, sector.2.2)
            else if maxBlockLength < info.readBlockSize.toNat then none
            else
              let buf := copyBytes uio.base uio.count 0 readOffset.toNat sector.2.1
              (mmcWriteSector dev fuel info buf readSector.toInt32 sector.2.2).bind fun written =>
                if written.1 ≠ mmcOk then some (-1, drained uio, written.2)
                else if maxBlockLength < info.writeBlockSize.toNat then none
                else some (0, drained uio, written.2)

/-- `mmc_spi_read`. -/
def mmcSpiRead (fuel : Nat) (data : Option MmcInfo) (offset : Int32) (uio : Uio)
    (junk : Nat → UInt8) (s : σ) : Option (Int32 × Uio × σ) :=
  match data with
  | none => some (-1, uio, s)
  | some info =>
      if uio.rw ≠ .read then some (-1, uio, s)
      else if info.readBlockSize = 0 then none
      else
        let readSector := offset.toUInt32 / info.readBlockSize
        let readOffset := offset.toUInt32 % info.readBlockSize
        if crossesSector info offset uio then some (-1, uio, s)
        else
          (mmcReadSector dev fuel info junk readSector.toInt32 s).bind fun sector =>
            if sector.1 ≠ mmcOk then some (-1, uio, sector.2.2)
            else if maxBlockLength < info.readBlockSize.toNat then none
            else
              let base := copyBytes sector.2.1 uio.count readOffset.toNat 0 uio.base
              some (0, { drained uio with base := base }, sector.2.2)

end Driver

section Loops

variable {σ : Type*}

theorem drained_of_nonneg {uio : Uio} (h : 0 ≤ uio.resid.toInt) :
    drained uio = { uio with resid := 0 } := by
  rw [drained]
  congr 1
  split
  · rfl
  · rename_i hdone
    apply Int32.toInt_inj.mp
    rw [Int32.lt_iff_toInt_lt] at hdone
    change ¬ (0 : Int) < _ at hdone
    change _ = (0 : Int)
    omega

theorem copyBytes_out (src : Nat → UInt8) (n i j : Nat) (dst : Nat → UInt8) {k : Nat}
    (h : k < j ∨ j + n ≤ k) : copyBytes src n i j dst k = dst k := by
  induction n generalizing i j dst with
  | zero => rfl
  | succ n ih =>
      rw [copyBytes, ih (i + 1) (j + 1) _ (by omega), Function.update_of_ne (by omega)]

theorem copyBytes_in (src : Nat → UInt8) (n i j : Nat) (dst : Nat → UInt8) {k : Nat}
    (hk : k < n) : copyBytes src n i j dst (j + k) = src (i + k) := by
  induction n generalizing i j dst k with
  | zero => omega
  | succ n ih =>
      rw [copyBytes]
      cases k with
      | zero =>
          rw [copyBytes_out _ _ _ _ _ (by omega)]
          exact Function.update_self _ _ _
      | succ k =>
          have hnext := ih (i + 1) (j + 1) (Function.update dst j (src i)) (k := k) (by omega)
          rw [show j + (k + 1) = j + 1 + k by omega, hnext, show i + 1 + k = i + (k + 1) by omega]

end Loops

end PascalScheduler
