import PascalScheduler.Dev.MmcRegisters
import PascalScheduler.Library.Fuel

/-!
`mmc_spi_open` over any device on the bus: the reset, the version probe, the
initialisation loop and the registers. What the driver prints is left out. The
local buffers are read only where `mmc_read` has written them.
-/

namespace PascalScheduler

def mmcCmd01 : UInt8 := 0x41
def mmcCmd08 : UInt8 := 0x48
def mmcCmd09 : UInt8 := 0x49
def mmcCmd10 : UInt8 := 0x4A
def mmcCmd41 : UInt8 := 0x69
def mmcCmd58 : UInt8 := 0x7A

def mmcVoltage2736 : UInt32 := (0x1 : UInt32) <<< 8
def mmcOcrVoltage3031 : UInt32 := (1 : UInt32) <<< 18
def mmcOcrHcs : UInt32 := (1 : UInt32) <<< 30
def statusIllegalCmd : UInt8 := 4

/-- `TIMEOUT` -/
abbrev mmcTimeout : Nat := 128

/-- The slave select line of the SPI channel. -/
structure SpiSelect (σ : Type*) where
  enable : UInt32 → σ → σ
  disable : σ → σ

section Driver

variable {σ : Type*} (dev : SpiDevice σ)

/-- `mmc_send_acmd` -/
def mmcSendAcmd (cmd : UInt8) (arg : UInt32) (s : σ) : σ :=
  let s := mmcSend dev (arrayOf [0xFF, 0x77, 0, 0, 0, 0, 0x01]) 7 s
  let s := mmcSend dev (arrayOf [0xFF, 0xFF, 0xFF, 0xFF]) 4 s
  mmcSend dev (arrayOf (commandFrame cmd arg ++ [mmcCrc7 (commandFrame cmd arg)])) 6 s

/-- The loop of `mmc_to_idle`, with `left` more reads before `i > TIMEOUT`. -/
def idleLoop : Nat → σ → Int32 × σ
  | 0, s => (mmcError, s)
  | left + 1, s =>
      let answer := mmcReadByte dev s
      if answer.1 = 0x01 then (mmcOk, answer.2) else idleLoop left answer.2

def mmcToIdle (s : σ) : Int32 × σ :=
  idleLoop dev (mmcTimeout + 1) (mmcSend dev (arrayOf [0x40, 0, 0, 0, 0, 0x95]) 6 s)

/-- `mmc_read` into an array that holds nothing yet. -/
def mmcReadNew (fuel size : Nat) (s : σ) : Option ((Nat → UInt8) × σ) :=
  mmcRead dev fuel (fun _ => 0) size s

/-- `mmc_read_csd` -/
def mmcReadCsd (fuel : Nat) (card : MmcCard) (s : σ) : Option (Int32 × MmcCard × σ) :=
  let s := mmcSendCmd dev mmcCmd09 0 s
  (mmcSpiWaitStartBlock dev 1 fuel s).bind fun start =>
    (mmcReadNew dev fuel 18 start.2).map fun buf =>
      let decoded := decodeCsd buf.1 card
      (decoded.1, decoded.2, buf.2)

/-- `mmc_read_cid` -/
def mmcReadCid (fuel : Nat) (card : MmcCard) (s : σ) : Option (Int32 × MmcCard × σ) :=
  let s := mmcSendCmd dev mmcCmd10 0 s
  (mmcSpiWaitStartBlock dev 1 fuel s).bind fun start =>
    (mmcReadNew dev fuel 18 start.2).map fun buf =>
      let decoded := decodeCid buf.1 card
      (decoded.1, decoded.2, buf.2)

/-- `buf[4] | buf[3] << 8 | buf[2] << 16 | buf[1] << 24` -/
def ocrOf (buf : Nat → UInt8) : UInt32 :=
  (buf 4).toUInt32 ||| (buf 3).toUInt32 <<< 8 ||| (buf 2).toUInt32 <<< 16 |||
    (buf 1).toUInt32 <<< 24

/-- `mmc_get_info` -/
def mmcGetInfo (fuel : Nat) (card : MmcCard) (s : σ) : Option (Int32 × MmcCard × σ) :=
  let s := mmcSendCmd dev mmcCmd58 0 s
  (mmcReadNew dev fuel 5 s).bind fun buf =>
    if buf.1 0 ≠ 0 then some (mmcError, card, buf.2)
    else
      let ocr := ocrOf buf.1
      if (ocr >>> 31) &&& 0x01 = 0 then some (mmcError, card, buf.2)
      else
        let card :=
          if (ocr >>> 30) &&& 0x01 ≠ 0 then { card with flags := card.flags ||| sdSdhc }
          else card
        (mmcReadCsd dev fuel card buf.2).bind fun csd =>
          if csd.1 = mmcError then some (mmcError, csd.2.1, csd.2.2)
          else
            (mmcReadCid dev fuel csd.2.1 csd.2.2).map fun cid =>
              if cid.1 = mmcError then (mmcError, cid.2.1, cid.2.2)
              else (mmcOk, cid.2.1, cid.2.2)

/-- The two `do .. while` loops of `mmc_init`: repeat `command` until the R1
response is zero. -/
def untilReady (command : σ → σ) (fuel : Nat) : Nat → σ → Option σ
  | 0, _ => none
  | turns + 1, s =>
      (mmcReadNew dev fuel 1 (command s)).bind fun buf =>
        if buf.1 0 ≠ 0 then untilReady command fuel turns buf.2 else some buf.2

/-- `mmc_init` -/
def mmcInit (fuel : Nat) (card : MmcCard) (s : σ) : Option (Int32 × MmcCard × σ) :=
  let s := mmcSend dev (arrayOf [0xFF, 0xFF]) 2 s
  let s := mmcSendCmd dev mmcCmd08 (mmcVoltage2736 ||| 0xAA) s
  (mmcReadNew dev fuel 5 s).bind fun buf =>
    if buf.1 0 &&& statusIllegalCmd ≠ 0 then
      (untilReady dev (mmcSendCmd dev mmcCmd01 0) fuel fuel buf.2).bind fun s =>
        mmcGetInfo dev fuel { card with flags := card.flags ||| mmcV1 } s
    else
      (untilReady dev (mmcSendAcmd dev mmcCmd41 (mmcOcrVoltage3031 ||| mmcOcrHcs)) fuel fuel
          buf.2).bind fun s =>
        mmcGetInfo dev fuel { card with flags := card.flags ||| mmcV2 } s

/-- What the error label of `mmc_spi_open` does. -/
def openFails (card : MmcCard) (s : σ) : Int32 × Option MmcCard × σ :=
  (-1, some { card with flags := mmcDisabled }, (mmcToIdle dev s).2)

/-- `mmc_spi_open` -/
def mmcSpiOpen (select : SpiSelect σ) (fuel : Nat) (data : Option MmcCard) (s : σ) :
    Option (Int32 × Option MmcCard × σ) :=
  match data with
  | none => some (-1, none, (mmcToIdle dev s).2)
  | some card =>
      let card := { card with flags := 0 }
      let s := select.disable s
      let s := (List.range 10).foldl (fun s _ => mmcSend dev (arrayOf [0xFF]) 1 s) s
      let s := select.enable card.spiChannel s
      let idle := mmcToIdle dev s
      if idle.1 = mmcError then some (openFails dev card idle.2)
      else
        (mmcInit dev fuel card idle.2).map fun init =>
          if init.1 = mmcError then openFails dev init.2.1 init.2.2
          else (0, some init.2.1, init.2.2)

/-- `mmc_spi_close`: it does not look at what the reset returns. -/
def mmcSpiClose (data : Option MmcCard) (s : σ) : Int32 × σ :=
  match data with
  | none => (-1, s)
  | some _ => (0, (mmcToIdle dev s).2)

end Driver

section Success

variable {σ : Type*} {dev : SpiDevice σ} {fuel : Nat} {card : MmcCard} {s : σ}

theorem mmcReadCsd_decoded {r : Int32 × MmcCard × σ}
    (h : mmcReadCsd dev fuel card s = some r) (hr : r.1 ≠ mmcError) : Decoded r.2.1 := by
  obtain ⟨start, _, hread⟩ := Option.bind_eq_some_iff.mp h
  obtain ⟨buf, _, rfl⟩ := Option.map_eq_some_iff.mp hread
  exact decodeCsd_decoded hr

theorem mmcReadCid_keeps {r : Int32 × MmcCard × σ}
    (h : mmcReadCid dev fuel card s = some r) : r.2.1 = { card with cid := r.2.1.cid } := by
  obtain ⟨start, _, hread⟩ := Option.bind_eq_some_iff.mp h
  obtain ⟨buf, _, rfl⟩ := Option.map_eq_some_iff.mp hread
  exact congrArg Prod.snd (decodeCid_keeps buf.1 card)

theorem mmcGetInfo_decoded {r : Int32 × MmcCard × σ}
    (h : mmcGetInfo dev fuel card s = some r) (hr : r.1 ≠ mmcError) : Decoded r.2.1 := by
  obtain ⟨ocr, _, h⟩ := Option.bind_eq_some_iff.mp h
  split at h
  · exact absurd (congrArg Prod.fst (Option.some.inj h)).symm hr
  · dsimp only at h
    split at h
    · exact absurd (congrArg Prod.fst (Option.some.inj h)).symm hr
    · obtain ⟨csd, hcsd, h⟩ := Option.bind_eq_some_iff.mp h
      split at h
      · exact absurd (congrArg Prod.fst (Option.some.inj h)).symm hr
      · rename_i hok
        have hdecoded := mmcReadCsd_decoded hcsd hok
        obtain ⟨cid, hcid, h⟩ := Option.map_eq_some_iff.mp h
        have hkeeps := mmcReadCid_keeps hcid
        split at h
        · exact absurd (congrArg Prod.fst h).symm hr
        · rw [← h]
          dsimp only
          rw [hkeeps]
          exact ⟨hdecoded.read, hdecoded.write⟩

theorem mmcInit_decoded {r : Int32 × MmcCard × σ}
    (h : mmcInit dev fuel card s = some r) (hr : r.1 ≠ mmcError) : Decoded r.2.1 := by
  obtain ⟨r7, _, h⟩ := Option.bind_eq_some_iff.mp h
  split at h
  · obtain ⟨t, _, hinfo⟩ := Option.bind_eq_some_iff.mp h
    exact mmcGetInfo_decoded hinfo hr
  · obtain ⟨t, _, hinfo⟩ := Option.bind_eq_some_iff.mp h
    exact mmcGetInfo_decoded hinfo hr

/-- A successful `mmc_spi_open` leaves decoded block sizes. -/
theorem mmcSpiOpen_decoded {select : SpiSelect σ} {data : Option MmcCard} {t : σ}
    (h : mmcSpiOpen dev select fuel data s = some (0, some card, t)) : Decoded card := by
  have hne : (-1 : Int32) ≠ 0 := by decide
  cases data with
  | none =>
      rw [mmcSpiOpen, Option.some.injEq, Prod.mk.injEq] at h
      exact absurd h.1 hne
  | some before =>
      simp only [mmcSpiOpen] at h
      split at h
      · rw [openFails, Option.some.injEq, Prod.mk.injEq] at h
        exact absurd h.1 hne
      · obtain ⟨init, hinit, hret⟩ := Option.map_eq_some_iff.mp h
        split at hret
        · rw [openFails, Prod.mk.injEq] at hret
          exact absurd hret.1 hne
        · rename_i hok
          rw [Prod.mk.injEq, Prod.mk.injEq, Option.some.injEq] at hret
          rw [← hret.2.1]
          exact mmcInit_decoded hinit hok

/-- A failing one leaves the card marked as disabled. -/
theorem mmcSpiOpen_disabled {select : SpiSelect σ} {data data' : Option MmcCard} {t : σ}
    (h : mmcSpiOpen dev select fuel data s = some (-1, data', t)) :
    ∀ card', data' = some card' → card'.flags = mmcDisabled := by
  have hne : (0 : Int32) ≠ -1 := by decide
  rintro card' rfl
  cases data with
  | none =>
      rw [mmcSpiOpen, Option.some.injEq, Prod.mk.injEq, Prod.mk.injEq] at h
      cases h.2.1
  | some before =>
      simp only [mmcSpiOpen] at h
      split at h
      · rw [openFails, Option.some.injEq, Prod.mk.injEq, Prod.mk.injEq, Option.some.injEq] at h
        rw [← h.2.1]
      · obtain ⟨init, _, hret⟩ := Option.map_eq_some_iff.mp h
        split at hret
        · rw [openFails, Prod.mk.injEq, Prod.mk.injEq, Option.some.injEq] at hret
          rw [← hret.2.1]
        · rw [Prod.mk.injEq] at hret
          exact absurd hret.1 hne

end Success

end PascalScheduler
