import PascalScheduler.Dev.MmcOpenEnds

/-!
When `mmc_spi_open` succeeds, and what it then leaves in `struct mmc_info`. As
for its return, the card decides stage by stage; here every stage has to answer
what the driver wants, and each adds to the information.
-/

namespace PascalScheduler

open Fuel

section Stages

variable {σ : Type*} (dev : SpiDevice σ)

/-- The flag of the version that the answer to CMD8 stands for. -/
def versionFlag (r7 : UInt8) : UInt8 :=
  if r7 &&& statusIllegalCmd ≠ 0 then mmcV1 else mmcV2

/-- The card once its OCR is read. -/
def markSdhc (ocr : Nat → UInt8) (card : MmcCard) : MmcCard :=
  if (ocrOf ocr >>> 30) &&& 0x01 ≠ 0 then { card with flags := card.flags ||| sdSdhc } else card

/-- A CSD and a CID that are accepted; then the card is in state `t`, and `info`
is known of it. -/
def SendsRegisters (card : MmcCard) (s : σ) (info : MmcCard) (t : σ) : Prop :=
  ∃ csd u cid, SendsRegister dev (mmcSendCmd dev mmcCmd09 0 s) csd u ∧ CsdAccepted csd ∧
    SendsRegister dev (mmcSendCmd dev mmcCmd10 0 u) cid t ∧ registerValid cid ∧
    info = (decodeCid cid (decodeCsd csd card).2).2

/-- An OCR that says that the card is powered up, and the registers. -/
def SendsInfo (card : MmcCard) (s : σ) (info : MmcCard) (t : σ) : Prop :=
  ∃ ocr u, Sends dev 5 (mmcSendCmd dev mmcCmd58 0 s) ocr u ∧ ocr 0 = 0 ∧
    (ocrOf ocr >>> 31) &&& 0x01 ≠ 0 ∧ SendsRegisters dev (markSdhc ocr card) u info t

/-- The version is found out, the card leaves the idle state and informs. -/
def Initialises (card : MmcCard) (s : σ) (info : MmcCard) (t : σ) : Prop :=
  ∃ r7 u v, Sends dev 5
      (mmcSendCmd dev mmcCmd08 (mmcVoltage2736 ||| 0xAA)
        (mmcSend dev (arrayOf [0xFF, 0xFF]) 2 s)) r7 u ∧
    LeavesIdle dev (retriedCommand dev (r7 0)) u v ∧
    SendsInfo dev { card with flags := card.flags ||| versionFlag (r7 0) } v info t

/-- The card as it was reset by `mmc_spi_open`. -/
def resetCard (select : SpiSelect σ) (card : MmcCard) (s : σ) : σ :=
  mmcSend dev (arrayOf [0x40, 0, 0, 0, 0, 0x95]) 6 (wokenCard dev select card s)

/-- The reset is answered in time, and the card initialises. -/
def Opens (select : SpiSelect σ) (card : MmcCard) (s : σ) (info : MmcCard) (t : σ) : Prop :=
  ∃ i, i ≤ mmcTimeout ∧ FirstByte dev (· = 0x01) (resetCard dev select card s) i ∧
    Initialises dev { card with flags := 0 } (afterReads dev (i + 1) (resetCard dev select card s))
      info t

variable {dev} {s t : σ} {card info : MmcCard} {ret : Int32}

theorem decodeCid_error (bytes : Nat → UInt8) (card : MmcCard) :
    (decodeCid bytes card).1 = mmcError ↔ ¬ registerValid bytes := by
  have hne : mmcOk ≠ mmcError := by decide
  rw [decodeCid]
  by_cases hvalid : registerValid bytes
  · rw [if_neg (not_not.mpr hvalid)]
    exact iff_of_false hne (not_not.mpr hvalid)
  · rw [if_pos hvalid]
    exact iff_of_true rfl hvalid

theorem mmcReadCsd_ends {r : Int32 × MmcCard × σ} :
    Ends (fun fuel => mmcReadCsd dev fuel card s) r ↔
      ∃ csd t, SendsRegister dev (mmcSendCmd dev mmcCmd09 0 s) csd t ∧
        ((decodeCsd csd card).1, (decodeCsd csd card).2, t) = r := by
  simp only [mmcReadCsd_eq, ends_map, readRegister_ends, Prod.exists]

theorem mmcReadCid_ends {r : Int32 × MmcCard × σ} :
    Ends (fun fuel => mmcReadCid dev fuel card s) r ↔
      ∃ cid t, SendsRegister dev (mmcSendCmd dev mmcCmd10 0 s) cid t ∧
        ((decodeCid cid card).1, (decodeCid cid card).2, t) = r := by
  simp only [mmcReadCid_eq, ends_map, readRegister_ends, Prod.exists]

/-- The two registers at the end of `mmc_get_info`. -/
def mmcReadRegisters (dev : SpiDevice σ) (fuel : Nat) (card : MmcCard) (s : σ) :
    Option (Int32 × MmcCard × σ) :=
  (mmcReadCsd dev fuel card s).bind fun csd =>
    if csd.1 = mmcError then some (mmcError, csd.2.1, csd.2.2)
    else
      (mmcReadCid dev fuel csd.2.1 csd.2.2).map fun cid =>
        if cid.1 = mmcError then (mmcError, cid.2.1, cid.2.2) else (mmcOk, cid.2.1, cid.2.2)

theorem mmcReadRegisters_stable (card : MmcCard) (s : σ) :
    Stable (fun fuel => mmcReadRegisters dev fuel card s) :=
  (mmcReadCsd_stable _ _).bind fun _ => (stable_const _).ite _ ((mmcReadCid_stable _ _).map _)

theorem mmcReadRegisters_ends :
    (∃ ret, ret ≠ mmcError ∧ Ends (fun fuel => mmcReadRegisters dev fuel card s) (ret, info, t)) ↔
      SendsRegisters dev card s info t := by
  have hne : mmcOk ≠ mmcError := by decide
  simp only [mmcReadRegisters]
  simp only [ends_bind (mmcReadCsd_stable card s)
    (fun csd => (stable_const _).ite _ ((mmcReadCid_stable _ _).map _)), mmcReadCsd_ends, ends_ite]
  constructor
  · rintro ⟨ret, hret, _, ⟨csd, u, hcsd, rfl⟩, hrest⟩
    split at hrest
    · cases ends_some.mp hrest
      exact absurd rfl hret
    · rename_i haccepted
      rw [decodeCsd_error, not_not] at haccepted
      obtain ⟨_, hcid, heq⟩ := ends_map.mp hrest
      obtain ⟨cid, v, hsends, rfl⟩ := mmcReadCid_ends.mp hcid
      split at heq
      · cases heq
        exact absurd rfl hret
      · rename_i hvalid
        rw [decodeCid_error, not_not] at hvalid
        cases heq
        exact ⟨csd, u, cid, hcsd, haccepted, hsends, hvalid, rfl⟩
  · rintro ⟨csd, u, cid, hcsd, haccepted, hcid, hvalid, rfl⟩
    have hok : ¬ (decodeCsd csd card).1 = mmcError :=
      fun h => (decodeCsd_error csd card).mp h haccepted
    have hok' : ¬ (decodeCid cid (decodeCsd csd card).2).1 = mmcError :=
      fun h => (decodeCid_error cid _).mp h hvalid
    refine ⟨mmcOk, hne, _, ⟨csd, u, hcsd, rfl⟩, ?_⟩
    rw [if_neg hok]
    exact ends_map.mpr ⟨_, mmcReadCid_ends.mpr ⟨cid, t, hcid, rfl⟩, if_neg hok'⟩

theorem mmcGetInfo_eq (fuel : Nat) (card : MmcCard) (s : σ) :
    mmcGetInfo dev fuel card s =
      (mmcReadNew dev fuel 5 (mmcSendCmd dev mmcCmd58 0 s)).bind fun buf =>
        if buf.1 0 ≠ 0 then some (mmcError, card, buf.2)
        else if (ocrOf buf.1 >>> 31) &&& 0x01 = 0 then some (mmcError, card, buf.2)
        else mmcReadRegisters dev fuel (markSdhc buf.1 card) buf.2 := rfl

theorem mmcGetInfo_ends :
    (∃ ret, ret ≠ mmcError ∧ Ends (fun fuel => mmcGetInfo dev fuel card s) (ret, info, t)) ↔
      SendsInfo dev card s info t := by
  simp only [mmcGetInfo_eq]
  simp only [ends_bind (mmcReadNew_stable 5 (mmcSendCmd dev mmcCmd58 0 s))
    (fun buf => (stable_const _).ite _ ((stable_const _).ite _ (mmcReadRegisters_stable _ _))),
    mmcReadNew_ends (by omega : 0 < 5), ends_ite, Prod.exists]
  constructor
  · rintro ⟨ret, hret, ocr, u, hsends, hrest⟩
    split at hrest
    · cases ends_some.mp hrest
      exact absurd rfl hret
    · rename_i hstatus
      split at hrest
      · cases ends_some.mp hrest
        exact absurd rfl hret
      · rename_i hpower
        exact ⟨ocr, u, hsends, not_not.mp hstatus, hpower,
          mmcReadRegisters_ends.mp ⟨ret, hret, hrest⟩⟩
  · rintro ⟨ocr, u, hsends, hstatus, hpower, hregisters⟩
    obtain ⟨ret, hret, hrest⟩ := mmcReadRegisters_ends.mpr hregisters
    refine ⟨ret, hret, ocr, u, hsends, ?_⟩
    rw [if_neg (not_not.mpr hstatus), if_neg hpower]
    exact hrest

theorem mmcInit_eq (fuel : Nat) (card : MmcCard) (s : σ) :
    mmcInit dev fuel card s =
      (mmcReadNew dev fuel 5 (mmcSendCmd dev mmcCmd08 (mmcVoltage2736 ||| 0xAA)
        (mmcSend dev (arrayOf [0xFF, 0xFF]) 2 s))).bind fun buf =>
          (untilReady dev (retriedCommand dev (buf.1 0)) fuel fuel buf.2).bind fun u =>
            mmcGetInfo dev fuel { card with flags := card.flags ||| versionFlag (buf.1 0) } u := by
  rw [mmcInit]
  refine congrArg (Option.bind _) (funext fun buf => ?_)
  rw [retriedCommand, versionFlag]
  split_ifs <;> rfl

theorem mmcInit_stable (card : MmcCard) (s : σ) :
    Stable (fun fuel => mmcInit dev fuel card s) := by
  simp only [mmcInit_eq]
  exact (mmcReadNew_stable 5 _).bind fun buf =>
    (untilReady_stable _ buf.2).bind fun u => mmcGetInfo_stable _ u

theorem mmcInit_ends :
    (∃ ret, ret ≠ mmcError ∧ Ends (fun fuel => mmcInit dev fuel card s) (ret, info, t)) ↔
      Initialises dev card s info t := by
  simp only [mmcInit_eq]
  simp only [ends_bind (mmcReadNew_stable 5 _)
    (fun buf => (untilReady_stable (retriedCommand dev (buf.1 0)) buf.2).bind
      (fun u => mmcGetInfo_stable { card with flags := card.flags ||| versionFlag (buf.1 0) } u)),
    ends_bind (untilReady_stable _ _) (fun _ => mmcGetInfo_stable _ _),
    mmcReadNew_ends (by omega : 0 < 5), untilReady_ends, Prod.exists]
  constructor
  · rintro ⟨ret, hret, r7, u, hsends, v, hleaves, hinfo⟩
    exact ⟨r7, u, v, hsends, hleaves, mmcGetInfo_ends.mp ⟨ret, hret, hinfo⟩⟩
  · rintro ⟨r7, u, v, hsends, hleaves, hinfo⟩
    obtain ⟨ret, hret, hends⟩ := mmcGetInfo_ends.mpr hinfo
    exact ⟨ret, hret, r7, u, hsends, v, hleaves, hends⟩

/-- `mmc_spi_open` from the answer to the reset on. -/
theorem mmcSpiOpen_eq (select : SpiSelect σ) (fuel : Nat) (card : MmcCard) (s : σ) :
    mmcSpiOpen dev select fuel (some card) s =
      let idle := idleLoop dev (mmcTimeout + 1) (resetCard dev select card s)
      if idle.1 = mmcError then some (openFails dev { card with flags := 0 } idle.2)
      else
        (mmcInit dev fuel { card with flags := 0 } idle.2).map fun init =>
          if init.1 = mmcError then openFails dev init.2.1 init.2.2
          else (0, some init.2.1, init.2.2) := rfl

theorem mmcSpiOpen_stable (select : SpiSelect σ) (card : MmcCard) (s : σ) :
    Stable (fun fuel => mmcSpiOpen dev select fuel (some card) s) := by
  simp only [mmcSpiOpen_eq]
  exact (stable_const _).ite _ ((mmcInit_stable _ _).map _)

/-- On any device: `mmc_spi_open` succeeds, leaving this information and the
device in this state, if and only if the device opens so. -/
theorem mmc_open_succeeds_iff (dev : SpiDevice σ) (select : SpiSelect σ) (card info : MmcCard)
    (s t : σ) :
    Ends (fun fuel => mmcSpiOpen dev select fuel (some card) s) (0, some info, t) ↔
      Opens dev select card s info t := by
  have hne : ¬ mmcOk = mmcError := by decide
  simp only [mmcSpiOpen_eq, ends_ite]
  constructor
  · intro h
    split at h
    · cases (congrArg Prod.fst (ends_some.mp h))
    · rename_i hidle
      obtain ⟨i, hle, hfirst⟩ : ∃ i, i ≤ mmcTimeout ∧
          FirstByte dev (· = 0x01) (resetCard dev select card s) i := by
        by_contra hnone
        apply hidle
        apply idleLoop_timeout
        intro n hn hbyte
        obtain ⟨i, hi, hfirst⟩ := exists_firstByte (p := (· = 0x01)) hbyte
        exact hnone ⟨i, by omega, hfirst⟩
      rw [idleLoop_found (by omega : i < mmcTimeout + 1) hfirst] at h
      obtain ⟨init, hinit, heq⟩ := ends_map.mp h
      split at heq
      · cases congrArg Prod.fst heq
      · rename_i hok
        cases heq
        exact ⟨i, hle, hfirst, mmcInit_ends.mp ⟨_, hok, hinit⟩⟩
  · rintro ⟨i, hle, hfirst, hinitialises⟩
    obtain ⟨ret, hok, hinit⟩ := mmcInit_ends.mpr hinitialises
    rw [idleLoop_found (by omega : i < mmcTimeout + 1) hfirst, if_neg hne]
    exact ends_map.mpr ⟨_, hinit, if_neg hok⟩

end Stages

end PascalScheduler
