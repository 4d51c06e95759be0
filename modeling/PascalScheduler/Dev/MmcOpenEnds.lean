import PascalScheduler.Dev.MmcOpen
import PascalScheduler.Dev.MmcPolling

/-!
When `mmc_spi_open` returns. Of its polling loops only the one that waits for
the idle state is bounded. Every other one ends exactly when the card sends the
byte it waits for, so the call returns on some cards and hangs on others; the
predicates here say on which, stage by stage.
-/

namespace PascalScheduler

open Fuel

section Stages

variable {σ : Type*} (dev : SpiDevice σ)

/-- The card goes on to send `buf`, of `size` bytes, and is then in state `t`. -/
def Sends (size : Nat) (s : σ) (buf : Nat → UInt8) (t : σ) : Prop :=
  ∃ m, FirstByte dev (· ≠ 0xFF) s m ∧ buf = received dev s m size ∧
    t = afterReads dev (m + size) s

/-- A start token and then the 16 bytes of a register with two more. -/
def SendsRegister (s : σ) (buf : Nat → UInt8) (t : σ) : Prop :=
  ∃ m, FirstByte dev (· = 0xFE) s m ∧ Sends dev 18 (afterReads dev (m + 1) s) buf t

/-- A CSD whose check is right and whose layout is known. -/
def CsdAccepted (bytes : Nat → UInt8) : Prop :=
  registerValid bytes ∧
    (unstuffBits (wordAt (swapRegister bytes)) 122 4 = 0 →
      (unstuffBits (wordAt (swapRegister bytes)) 126 2).toUInt8 ≤ 1)

/-- The OCR and the two registers come, or the driver gives up before. -/
def InfoEnds (s : σ) : Prop :=
  ∃ ocr t, Sends dev 5 (mmcSendCmd dev mmcCmd58 0 s) ocr t ∧
    (ocr 0 ≠ 0 ∨ (ocrOf ocr >>> 31) &&& 0x01 = 0 ∨
      ∃ csd u, SendsRegister dev (mmcSendCmd dev mmcCmd09 0 t) csd u ∧
        (¬ CsdAccepted csd ∨
          ∃ cid v, SendsRegister dev (mmcSendCmd dev mmcCmd10 0 u) cid v))

/-- The card leaves the idle state: some repetition of `command` is answered
with a zero, those before it with anything else. -/
inductive LeavesIdle (command : σ → σ) : σ → σ → Prop where
  | ready {s t : σ} {buf : Nat → UInt8} (sends : Sends dev 1 (command s) buf t)
      (zero : buf 0 = 0) : LeavesIdle command s t
  | again {s t u : σ} {buf : Nat → UInt8} (sends : Sends dev 1 (command s) buf t)
      (nonzero : buf 0 ≠ 0) (rest : LeavesIdle command t u) : LeavesIdle command s u

/-- What `mmc_init` repeats, by the version the card claims. -/
def retriedCommand (r7 : UInt8) : σ → σ :=
  if r7 &&& statusIllegalCmd ≠ 0 then mmcSendCmd dev mmcCmd01 0
  else mmcSendAcmd dev mmcCmd41 (mmcOcrVoltage3031 ||| mmcOcrHcs)

def InitEnds (s : σ) : Prop :=
  ∃ r7 t u, Sends dev 5
      (mmcSendCmd dev mmcCmd08 (mmcVoltage2736 ||| 0xAA)
        (mmcSend dev (arrayOf [0xFF, 0xFF]) 2 s)) r7 t ∧
    LeavesIdle dev (retriedCommand dev (r7 0)) t u ∧ InfoEnds dev u

/-- The bus as `mmc_spi_open` finds it when it asks for the idle state. -/
def wokenCard (select : SpiSelect σ) (card : MmcCard) (s : σ) : σ :=
  select.enable card.spiChannel
    ((List.range 10).foldl (fun s _ => mmcSend dev (arrayOf [0xFF]) 1 s) (select.disable s))

/-- The card does not answer the reset in time, or goes all the way. `s` is the
device once the reset command is sent. -/
def ResetEnds (s : σ) : Prop :=
  (∀ i, i ≤ mmcTimeout → byteAt dev s i ≠ 0x01) ∨
    ∃ i, i ≤ mmcTimeout ∧ FirstByte dev (· = 0x01) s i ∧ InitEnds dev (afterReads dev (i + 1) s)

def OpenEnds (select : SpiSelect σ) (card : MmcCard) (s : σ) : Prop :=
  ResetEnds dev (mmcSend dev (arrayOf [0x40, 0, 0, 0, 0, 0x95]) 6 (wokenCard dev select card s))

variable {dev} {s : σ} {card : MmcCard}

theorem mmcReadNew_stable (size : Nat) (s : σ) :
    Stable (fun fuel => mmcReadNew dev fuel size s) :=
  mmcRead_stable _ size s

theorem mmcReadNew_ends {size : Nat} (hsize : 0 < size) {r : (Nat → UInt8) × σ} :
    Ends (fun fuel => mmcReadNew dev fuel size s) r ↔ Sends dev size s r.1 r.2 := by
  simp only [mmcReadNew, mmcRead_ends hsize, Sends, Prod.ext_iff]
  rfl

/-- Where no error status is looked for, only the token ends the wait. -/
theorem endsWait_ignoring : EndsWait 1 = (· = 0xFE) := by
  have hone : ¬ (1 : UInt8) = 0 := by decide
  funext b
  simp [EndsWait, hone]

/-- The common part of `mmc_read_csd` and `mmc_read_cid`. -/
def readRegister (dev : SpiDevice σ) (fuel : Nat) (s : σ) : Option ((Nat → UInt8) × σ) :=
  (mmcSpiWaitStartBlock dev 1 fuel s).bind fun start => mmcReadNew dev fuel 18 start.2

theorem readRegister_stable (s : σ) : Stable (fun fuel => readRegister dev fuel s) :=
  (waitStartBlock_stable 1 s).bind fun start => mmcReadNew_stable 18 start.2

theorem readRegister_ends {r : (Nat → UInt8) × σ} :
    Ends (fun fuel => readRegister dev fuel s) r ↔ SendsRegister dev s r.1 r.2 := by
  simp only [readRegister]
  rw [ends_bind (waitStartBlock_stable 1 s) (fun start => mmcReadNew_stable 18 start.2)]
  simp only [mmcReadNew_ends (by omega : 0 < 18), waitStartBlock_ends, endsWait_ignoring]
  constructor
  · rintro ⟨_, ⟨m, hfirst, rfl⟩, hsends⟩
    exact ⟨m, hfirst, hsends⟩
  · rintro ⟨m, hfirst, hsends⟩
    exact ⟨_, ⟨m, hfirst, rfl⟩, hsends⟩

theorem mmcReadCsd_eq (fuel : Nat) (card : MmcCard) (s : σ) :
    mmcReadCsd dev fuel card s =
      (readRegister dev fuel (mmcSendCmd dev mmcCmd09 0 s)).map fun buf =>
        ((decodeCsd buf.1 card).1, (decodeCsd buf.1 card).2, buf.2) := by
  rw [mmcReadCsd, readRegister, Option.map_bind]
  rfl

theorem mmcReadCid_eq (fuel : Nat) (card : MmcCard) (s : σ) :
    mmcReadCid dev fuel card s =
      (readRegister dev fuel (mmcSendCmd dev mmcCmd10 0 s)).map fun buf =>
        ((decodeCid buf.1 card).1, (decodeCid buf.1 card).2, buf.2) := by
  rw [mmcReadCid, readRegister, Option.map_bind]
  rfl

/-- The CSD stage fails exactly on a register that is not accepted. -/
theorem decodeCsd_error (bytes : Nat → UInt8) (card : MmcCard) :
    (decodeCsd bytes card).1 = mmcError ↔ ¬ CsdAccepted bytes := by
  have hne : mmcOk ≠ mmcError := by decide
  have hcases : ∀ x : UInt8, x ≤ 1 ↔ x = 0 ∨ x = 1 := by
    intro x
    rw [UInt8.le_iff_toNat_le, ← UInt8.toNat_inj, ← UInt8.toNat_inj]
    change x.toNat ≤ 1 ↔ x.toNat = 0 ∨ x.toNat = 1
    omega
  rw [decodeCsd, CsdAccepted]
  by_cases hvalid : registerValid bytes
  · rw [if_neg (not_not.mpr hvalid)]
    simp only [hvalid, true_and]
    by_cases hsd : unstuffBits (wordAt (swapRegister bytes)) 122 4 = 0
    · have hlayout : (decodeBlockSizes (wordAt (swapRegister bytes)) card).csd.cStructure =
          (unstuffBits (wordAt (swapRegister bytes)) 126 2).toUInt8 := rfl
      simp only [hsd, if_true, sdDecodeCsd, hlayout, forall_const, hcases]
      split_ifs with hzero hone
      · simp [hne, hzero]
      · simp [hne, hone]
      · simp [hzero, hone]
    · simp only [hsd, if_false, mmcDecodeCsd, hne, false_iff, not_not]
      exact False.elim
  · simp [hvalid]

theorem mmcReadCsd_stable (card : MmcCard) (s : σ) :
    Stable (fun fuel => mmcReadCsd dev fuel card s) := by
  simp only [mmcReadCsd_eq]
  exact (readRegister_stable _).map _

theorem mmcReadCid_stable (card : MmcCard) (s : σ) :
    Stable (fun fuel => mmcReadCid dev fuel card s) := by
  simp only [mmcReadCid_eq]
  exact (readRegister_stable _).map _

/-- `mmc_get_info` as its four stages. -/
theorem mmcGetInfo_stable (card : MmcCard) (s : σ) :
    Stable (fun fuel => mmcGetInfo dev fuel card s) := by
  apply (mmcReadNew_stable 5 _).bind
  intro buf
  apply Stable.ite
  · exact stable_const _
  · apply Stable.ite
    · exact stable_const _
    · apply (mmcReadCsd_stable _ _).bind
      intro csd
      apply Stable.ite
      · exact stable_const _
      · exact (mmcReadCid_stable _ _).map _

theorem mmcReadCid_returns (card : MmcCard) (s : σ) :
    Returns (fun fuel => mmcReadCid dev fuel card s) ↔
      ∃ cid t, SendsRegister dev (mmcSendCmd dev mmcCmd10 0 s) cid t := by
  simp only [mmcReadCid_eq]
  rw [returns_map]
  simp only [Returns, readRegister_ends, Prod.exists]

/-- The registers, from the CSD command on. -/
theorem registers_return (card : MmcCard) (s : σ) {α : Type*} (failed : Int32 × MmcCard × σ → α)
    (read : Int32 × MmcCard × σ → α) :
    Returns (fun fuel => (mmcReadCsd dev fuel card s).bind fun csd =>
        if csd.1 = mmcError then some (failed csd)
        else (mmcReadCid dev fuel csd.2.1 csd.2.2).map read) ↔
      ∃ csd t, SendsRegister dev (mmcSendCmd dev mmcCmd09 0 s) csd t ∧
        (¬ CsdAccepted csd ∨
          ∃ cid u, SendsRegister dev (mmcSendCmd dev mmcCmd10 0 t) cid u) := by
  rw [returns_bind (mmcReadCsd_stable _ _)
    (fun csd => (stable_const _).ite _ ((mmcReadCid_stable _ _).map _))]
  simp only [mmcReadCsd_eq, ends_map, readRegister_ends]
  have hafter : ∀ csd t, Returns (fun fuel =>
      if (decodeCsd csd card).1 = mmcError then
        some (failed ((decodeCsd csd card).1, (decodeCsd csd card).2, t))
      else (mmcReadCid dev fuel (decodeCsd csd card).2 t).map read) ↔
        (¬ CsdAccepted csd ∨
          ∃ cid u, SendsRegister dev (mmcSendCmd dev mmcCmd10 0 t) cid u) := by
    intro csd t
    rw [← decodeCsd_error csd card]
    by_cases herror : (decodeCsd csd card).1 = mmcError
    · simp [herror]
    · simp only [herror, if_false, false_or]
      rw [returns_map, mmcReadCid_returns]
  constructor
  · rintro ⟨_, ⟨⟨csd, t⟩, hsends, rfl⟩, hrest⟩
    exact ⟨csd, t, hsends, (hafter csd t).mp hrest⟩
  · rintro ⟨csd, t, hsends, hrest⟩
    exact ⟨_, ⟨⟨csd, t⟩, hsends, rfl⟩, (hafter csd t).mpr hrest⟩

theorem mmcGetInfo_returns (card : MmcCard) (s : σ) :
    Returns (fun fuel => mmcGetInfo dev fuel card s) ↔ InfoEnds dev s := by
  simp only [mmcGetInfo]
  rw [returns_bind (mmcReadNew_stable 5 _) (fun buf => (stable_const _).ite _
    ((stable_const _).ite _ ((mmcReadCsd_stable _ _).bind
      (fun csd => (stable_const _).ite _ ((mmcReadCid_stable _ _).map _)))))]
  simp only [mmcReadNew_ends (by omega : 0 < 5), InfoEnds, Prod.exists]
  constructor
  · rintro ⟨ocr, t, hsends, hrest⟩
    refine ⟨ocr, t, hsends, ?_⟩
    rw [returns_ite] at hrest
    split at hrest
    · rename_i hstatus
      exact .inl hstatus
    · rw [returns_ite] at hrest
      split at hrest
      · rename_i hpower
        exact .inr (.inl hpower)
      · exact .inr (.inr ((registers_return _ t _ _).mp hrest))
  · rintro ⟨ocr, t, hsends, hrest⟩
    refine ⟨ocr, t, hsends, ?_⟩
    rw [returns_ite]
    split
    · exact returns_some _
    · rename_i hstatus
      rw [returns_ite]
      split
      · exact returns_some _
      · rename_i hpower
        exact (registers_return _ t _ _).mpr ((hrest.resolve_left hstatus).resolve_left hpower)

/-- More turns and longer polls change nothing. -/
theorem untilReady_le (command : σ → σ) {fuel fuel' turns turns' : Nat} {s t : σ}
    (hfuel : fuel ≤ fuel') (hturns : turns ≤ turns')
    (h : untilReady dev command fuel turns s = some t) :
    untilReady dev command fuel' turns' s = some t := by
  induction turns generalizing s turns' with
  | zero => cases h
  | succ turns ih =>
      obtain ⟨more, rfl⟩ := Nat.exists_eq_add_of_lt hturns
      rw [untilReady] at h ⊢
      obtain ⟨buf, hread, hrest⟩ := Option.bind_eq_some_iff.mp h
      have hread' := mmcReadNew_stable 1 (command s) fuel fuel' buf hfuel hread
      simp only at hread'
      rw [hread', Option.bind_some]
      split at hrest
      · rename_i hbusy
        rw [if_pos hbusy]
        exact ih (by omega) hrest
      · rename_i hready
        rw [if_neg hready]
        exact hrest

theorem untilReady_stable (command : σ → σ) (s : σ) :
    Stable (fun fuel => untilReady dev command fuel fuel s) := by
  intro fuel fuel' t hle h
  exact untilReady_le command hle hle h

theorem untilReady_ends (command : σ → σ) {t : σ} :
    Ends (fun fuel => untilReady dev command fuel fuel s) t ↔ LeavesIdle dev command s t := by
  constructor
  · rintro ⟨fuel, h⟩
    simp only at h
    have hturns : ∀ turns s, untilReady dev command fuel turns s = some t →
        LeavesIdle dev command s t := by
      intro turns
      induction turns with
      | zero => exact nofun
      | succ turns ih =>
          intro s h
          rw [untilReady] at h
          obtain ⟨buf, hread, hrest⟩ := Option.bind_eq_some_iff.mp h
          have hsends := (mmcReadNew_ends Nat.one_pos).mp ⟨fuel, hread⟩
          split at hrest
          · rename_i hbusy
            exact .again hsends hbusy (ih _ hrest)
          · rename_i hready
            obtain rfl := Option.some.inj hrest
            exact .ready hsends (not_not.mp hready)
    exact hturns fuel s h
  · intro h
    induction h with
    | @ready s t buf hsends hzero =>
        obtain ⟨fuel, hread⟩ := (mmcReadNew_ends (r := (buf, t)) Nat.one_pos).mpr hsends
        have hread' := (mmcReadNew_stable 1 (command s)).comp_le hread 1
        refine ⟨fuel + 1, ?_⟩
        simp only [untilReady, hread', Option.bind_some, hzero, ne_eq, not_true, if_false]
    | @again s t u buf hsends hnonzero _ ih =>
        obtain ⟨fuel, hread⟩ := (mmcReadNew_ends (r := (buf, t)) Nat.one_pos).mpr hsends
        obtain ⟨more, hrest⟩ := ih
        have hread' := (mmcReadNew_stable 1 (command s)).comp_le hread (more + 1)
        have hrest' := untilReady_le command (by omega : more ≤ fuel + (more + 1))
          (by omega : more ≤ fuel + more) hrest
        refine ⟨fuel + (more + 1), ?_⟩
        simp only [← Nat.add_assoc, untilReady] at hread' hrest' ⊢
        rw [hread', Option.bind_some, if_pos hnonzero]
        exact hrest'

/-- The end of `mmc_init`, for either version of the card. -/
theorem readied_returns (command : σ → σ) (card : MmcCard) (s : σ) :
    Returns (fun fuel => (untilReady dev command fuel fuel s).bind fun t =>
        mmcGetInfo dev fuel card t) ↔
      ∃ t, LeavesIdle dev command s t ∧ InfoEnds dev t := by
  rw [returns_bind (untilReady_stable _ _) (fun _ => mmcGetInfo_stable _ _)]
  simp only [untilReady_ends, mmcGetInfo_returns]

theorem mmcInit_returns (card : MmcCard) (s : σ) :
    Returns (fun fuel => mmcInit dev fuel card s) ↔ InitEnds dev s := by
  simp only [mmcInit]
  rw [returns_bind (mmcReadNew_stable 5 _) (fun buf =>
    ((untilReady_stable _ _).bind (fun _ => mmcGetInfo_stable _ _)).ite _
      ((untilReady_stable _ _).bind (fun _ => mmcGetInfo_stable _ _)))]
  simp only [mmcReadNew_ends (by omega : 0 < 5), InitEnds, Prod.exists, returns_ite,
    readied_returns, retriedCommand, exists_and_left]
  refine exists_congr fun r7 => exists_congr fun t => and_congr_right fun _ => ?_
  split
  · rfl
  · rfl

/-- The wait for the idle state takes the first `0x01` of its reads. -/
theorem idleLoop_found {left i : Nat} (hi : i < left) (h : FirstByte dev (· = 0x01) s i) :
    idleLoop dev left s = (mmcOk, afterReads dev (i + 1) s) := by
  induction left generalizing i s with
  | zero => omega
  | succ left ih =>
      rw [idleLoop]
      cases i with
      | zero =>
          rw [mmcReadByte, if_pos (firstByte_zero.mp h)]
          rfl
      | succ i =>
          obtain ⟨hother, hrest⟩ := firstByte_succ.mp h
          rw [mmcReadByte, if_neg hother]
          exact ih (by omega) hrest

theorem idleLoop_timeout {left : Nat} (h : ∀ i, i < left → byteAt dev s i ≠ 0x01) :
    (idleLoop dev left s).1 = mmcError := by
  induction left generalizing s with
  | zero => rfl
  | succ left ih =>
      have hother : (usicSpiReceive dev s).1 ≠ 0x01 := h 0 (Nat.succ_pos left)
      rw [idleLoop, mmcReadByte, if_neg hother]
      exact ih (fun i hi => h (i + 1) (by omega))

/-- What follows the reset in `mmc_spi_open`. -/
theorem reset_returns (s : σ) (card : MmcCard) {α : Type*} (failed : σ → α)
    (opened : Int32 × MmcCard × σ → α) :
    Returns (fun fuel =>
        if (idleLoop dev (mmcTimeout + 1) s).1 = mmcError then
          some (failed (idleLoop dev (mmcTimeout + 1) s).2)
        else (mmcInit dev fuel card (idleLoop dev (mmcTimeout + 1) s).2).map opened) ↔
      ResetEnds dev s := by
  have hne : ¬ mmcOk = mmcError := by decide
  rw [returns_ite, returns_map, mmcInit_returns, ResetEnds]
  by_cases hidle : ∃ i, i ≤ mmcTimeout ∧ byteAt dev s i = 0x01
  · obtain ⟨n, hn, hbyte⟩ := hidle
    obtain ⟨i, hle, hfirst⟩ := exists_firstByte (p := (· = 0x01)) hbyte
    rw [idleLoop_found (by omega : i < mmcTimeout + 1) hfirst, if_neg hne]
    constructor
    · intro hinit
      exact .inr ⟨i, by omega, hfirst, hinit⟩
    · rintro (hnone | ⟨j, _, hj, hinit⟩)
      · exact absurd hbyte (hnone n hn)
      · rwa [hfirst.unique hj]
  · have hnone : ∀ i, i ≤ mmcTimeout → byteAt dev s i ≠ 0x01 :=
      fun i hi hbyte => hidle ⟨i, hi, hbyte⟩
    rw [if_pos (idleLoop_timeout (fun i hi => hnone i (by omega)))]
    exact ⟨fun _ => .inl hnone, fun _ => returns_some _⟩

theorem mmcSpiOpen_returns (select : SpiSelect σ) (card : MmcCard) (s : σ) :
    Returns (fun fuel => mmcSpiOpen dev select fuel (some card) s) ↔
      OpenEnds dev select card s :=
  reset_returns _ { card with flags := 0 } (openFails dev { card with flags := 0 }) _

/-- `mmc_spi_open` returns, and with which values it can. -/
theorem mmcSpiOpen_ret {select : SpiSelect σ} {fuel : Nat} {data data' : Option MmcCard}
    {ret : Int32} {t : σ}
    (h : mmcSpiOpen dev select fuel data s = some (ret, data', t)) : ret = 0 ∨ ret = -1 := by
  cases data with
  | none =>
      rw [mmcSpiOpen, Option.some.injEq, Prod.mk.injEq] at h
      exact .inr h.1.symm
  | some card =>
      simp only [mmcSpiOpen] at h
      split at h
      · rw [openFails, Option.some.injEq, Prod.mk.injEq] at h
        exact .inr h.1.symm
      · obtain ⟨init, _, hret⟩ := Option.map_eq_some_iff.mp h
        split at hret
        · rw [openFails, Prod.mk.injEq] at hret
          exact .inr hret.1.symm
        · rw [Prod.mk.injEq] at hret
          exact .inl hret.1.symm

end Stages

section Open

variable {σ : Type*}

/-- `mmc_spi_open` returns after finitely many reads, with 0 or -1, exactly on
the cards that do not answer the reset in time or answer every poll. -/
theorem mmc_open_returns_iff (dev : SpiDevice σ) (select : SpiSelect σ)
    (data : Option MmcCard) (s : σ) :
    (∃ fuel ret data' t, mmcSpiOpen dev select fuel data s = some (ret, data', t) ∧
        (ret = 0 ∨ ret = -1)) ↔
      ∀ card, data = some card → OpenEnds dev select card s := by
  have hreturns : (∃ fuel ret data' t,
      mmcSpiOpen dev select fuel data s = some (ret, data', t) ∧ (ret = 0 ∨ ret = -1)) ↔
        Returns (fun fuel => mmcSpiOpen dev select fuel data s) := by
    constructor
    · rintro ⟨fuel, ret, data', t, h, _⟩
      exact ⟨_, fuel, h⟩
    · rintro ⟨⟨ret, data', t⟩, fuel, h⟩
      exact ⟨fuel, ret, data', t, h, mmcSpiOpen_ret h⟩
  rw [hreturns]
  cases data with
  | none => simp [mmcSpiOpen]
  | some card => simp [mmcSpiOpen_returns]

end Open

section Silent

/-- A slave select line that a stream does not notice. -/
def streamSelect : SpiSelect Nat where
  enable _ s := s
  disable s := s

/-- The answer to the reset (16 bytes are clocked before it), and then silence. -/
def silentAfterReset (n : Nat) : UInt8 :=
  if n = 16 then 0x01 else 0xFF

/-- A card that answers CMD0 and goes silent: `mmc_spi_open` never returns. -/
theorem mmc_open_hangs :
    ¬ ∃ fuel ret data n, mmcSpiOpen (streamDevice silentAfterReset) streamSelect fuel
      (some MmcCard.zero) 0 = some (ret, data, n) := by
  rintro ⟨fuel, ret, data, n, h⟩
  have hends := (mmcSpiOpen_returns _ _ _).mp ⟨_, fuel, h⟩
  have hstream := streamDevice_streams silentAfterReset
  have hstart : mmcSend (streamDevice silentAfterReset) (arrayOf [0x40, 0, 0, 0, 0, 0x95]) 6
      (wokenCard (streamDevice silentAfterReset) streamSelect MmcCard.zero 0) = 16 := by
    exact hstream.mmcSend _ 6 _
  rw [OpenEnds, hstart] at hends
  rcases hends with hnone | ⟨i, _, _, hinit⟩
  · exact hnone 0 (Nat.zero_le _) rfl
  · obtain ⟨r7, t, u, ⟨m, hfirst, _⟩, _⟩ := hinit
    -- every byte behind the answer to the reset is `0xFF`
    apply hfirst.1
    rw [hstream.byteAt, hstream.mmcSendCmd, hstream.mmcSend, hstream.afterReads,
      silentAfterReset, if_neg (by omega)]

/-- What a card sends while it is opened: `0xFF` under each command, and the
answers to the reset, CMD8, ACMD41, CMD58, CMD9 and CMD10. -/
def openingBytes (ocr csd cid : List UInt8) (n : Nat) : UInt8 :=
  let command (len : Nat) := List.replicate len (0xFF : UInt8)
  (command 16 ++ [0x01] ++ command 9 ++ [0x01, 0x00, 0x00, 0x01, 0xAA] ++ command 17 ++ [0x00] ++
    command 7 ++ [0x00] ++ ocr ++ command 7 ++ [0xFE] ++ csd ++ command 2 ++
    command 7 ++ [0xFE] ++ cid ++ command 2).getD n 0xFF

def sampleCid : List UInt8 :=
  [0x03, 0x53, 0x44, 0x53, 0x55, 0x30, 0x32, 0x47, 0x80, 0x01, 0x02, 0x03, 0x04, 0x00, 0xE1, 77]

/-- A card of standard capacity with blocks of 512 bytes. -/
def standardBytes : Nat → UInt8 :=
  openingBytes [0x80, 0xFF, 0x80, 0x00]
    [0x00, 0x2E, 0x00, 0x32, 0x5B, 0x59, 0x83, 0xA9, 0xFF, 0xFF, 0xFF, 0x80, 0x0A, 0x40, 0x00, 151]
    sampleCid

/-- One of standard capacity with blocks of 1024 bytes. -/
def largeBlockBytes : Nat → UInt8 :=
  openingBytes [0x80, 0xFF, 0x80, 0x00]
    [0x00, 0x2E, 0x00, 0x32, 0x5B, 0x5A, 0x83, 0xA9, 0xFF, 0xFF, 0xFF, 0x80, 0x16, 0x80, 0x00, 145]
    sampleCid

/-- An SDHC card. -/
def sdhcBytes : Nat → UInt8 :=
  openingBytes [0xC0, 0xFF, 0x80, 0x00]
    [0x40, 0x0E, 0x00, 0x32, 0x5B, 0x59, 0x00, 0x00, 0x3B, 0x37, 0x7F, 0x80, 0x0A, 0x40, 0x00, 103]
    sampleCid

/-- `mmc_spi_open` of a card that sends `bytes`. -/
def openStream (bytes : Nat → UInt8) : Option (Int32 × Option MmcCard × Nat) :=
  mmcSpiOpen (streamDevice bytes) streamSelect 2 (some MmcCard.zero) 0

/-- An open that can be evaluated, and what it left. -/
theorem opens_of_any {x : Option (Int32 × Option MmcCard × Nat)} {ret : Int32}
    {P : MmcCard → Prop} [DecidablePred P]
    (h : x.any (fun r => r.1 == ret && r.2.1.any (fun card => decide (P card))) = true) :
    ∃ card n, x = some (ret, some card, n) ∧ P card := by
  obtain ⟨⟨ret', data, n⟩, hopen, hr⟩ := (Option.any_eq_true _ _).mp h
  rw [Bool.and_eq_true, beq_iff_eq] at hr
  obtain ⟨card, rfl, hcard⟩ := (Option.any_eq_true _ _).mp hr.2
  obtain rfl : ret' = ret := hr.1
  exact ⟨card, n, hopen, of_decide_eq_true hcard⟩

end Silent

end PascalScheduler
