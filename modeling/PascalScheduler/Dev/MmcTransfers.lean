import PascalScheduler.Dev.MmcPolling

/-!
The two transfers of the MMC driver, on any device, once a request has passed
the checks: which sector operations they consist of and what they answer. A
card that grants everything shows that an accepted request can get through.
-/

namespace PascalScheduler

open Fuel

variable {σ : Type*} {dev : SpiDevice σ} {s : σ} {info : MmcInfo} {offset : Int32} {uio : Uio}
  {junk : Nat → UInt8}

/-- A request that passes the checks. -/
structure Accepted (info : MmcInfo) (offset : Int32) (uio : Uio) (rw : UioRw) : Prop where
  direction : uio.rw = rw
  divides : info.readBlockSize ≠ 0
  inside : ¬ crossesSector info offset uio

/-- A request that does not. With a block size of zero the check of the range is
never made. -/
def Refused (info : MmcInfo) (offset : Int32) (uio : Uio) (rw : UioRw) : Prop :=
  uio.rw ≠ rw ∨ info.readBlockSize ≠ 0 ∧ crossesSector info offset uio

def sectorOf (info : MmcInfo) (offset : Int32) : Int32 :=
  (offset.toUInt32 / info.readBlockSize).toInt32

def placeOf (info : MmcInfo) (offset : Int32) : Nat :=
  (offset.toUInt32 % info.readBlockSize).toNat

/-- What a read makes of the sector it got, if the buffer held it. -/
def readResult (info : MmcInfo) (offset : Int32) (uio : Uio)
    (sector : Int32 × (Nat → UInt8) × σ) : Option (Int32 × Uio × σ) :=
  if sector.1 ≠ mmcOk then some (-1, uio, sector.2.2)
  else if maxBlockLength < info.readBlockSize.toNat then none
  else
    some (0, { drained uio with
      base := copyBytes sector.2.1 uio.count (placeOf info offset) 0 uio.base }, sector.2.2)

def writeResult (info : MmcInfo) (uio : Uio) (written : Int32 × σ) : Option (Int32 × Uio × σ) :=
  if written.1 ≠ mmcOk then some (-1, drained uio, written.2)
  else if maxBlockLength < info.writeBlockSize.toNat then none
  else some (0, drained uio, written.2)

/-- What comes out of a transfer is the state behind its last sector operation. -/
theorem readResult_state {sector : Int32 × (Nat → UInt8) × σ} {r : Int32 × Uio × σ}
    (h : readResult info offset uio sector = some r) : r.2.2 = sector.2.2 := by
  rw [readResult] at h
  split at h
  · rw [← Option.some.inj h]
  · split at h
    · cases h
    · rw [← Option.some.inj h]

theorem writeResult_state {written : Int32 × σ} {r : Int32 × Uio × σ}
    (h : writeResult info uio written = some r) : r.2.2 = written.2 := by
  rw [writeResult] at h
  split at h
  · rw [← Option.some.inj h]
  · split at h
    · cases h
    · rw [← Option.some.inj h]

/-- The buffer that a write sends: the sector with the request copied in. -/
def mergedSector (info : MmcInfo) (offset : Int32) (uio : Uio) (sector : Nat → UInt8) :
    Nat → UInt8 :=
  copyBytes uio.base uio.count 0 (placeOf info offset) sector

/-- An accepted read is a sector read and a copy. -/
theorem mmcSpiRead_accepted (h : Accepted info offset uio .read) (fuel : Nat) :
    mmcSpiRead dev fuel (some info) offset uio junk s =
      (mmcReadSector dev fuel info junk (sectorOf info offset) s).bind
        (readResult info offset uio) := by
  have hrw : ¬ uio.rw ≠ .read := not_not.mpr h.direction
  simp only [mmcSpiRead, if_neg hrw, if_neg h.divides, if_neg h.inside]
  rfl

/-- An accepted write is a sector read, a copy and a sector write. -/
theorem mmcSpiWrite_accepted (h : Accepted info offset uio .write) (fuel : Nat) :
    mmcSpiWrite dev fuel (some info) offset uio junk s =
      (mmcReadSector dev fuel info junk (sectorOf info offset) s).bind fun sector =>
        if sector.1 ≠ mmcOk then some (-1, uio, sector.2.2)
        else if maxBlockLength < info.readBlockSize.toNat then none
        else
          (mmcWriteSector dev fuel info (mergedSector info offset uio sector.2.1)
            (sectorOf info offset) sector.2.2).bind (writeResult info uio) := by
  have hrw : ¬ uio.rw ≠ .write := not_not.mpr h.direction
  simp only [mmcSpiWrite, if_neg hrw, if_neg h.divides, if_neg h.inside]
  rfl

theorem request_cases (info : MmcInfo) (offset : Int32) (uio : Uio) (rw : UioRw) :
    Accepted info offset uio rw ∨ Refused info offset uio rw ∨
      (uio.rw = rw ∧ info.readBlockSize = 0) := by
  by_cases hrw : uio.rw = rw
  · by_cases hzero : info.readBlockSize = 0
    · exact .inr (.inr ⟨hrw, hzero⟩)
    · by_cases hcrosses : crossesSector info offset uio
      · exact .inr (.inl (.inr ⟨hzero, hcrosses⟩))
      · exact .inl ⟨hrw, hzero, hcrosses⟩
  · exact .inr (.inl (.inl hrw))

/-- A refused request leaves the device alone. -/
theorem mmcSpiRead_refused (h : Refused info offset uio .read) (fuel : Nat) :
    mmcSpiRead dev fuel (some info) offset uio junk s = some (-1, uio, s) := by
  rw [mmcSpiRead]
  by_cases hrw : uio.rw = .read
  · obtain ⟨hsize, hcrosses⟩ := h.resolve_left (not_not.mpr hrw)
    simp only [hrw, ne_eq, not_true_eq_false, if_false, if_neg hsize, if_pos hcrosses]
  · rw [if_pos hrw]

theorem mmcSpiWrite_refused (h : Refused info offset uio .write) (fuel : Nat) :
    mmcSpiWrite dev fuel (some info) offset uio junk s = some (-1, uio, s) := by
  rw [mmcSpiWrite]
  by_cases hrw : uio.rw = .write
  · obtain ⟨hsize, hcrosses⟩ := h.resolve_left (not_not.mpr hrw)
    simp only [hrw, ne_eq, not_true_eq_false, if_false, if_neg hsize, if_pos hcrosses]
  · rw [if_pos hrw]

theorem mmcSpiRead_divides (hrw : uio.rw = .read) (hzero : info.readBlockSize = 0) (fuel : Nat) :
    mmcSpiRead dev fuel (some info) offset uio junk s = none := by
  simp only [mmcSpiRead, hrw, ne_eq, not_true_eq_false, if_false, if_pos hzero]

theorem mmcSpiWrite_divides (hrw : uio.rw = .write) (hzero : info.readBlockSize = 0) (fuel : Nat) :
    mmcSpiWrite dev fuel (some info) offset uio junk s = none := by
  simp only [mmcSpiWrite, hrw, ne_eq, not_true_eq_false, if_false, if_pos hzero]

theorem mmcSpiRead_stable (data : Option MmcInfo) (offset : Int32) (uio : Uio)
    (junk : Nat → UInt8) (s : σ) :
    Stable (fun fuel => mmcSpiRead dev fuel data offset uio junk s) := by
  cases data with
  | none => exact stable_const _
  | some info =>
      rcases request_cases info offset uio .read with h | h | ⟨hrw, hzero⟩
      · simp only [mmcSpiRead_accepted h]
        exact (mmcReadSector_stable _ _ _ _).bind fun _ => stable_const _
      · simp only [mmcSpiRead_refused h]
        exact stable_const _
      · simp only [mmcSpiRead_divides hrw hzero]
        exact stable_const _

/-- An accepted write behind the reading of its sector. -/
theorem acceptedWrite_stable (info : MmcInfo) (offset : Int32) (uio : Uio)
    (sector : Int32 × (Nat → UInt8) × σ) :
    Stable (fun fuel =>
      if sector.1 ≠ mmcOk then some (-1, uio, sector.2.2)
      else if maxBlockLength < info.readBlockSize.toNat then none
      else
        (mmcWriteSector dev fuel info (mergedSector info offset uio sector.2.1)
          (sectorOf info offset) sector.2.2).bind (writeResult info uio)) :=
  (stable_const _).ite _ ((stable_const _).ite _
    ((mmcWriteSector_stable _ _ _ _).bind fun _ => stable_const _))

theorem mmcSpiWrite_stable (data : Option MmcInfo) (offset : Int32) (uio : Uio)
    (junk : Nat → UInt8) (s : σ) :
    Stable (fun fuel => mmcSpiWrite dev fuel data offset uio junk s) := by
  cases data with
  | none => exact stable_const _
  | some info =>
      rcases request_cases info offset uio .write with h | h | ⟨hrw, hzero⟩
      · simp only [mmcSpiWrite_accepted h]
        exact (mmcReadSector_stable _ _ _ _).bind fun _ => acceptedWrite_stable _ _ _ _
      · simp only [mmcSpiWrite_refused h]
        exact stable_const _
      · simp only [mmcSpiWrite_divides hrw hzero]
        exact stable_const _

section Granting

variable {pos : σ → Nat}

/-- Status zero at once, then the start token, then zeros: from the start of a
command on, a sector read and a sector write behind it get through. -/
def grantingBytes (n : Nat) : UInt8 :=
  if n = 8 then 0xFE else 0

theorem firstByte_of_stream {bytes : Nat → UInt8} (h : Streams dev bytes pos)
    {p : UInt8 → Prop} (hp : p (bytes (pos s))) : FirstByte dev p s 0 := by
  refine ⟨?_, nofun⟩
  rw [h.byteAt, Nat.add_zero]
  exact hp

theorem granting_readSector (h : Streams dev grantingBytes pos) (hstart : pos s = 0)
    (buf : Nat → UInt8) (sector : Int32) :
    ∃ fuel block t, mmcReadSector dev fuel info buf sector s = some (mmcOk, block, t) ∧
      9 ≤ pos t := by
  let s₀ := mmcSendCmd dev mmcCmd17 (sector.toUInt32 * info.readBlockSize) s
  have hcmd : pos s₀ = 7 := by
    rw [h.mmcSendCmd, hstart]
  have hwait : pos (afterReads dev 1 s₀) = 8 := by rw [h.afterReads, hcmd]
  have hblock : pos (afterReads dev 2 s₀) = 9 := by rw [h.afterReads, hcmd]
  have hgrants : GrantsRead dev s₀ 0 0 0 := by
    refine ⟨firstByte_of_stream h ?_, ?_, firstByte_of_stream h ?_, ?_, firstByte_of_stream h ?_⟩
    · rw [hcmd]
      decide
    · rw [h.byteAt, hcmd]
      rfl
    · rw [hwait]
      exact .inl rfl
    · rw [h.byteAt, hwait]
      rfl
    · rw [hblock]
      decide
  obtain ⟨⟨fuel, hread⟩, _⟩ := mmcReadSector_ok.mpr ⟨0, 0, 0, hgrants, rfl⟩
  refine ⟨fuel, _, _, hread, ?_⟩
  simp only [devRead_eq, h.afterReads]
  change 9 ≤ pos s₀ + _ + _
  omega

theorem granting_writeSector (h : Streams dev grantingBytes pos) (hstart : 9 ≤ pos s)
    (buf : Nat → UInt8) (sector : Int32) :
    ∃ fuel t, mmcWriteSector dev fuel info buf sector s = some (mmcOk, t) := by
  let s₀ := mmcSendCmd dev mmcCmd24 (sector.toUInt32 * info.writeBlockSize) s
  have hcmd : grantingBytes (pos s₀) = 0 := by
    rw [h.mmcSendCmd, grantingBytes, if_neg (by omega)]
  have hfirst : FirstByte dev (· ≠ 0xFF) s₀ 0 := by
    apply firstByte_of_stream h
    rw [hcmd]
    decide
  have hstatus : ¬ byteAt dev s₀ 0 ≠ 0 := by
    rw [h.byteAt, Nat.add_zero, hcmd]
    decide
  obtain ⟨fuel, hwrite⟩ := mmcWriteSector_ends.mpr ⟨0, hfirst, rfl⟩
  rw [if_neg hstatus] at hwrite
  exact ⟨fuel, _, hwrite⟩

/-- On such a card an accepted write of blocks that the buffer holds gets
through. -/
theorem granting_write (h : Streams dev grantingBytes pos) (hstart : pos s = 0)
    (junk : Nat → UInt8) (haccepted : Accepted info offset uio .write)
    (hread : info.readBlockSize.toNat ≤ maxBlockLength)
    (hwrite : info.writeBlockSize.toNat ≤ maxBlockLength) :
    ∃ fuel r, mmcSpiWrite dev fuel (some info) offset uio junk s = some r ∧ r.1 = 0 := by
  obtain ⟨fuel, block, t, hsector, hpos⟩ := granting_readSector (s := s) h hstart junk
    (sectorOf info offset)
  obtain ⟨more, u, hwritten⟩ := granting_writeSector h hpos
    (mergedSector info offset uio block) (sectorOf info offset)
  have hends : Ends (fun fuel => mmcSpiWrite dev fuel (some info) offset uio junk s)
      (0, drained uio, u) := by
    simp only [mmcSpiWrite_accepted haccepted]
    rw [ends_bind (mmcReadSector_stable _ _ _ _) (fun _ => acceptedWrite_stable _ _ _ _)]
    refine ⟨_, ⟨fuel, hsector⟩, ?_⟩
    simp only [ne_eq, not_true_eq_false, if_false, if_neg (Nat.not_lt.mpr hread)]
    refine ends_bind_const.mpr ⟨_, ⟨more, hwritten⟩, ?_⟩
    exact (if_neg (not_not.mpr rfl)).trans (if_neg (Nat.not_lt.mpr hwrite))
  obtain ⟨enough, hdone⟩ := hends
  exact ⟨enough, _, hdone, rfl⟩

end Granting

/-- A card that refuses everything with a status of one: an accepted read
returns. -/
theorem refusing_read {pos : σ → Nat} (h : Streams dev (fun _ => 1) pos) (junk : Nat → UInt8)
    (haccepted : Accepted info offset uio .read) (s : σ) :
    ∃ fuel r, mmcSpiRead dev fuel (some info) offset uio junk s = some r := by
  have hone : ∀ t, pollByte dev 1 t = some (1, (usicSpiReceive dev t).2) := by
    intro t
    have hbyte : mmcReadByte dev t = (1, (usicSpiReceive dev t).2) :=
      Prod.ext (h.answer _ _) rfl
    have hanswer : ¬ (1 : UInt8) = 0xFF := by decide
    rw [pollByte, hbyte]
    exact if_neg hanswer
  have hstatus : (1 : UInt8) ≠ 0 := by decide
  have hfailed : mmcError ≠ mmcOk := by decide
  have hsector : ∃ t, mmcReadSector dev 1 info junk (sectorOf info offset) s =
      some (mmcError, junk, t) := by
    rw [mmcReadSector, mmcSpiReadStatus, hone, Option.bind_some]
    exact ⟨_, if_pos hstatus⟩
  obtain ⟨t, hsector⟩ := hsector
  refine ⟨1, (-1, uio, t), ?_⟩
  rw [mmcSpiRead_accepted haccepted, hsector, Option.bind_some]
  exact if_pos hfailed

end PascalScheduler
