import PascalScheduler.Dev.MmcOpenEnds
import PascalScheduler.Dev.MmcStore
import PascalScheduler.Dev.MmcTransfers
import PascalScheduler.Library.Trace

/-!
The sector buffer of the MMC driver, 512 bytes on the stack. The transfers are
written out a second time with a record of every access to the buffer, as if it
had no end; with a check of each access they are the transfers of `Dev/Mmc`.
-/

namespace PascalScheduler

open Fuel

/-- An access to `buf[i]` : `mmc_read` stores a byte, a copying loop moves an
element of the request in or out, `mmc_send` sends a byte. -/
inductive BufAccess where
  | fill (i : Nat)
  | copyIn (element i : Nat)
  | copyOut (i element : Nat)
  | send (i : Nat)

def BufAccess.index : BufAccess → Nat
  | .fill i | .copyIn _ i | .copyOut i _ | .send i => i

def BufAccess.Inside (access : BufAccess) : Prop :=
  access.index < maxBlockLength

instance : DecidablePred BufAccess.Inside :=
  fun access => inferInstanceAs (Decidable (access.index < maxBlockLength))

section Traced

variable {σ : Type*} (dev : SpiDevice σ)

def devReadTraced : Nat → Nat → (Nat → UInt8) → σ → Trace BufAccess ((Nat → UInt8) × σ)
  | 0, _, buf, s => .pure (buf, s)
  | size + 1, i, buf, s =>
      let answer := usicSpiReceive dev s
      .step (.fill i) (devReadTraced size (i + 1) (Function.update buf i answer.1) answer.2)

def devWriteTraced (buf : Nat → UInt8) : Nat → Nat → σ → Trace BufAccess σ
  | 0, _, s => .pure s
  | size + 1, i, s =>
      .step (.send i) (devWriteTraced buf size (i + 1) (usicSpiSend dev (buf i) s))

/-- A copying loop; `access` says which side of it is the buffer. -/
def copyTraced (access : Nat → Nat → BufAccess) (src : Nat → UInt8) :
    Nat → Nat → Nat → (Nat → UInt8) → Trace BufAccess (Nat → UInt8)
  | 0, _, _, dst => .pure dst
  | n + 1, i, j, dst =>
      .step (access i j) (copyTraced access src n (i + 1) (j + 1) (Function.update dst j (src i)))

def mmcReadTraced (fuel : Nat) (buf : Nat → UInt8) (size : Nat) (s : σ) :
    Trace BufAccess ((Nat → UInt8) × σ) :=
  (Trace.lift (mmcSpiWaitUnbusy dev fuel s)).bind fun first =>
    .step (.fill 0) (devReadTraced dev (size - 1) 1 (Function.update buf 0 first.1) first.2)

def mmcReadSectorTraced (fuel : Nat) (info : MmcInfo) (buf : Nat → UInt8) (sector : Int32)
    (s : σ) : Trace BufAccess (Int32 × (Nat → UInt8) × σ) :=
  let s := mmcSendCmd dev mmcCmd17 (sector.toUInt32 * info.readBlockSize) s
  (Trace.lift (mmcSpiReadStatus dev fuel s)).bind fun status =>
    if status.1 ≠ 0 then .pure (mmcError, buf, status.2)
    else
      (Trace.lift (mmcSpiWaitStartBlock dev 0 fuel status.2)).bind fun start =>
        if start.1 = mmcError then .pure (mmcError, buf, start.2)
        else
          (mmcReadTraced dev fuel buf info.readBlockSize.toNat start.2).map fun block =>
            (mmcOk, block.1, block.2)

def mmcWriteSectorTraced (fuel : Nat) (info : MmcInfo) (buf : Nat → UInt8) (sector : Int32)
    (s : σ) : Trace BufAccess (Int32 × σ) :=
  let s := mmcSendCmd dev mmcCmd24 (sector.toUInt32 * info.writeBlockSize) s
  (Trace.lift (mmcSpiReadStatus dev fuel s)).bind fun status =>
    if status.1 ≠ 0 then .pure (mmcError, status.2)
    else
      let s := mmcSend dev (arrayOf [0xFF, 0xFE]) 2 status.2
      (devWriteTraced dev buf info.writeBlockSize.toNat 0 s).map fun s => (mmcOk, s)

def mmcSpiWriteTraced (fuel : Nat) (data : Option MmcInfo) (offset : Int32) (uio : Uio)
    (junk : Nat → UInt8) (s : σ) : Trace BufAccess (Int32 × Uio × σ) :=
  match data with
  | none => .pure (-1, uio, s)
  | some info =>
      if uio.rw ≠ .write then .pure (-1, uio, s)
      else if info.readBlockSize = 0 then .lift none
      else
        let readSector := offset.toUInt32 / info.readBlockSize
        let readOffset := offset.toUInt32 % info.readBlockSize
        if crossesSector info offset uio then .pure (-1, uio, s)
        else
          (mmcReadSectorTraced dev fuel info junk readSector.toInt32 s).bind fun sector =>
            if sector.1 ≠ mmcOk then .pure (-1, uio, sector.2.2)
            else
              (copyTraced .copyIn uio.base uio.count 0 readOffset.toNat sector.2.1).bind fun buf =>
                (mmcWriteSectorTraced dev fuel info buf readSector.toInt32 sector.2.2).map
                  fun written =>
                    if written.1 ≠ mmcOk then (-1, drained uio, written.2)
                    else (0, drained uio, written.2)

def mmcSpiReadTraced (fuel : Nat) (data : Option MmcInfo) (offset : Int32) (uio : Uio)
    (junk : Nat → UInt8) (s : σ) : Trace BufAccess (Int32 × Uio × σ) :=
  match data with
  | none => .pure (-1, uio, s)
  | some info =>
      if uio.rw ≠ .read then .pure (-1, uio, s)
      else if info.readBlockSize = 0 then .lift none
      else
        let readSector := offset.toUInt32 / info.readBlockSize
        let readOffset := offset.toUInt32 % info.readBlockSize
        if crossesSector info offset uio then .pure (-1, uio, s)
        else
          (mmcReadSectorTraced dev fuel info junk readSector.toInt32 s).bind fun sector =>
            if sector.1 ≠ mmcOk then .pure (-1, uio, sector.2.2)
            else
              (copyTraced .copyOut sector.2.1 uio.count readOffset.toNat 0 uio.base).map
                fun base => (0, { drained uio with base := base }, sector.2.2)

end Traced

section Erasure

variable {σ : Type*} {dev : SpiDevice σ}

theorem devReadTraced_result (size i : Nat) (buf : Nat → UInt8) (s : σ) :
    (devReadTraced dev size i buf s).result = some (devRead dev size i buf s) := by
  induction size generalizing i buf s with
  | zero => rfl
  | succ size ih => exact ih _ _ _

theorem devWriteTraced_result (buf : Nat → UInt8) (size i : Nat) (s : σ) :
    (devWriteTraced dev buf size i s).result = some (devWrite dev buf size i s) := by
  induction size generalizing i s with
  | zero => rfl
  | succ size ih => exact ih _ _

theorem copyTraced_result (access : Nat → Nat → BufAccess) (src : Nat → UInt8) (n i j : Nat)
    (dst : Nat → UInt8) :
    (copyTraced access src n i j dst).result = some (copyBytes src n i j dst) := by
  induction n generalizing i j dst with
  | zero => rfl
  | succ n ih => exact ih _ _ _

theorem mmcReadTraced_result (fuel : Nat) (buf : Nat → UInt8) (size : Nat) (s : σ) :
    (mmcReadTraced dev fuel buf size s).result = mmcRead dev fuel buf size s := by
  simp only [mmcReadTraced, mmcRead, Trace.result_bind, Trace.result_lift, Trace.result_step,
    devReadTraced_result, Option.map_eq_bind]
  rfl

theorem mmcReadSectorTraced_result (fuel : Nat) (info : MmcInfo) (buf : Nat → UInt8)
    (sector : Int32) (s : σ) :
    (mmcReadSectorTraced dev fuel info buf sector s).result =
      mmcReadSector dev fuel info buf sector s := by
  simp only [mmcReadSectorTraced, mmcReadSector, Trace.result_bind, Trace.result_lift, apply_ite
    Trace.result, Trace.result_pure, Trace.result_map, mmcReadTraced_result]

theorem mmcWriteSectorTraced_result (fuel : Nat) (info : MmcInfo) (buf : Nat → UInt8)
    (sector : Int32) (s : σ) :
    (mmcWriteSectorTraced dev fuel info buf sector s).result =
      mmcWriteSector dev fuel info buf sector s := by
  simp only [mmcWriteSectorTraced, mmcWriteSector, Trace.result_bind, Trace.result_lift, apply_ite
    Trace.result, Trace.result_pure, Trace.result_map, devWriteTraced_result,
    Option.map_eq_bind]
  apply Option.bind_congr
  intro status _
  simp only [Function.comp_apply]
  split
  · rfl
  · rfl

end Erasure

section Events

variable {σ : Type*} {dev : SpiDevice σ} {fuel : Nat} {info : MmcInfo} {buf junk : Nat → UInt8}
  {sector offset : Int32} {uio : Uio} {s : σ}

theorem devReadTraced_events (size i : Nat) (buf : Nat → UInt8) (s : σ) :
    (devReadTraced dev size i buf s).events = (List.range' i size).map .fill := by
  induction size generalizing i buf s with
  | zero => rfl
  | succ size ih => simp [devReadTraced, ih, List.range'_succ]

theorem devWriteTraced_events (buf : Nat → UInt8) (size i : Nat) (s : σ) :
    (devWriteTraced dev buf size i s).events = (List.range' i size).map .send := by
  induction size generalizing i s with
  | zero => rfl
  | succ size ih => simp [devWriteTraced, ih, List.range'_succ]

/-- What a copying loop of `n` turns records. -/
def copies (access : Nat → Nat → BufAccess) (i j n : Nat) : List BufAccess :=
  (List.range n).map fun k => access (i + k) (j + k)

theorem copyTraced_events (access : Nat → Nat → BufAccess) (src : Nat → UInt8) (n i j : Nat)
    (dst : Nat → UInt8) : (copyTraced access src n i j dst).events = copies access i j n := by
  induction n generalizing i j dst with
  | zero => rfl
  | succ n ih =>
      rw [copyTraced, Trace.events_step, ih, copies, copies, List.range_succ_eq_map,
        List.map_cons, List.map_map]
      congr 1
      apply List.map_congr_left
      intro k _
      simp only [Function.comp_apply, Nat.succ_eq_add_one, Nat.add_assoc, Nat.add_comm 1 k]

/-- The accesses of a filled and of a sent buffer. `mmc_read` stores its first
byte whatever the size. -/
def fills (size : Nat) : List BufAccess :=
  .fill 0 :: (List.range' 1 (size - 1)).map .fill

def sends (size : Nat) : List BufAccess :=
  (List.range size).map .send

theorem last_mem_fills (size : Nat) : .fill (size - 1) ∈ fills size := by
  rcases Nat.eq_zero_or_pos (size - 1) with hone | hmore
  · rw [hone]
    exact List.mem_cons_self
  · apply List.mem_cons_of_mem
    exact List.mem_map.mpr ⟨size - 1, List.mem_range'_1.mpr (by omega), rfl⟩

theorem last_mem_sends {size : Nat} (h : 0 < size) : .send (size - 1) ∈ sends size :=
  List.mem_map.mpr ⟨size - 1, List.mem_range.mpr (by omega), rfl⟩

/-- The accesses of a filled buffer and of one that is sent. -/
theorem fills_inside (size : Nat) :
    (∀ e ∈ fills size, e.Inside) ↔ size ≤ maxBlockLength := by
  constructor
  · intro h
    have hlast := h _ (last_mem_fills size)
    rw [BufAccess.Inside, BufAccess.index] at hlast
    omega
  · intro hle e he
    rcases List.mem_cons.mp he with rfl | he
    · exact Nat.lt_of_lt_of_le Nat.zero_lt_one (by decide)
    · obtain ⟨i, hi, rfl⟩ := List.mem_map.mp he
      have hrange := List.mem_range'_1.mp hi
      rw [BufAccess.Inside, BufAccess.index]
      omega

theorem sends_inside (size : Nat) :
    (∀ e ∈ sends size, e.Inside) ↔ size ≤ maxBlockLength := by
  constructor
  · intro h
    by_contra hlarge
    have hlast := h _ (last_mem_sends (by omega : 0 < size))
    rw [BufAccess.Inside, BufAccess.index] at hlast
    omega
  · intro hle e he
    obtain ⟨i, hi, rfl⟩ := List.mem_map.mp he
    have hrange := List.mem_range.mp hi
    rw [BufAccess.Inside, BufAccess.index]
    omega

/-- A whole sector is filled, or nothing is touched. -/
theorem mmcReadSectorTraced_events {r : Int32 × (Nat → UInt8) × σ}
    (h : mmcReadSector dev fuel info buf sector s = some r) :
    (mmcReadSectorTraced dev fuel info buf sector s).events =
      if r.1 = mmcOk then fills info.readBlockSize.toNat else [] := by
  have hne : ¬ mmcError = mmcOk := by decide
  obtain ⟨status, hstatus, h⟩ := Option.bind_eq_some_iff.mp h
  rw [mmcReadSectorTraced, Trace.events_bind_some hstatus, Trace.events_lift, List.nil_append]
  split at h
  · rename_i hrefused
    rw [← Option.some.inj h, if_pos hrefused, if_neg hne, Trace.events_pure]
  · rename_i hzero
    rw [if_neg hzero]
    obtain ⟨start, hstart, h⟩ := Option.bind_eq_some_iff.mp h
    rw [Trace.events_bind_some hstart, Trace.events_lift, List.nil_append]
    split at h
    · rename_i herror
      rw [← Option.some.inj h, if_pos herror, if_neg hne, Trace.events_pure]
    · rename_i hfound
      obtain ⟨block, hblock, rfl⟩ := Option.map_eq_some_iff.mp h
      obtain ⟨first, hfirst, _⟩ := Option.map_eq_some_iff.mp hblock
      rw [if_neg hfound, if_pos rfl, Trace.events_map, mmcReadTraced,
        Trace.events_bind_some hfirst, Trace.events_lift, List.nil_append, Trace.events_step,
        devReadTraced_events, fills]

theorem mmcWriteSectorTraced_events {r : Int32 × σ}
    (h : mmcWriteSector dev fuel info buf sector s = some r) :
    (mmcWriteSectorTraced dev fuel info buf sector s).events =
      if r.1 = mmcOk then sends info.writeBlockSize.toNat else [] := by
  have hne : ¬ mmcError = mmcOk := by decide
  obtain ⟨status, hstatus, rfl⟩ := Option.map_eq_some_iff.mp h
  rw [mmcWriteSectorTraced, Trace.events_bind_some hstatus, Trace.events_lift, List.nil_append]
  by_cases hstatus : status.1 ≠ 0
  · simp only [if_pos hstatus, if_neg hne, Trace.events_pure]
  · simp only [if_neg hstatus, if_true, Trace.events_map, devWriteTraced_events, sends,
      List.range_eq_range']

/-- An operation that hangs has done nothing to the buffer yet. -/
theorem mmcReadSectorTraced_stuck (h : mmcReadSector dev fuel info buf sector s = none) :
    (mmcReadSectorTraced dev fuel info buf sector s).events = [] := by
  rw [mmcReadSector] at h
  rw [mmcReadSectorTraced]
  generalize mmcSendCmd dev mmcCmd17 (sector.toUInt32 * info.readBlockSize) s = s₀ at h ⊢
  cases hstatus : mmcSpiReadStatus dev fuel s₀ with
  | none => rfl
  | some status =>
      rw [hstatus, Option.bind_some] at h
      rw [Trace.lift_some_bind]
      split at h
      · cases h
      · rename_i hzero
        rw [if_neg hzero]
        cases hstart : mmcSpiWaitStartBlock dev 0 fuel status.2 with
        | none => rfl
        | some start =>
            rw [hstart, Option.bind_some] at h
            rw [Trace.lift_some_bind]
            split at h
            · cases h
            · rename_i hfound
              rw [if_neg hfound, Trace.events_map, mmcReadTraced]
              rw [Option.map_eq_none_iff, mmcRead, Option.map_eq_none_iff] at h
              rw [h]
              rfl

theorem mmcWriteSectorTraced_stuck (h : mmcWriteSector dev fuel info buf sector s = none) :
    (mmcWriteSectorTraced dev fuel info buf sector s).events = [] := by
  rw [mmcWriteSector, Option.map_eq_none_iff] at h
  rw [mmcWriteSectorTraced]
  dsimp only at h ⊢
  rw [h]
  rfl

end Events

section Bounds

variable {σ : Type*} {dev : SpiDevice σ} {fuel : Nat} {info : MmcInfo} {buf junk : Nat → UInt8}
  {sector offset : Int32} {uio : Uio} {s : σ} {bound : Nat}

theorem Accepted.read_pos {rw : UioRw} (h : Accepted info offset uio rw) :
    0 < info.readBlockSize.toNat := by
  apply Nat.pos_of_ne_zero
  intro hzero
  exact h.divides (UInt32.toNat_inj.mp hzero)

/-- An accepted request that moves anything lies inside the sector. -/
theorem Accepted.fits {rw : UioRw} (h : Accepted info offset uio rw)
    (hsmall : info.readBlockSize.toNat ≤ 2 ^ 15) (hcount : 0 < uio.count) :
    placeOf info offset + uio.count ≤ info.readBlockSize.toNat := by
  have hsize := h.read_pos
  have hresid : 0 ≤ uio.resid.toInt := by
    rw [Uio.count] at hcount
    omega
  have hnat : uio.resid.toUInt32.toNat = uio.count := offset_toNat hresid
  have hplace : placeOf info offset < info.readBlockSize.toNat := by
    rw [placeOf, UInt32.toNat_mod]
    exact Nat.mod_lt _ hsize
  have hlt : uio.count < 2 ^ 31 := by
    have hle := Int32.toInt_lt uio.resid
    rw [Uio.count]
    omega
  have hinside := h.inside
  rw [crossesSector, gt_iff_lt, UInt32.not_lt, UInt32.le_iff_toNat_le, UInt32.toNat_add, hnat]
    at hinside
  change (uio.count + placeOf info offset) % 2 ^ 32 ≤ _ at hinside
  rw [Nat.mod_eq_of_lt (by omega)] at hinside
  omega

theorem all_copies {access : Nat → Nat → BufAccess} {i j n : Nat}
    (h : ∀ k, k < n → (access (i + k) (j + k)).index < bound) (src dst : Nat → UInt8) :
    (copyTraced access src n i j dst).All (fun e => e.index < bound) := by
  intro e he
  rw [copyTraced_events] at he
  obtain ⟨k, hk, rfl⟩ := List.mem_map.mp he
  exact h k (List.mem_range.mp hk)

theorem all_mmcRead (fuel : Nat) {size : Nat} (hsize : 0 < size) (hbound : size ≤ bound)
    (buf : Nat → UInt8) (s : σ) :
    (mmcReadTraced dev fuel buf size s).All (fun e => e.index < bound) := by
  apply Trace.All.lift_bind
  intro first _
  apply Trace.All.step
  · exact Nat.lt_of_lt_of_le hsize hbound
  · intro e he
    rw [devReadTraced_events] at he
    obtain ⟨i, hi, rfl⟩ := List.mem_map.mp he
    have hrange := List.mem_range'_1.mp hi
    simp only [BufAccess.index]
    omega

/-- No access of a sector read lies beyond the block, also if it never ends. -/
theorem all_mmcReadSector (hsize : 0 < info.readBlockSize.toNat)
    (hbound : info.readBlockSize.toNat ≤ bound) :
    (mmcReadSectorTraced dev fuel info buf sector s).All (fun e => e.index < bound) := by
  apply Trace.All.lift_bind
  intro status _
  apply Trace.All.ite
  · exact fun _ => .pure _
  · intro _
    apply Trace.All.lift_bind
    intro start _
    apply Trace.All.ite
    · exact fun _ => .pure _
    · intro _
      exact (all_mmcRead fuel hsize hbound _ _).map _

theorem all_mmcWriteSector (hbound : info.writeBlockSize.toNat ≤ bound) :
    (mmcWriteSectorTraced dev fuel info buf sector s).All (fun e => e.index < bound) := by
  apply Trace.All.lift_bind
  intro status _
  apply Trace.All.ite
  · exact fun _ => .pure _
  · intro _
    apply Trace.All.map
    intro e he
    rw [devWriteTraced_events] at he
    obtain ⟨i, hi, rfl⟩ := List.mem_map.mp he
    have hrange := List.mem_range'_1.mp hi
    simp only [BufAccess.index]
    omega

end Bounds

section Transfers

variable {σ : Type*} {dev : SpiDevice σ} {fuel : Nat} {info : MmcInfo} {junk : Nat → UInt8}
  {offset : Int32} {uio : Uio} {s : σ} {bound : Nat}

/-- What a write ends with when the buffer has no end. -/
def writeAnswer (uio : Uio) (written : Int32 × σ) : Int32 × Uio × σ :=
  if written.1 ≠ mmcOk then (-1, drained uio, written.2) else (0, drained uio, written.2)

theorem mmcSpiReadTraced_accepted (h : Accepted info offset uio .read) (fuel : Nat) :
    mmcSpiReadTraced dev fuel (some info) offset uio junk s =
      (mmcReadSectorTraced dev fuel info junk (sectorOf info offset) s).bind fun sector =>
        if sector.1 ≠ mmcOk then .pure (-1, uio, sector.2.2)
        else
          (copyTraced .copyOut sector.2.1 uio.count (placeOf info offset) 0 uio.base).map
            fun base => (0, { drained uio with base := base }, sector.2.2) := by
  have hrw : ¬ uio.rw ≠ .read := not_not.mpr h.direction
  simp only [mmcSpiReadTraced, if_neg hrw, if_neg h.divides, if_neg h.inside]
  rfl

theorem mmcSpiWriteTraced_accepted (h : Accepted info offset uio .write) (fuel : Nat) :
    mmcSpiWriteTraced dev fuel (some info) offset uio junk s =
      (mmcReadSectorTraced dev fuel info junk (sectorOf info offset) s).bind fun sector =>
        if sector.1 ≠ mmcOk then .pure (-1, uio, sector.2.2)
        else
          (copyTraced .copyIn uio.base uio.count 0 (placeOf info offset) sector.2.1).bind
            fun buf =>
              (mmcWriteSectorTraced dev fuel info buf (sectorOf info offset) sector.2.2).map
                (writeAnswer uio) := by
  have hrw : ¬ uio.rw ≠ .write := not_not.mpr h.direction
  simp only [mmcSpiWriteTraced, if_neg hrw, if_neg h.divides, if_neg h.inside]
  rfl

theorem mmcSpiWriteTraced_refused (h : Refused info offset uio .write) (fuel : Nat) :
    mmcSpiWriteTraced dev fuel (some info) offset uio junk s = .pure (-1, uio, s) := by
  rw [mmcSpiWriteTraced]
  by_cases hrw : uio.rw = .write
  · obtain ⟨hsize, hcrosses⟩ := h.resolve_left (not_not.mpr hrw)
    simp only [hrw, ne_eq, not_true_eq_false, if_false, if_neg hsize, if_pos hcrosses]
  · rw [if_pos hrw]

theorem mmcSpiReadTraced_refused (h : Refused info offset uio .read) (fuel : Nat) :
    mmcSpiReadTraced dev fuel (some info) offset uio junk s = .pure (-1, uio, s) := by
  rw [mmcSpiReadTraced]
  by_cases hrw : uio.rw = .read
  · obtain ⟨hsize, hcrosses⟩ := h.resolve_left (not_not.mpr hrw)
    simp only [hrw, ne_eq, not_true_eq_false, if_false, if_neg hsize, if_pos hcrosses]
  · rw [if_pos hrw]

/-- What a sector that was read has left in the record of a transfer. -/
theorem fills_recorded_read (haccepted : Accepted info offset uio .read)
    {sector : Int32 × (Nat → UInt8) × σ} (hok : sector.1 = mmcOk)
    (hsector : mmcReadSector dev fuel info junk (sectorOf info offset) s = some sector) :
    ∀ e ∈ fills info.readBlockSize.toNat,
      e ∈ (mmcSpiReadTraced dev fuel (some info) offset uio junk s).events := by
  intro e he
  obtain ⟨more, hmore⟩ := Trace.exists_events_bind
    (mmcReadSectorTraced dev fuel info junk (sectorOf info offset) s) _
  rw [mmcSpiReadTraced_accepted haccepted, hmore, mmcReadSectorTraced_events hsector, if_pos hok]
  exact List.mem_append_left _ he

theorem fills_recorded_write (haccepted : Accepted info offset uio .write)
    {sector : Int32 × (Nat → UInt8) × σ} (hok : sector.1 = mmcOk)
    (hsector : mmcReadSector dev fuel info junk (sectorOf info offset) s = some sector) :
    ∀ e ∈ fills info.readBlockSize.toNat,
      e ∈ (mmcSpiWriteTraced dev fuel (some info) offset uio junk s).events := by
  intro e he
  obtain ⟨more, hmore⟩ := Trace.exists_events_bind
    (mmcReadSectorTraced dev fuel info junk (sectorOf info offset) s) _
  rw [mmcSpiWriteTraced_accepted haccepted, hmore, mmcReadSectorTraced_events hsector, if_pos hok]
  exact List.mem_append_left _ he

/-- A write whose sector is refused leaves the buffer alone. -/
theorem mmcSpiWriteTraced_unread (haccepted : Accepted info offset uio .write)
    {sector : Int32 × (Nat → UInt8) × σ} (hfailed : sector.1 ≠ mmcOk)
    (hsector : mmcReadSector dev fuel info junk (sectorOf info offset) s = some sector) :
    (mmcSpiWriteTraced dev fuel (some info) offset uio junk s).events = [] := by
  rw [mmcSpiWriteTraced_accepted haccepted,
    Trace.events_bind_some ((mmcReadSectorTraced_result _ _ _ _ _).trans hsector),
    mmcReadSectorTraced_events hsector, if_neg hfailed, if_pos hfailed, Trace.events_pure]
  rfl

/-- One whose sector was read fills the buffer, copies the request in and, if
the second command succeeds, sends it. -/
theorem mmcSpiWriteTraced_read (haccepted : Accepted info offset uio .write)
    {sector : Int32 × (Nat → UInt8) × σ} {written : Int32 × σ} (hok : sector.1 = mmcOk)
    (hsector : mmcReadSector dev fuel info junk (sectorOf info offset) s = some sector)
    (hwritten : mmcWriteSector dev fuel info (mergedSector info offset uio sector.2.1)
      (sectorOf info offset) sector.2.2 = some written) :
    (mmcSpiWriteTraced dev fuel (some info) offset uio junk s).events =
      fills info.readBlockSize.toNat ++
        (copies .copyIn 0 (placeOf info offset) uio.count ++
          if written.1 = mmcOk then sends info.writeBlockSize.toNat else []) := by
  have hevents := mmcWriteSectorTraced_events hwritten
  rw [mergedSector] at hevents
  rw [mmcSpiWriteTraced_accepted haccepted,
    Trace.events_bind_some ((mmcReadSectorTraced_result _ _ _ _ _).trans hsector),
    mmcReadSectorTraced_events hsector, if_pos hok, if_neg (not_not.mpr hok),
    Trace.events_bind_some (copyTraced_result _ _ _ _ _ _), copyTraced_events,
    Trace.events_map, hevents]

/-- Accepted transfers stay inside the block lengths, also if they never end. -/
theorem all_mmcSpiRead (haccepted : Accepted info offset uio .read)
    (hsmall : info.readBlockSize.toNat ≤ 2 ^ 15)
    (hread : info.readBlockSize.toNat ≤ bound) :
    (mmcSpiReadTraced dev fuel (some info) offset uio junk s).All (fun e => e.index < bound) := by
  rw [mmcSpiReadTraced_accepted haccepted]
  apply Trace.All.bind (all_mmcReadSector haccepted.read_pos hread)
  intro sector _
  apply Trace.All.ite
  · exact fun _ => .pure _
  · intro _
    apply Trace.All.map
    apply all_copies
    intro k hk
    have hfits := haccepted.fits hsmall (by omega)
    simp only [BufAccess.index]
    omega

theorem all_mmcSpiWrite (haccepted : Accepted info offset uio .write)
    (hsmall : info.readBlockSize.toNat ≤ 2 ^ 15)
    (hread : info.readBlockSize.toNat ≤ bound) (hwrite : info.writeBlockSize.toNat ≤ bound) :
    (mmcSpiWriteTraced dev fuel (some info) offset uio junk s).All (fun e => e.index < bound) := by
  rw [mmcSpiWriteTraced_accepted haccepted]
  apply Trace.All.bind (all_mmcReadSector haccepted.read_pos hread)
  intro sector _
  apply Trace.All.ite
  · exact fun _ => .pure _
  · intro _
    apply Trace.All.bind
    · apply all_copies
      intro k hk
      have hfits := haccepted.fits hsmall (by omega)
      simp only [BufAccess.index]
      omega
    · intro buf _
      exact (all_mmcWriteSector hwrite).map _

/-- The card is sent a block only when it asks for one. -/
theorem write_sector_inside {buf : Nat → UInt8} {sector : Int32}
    (hfits : ∀ written, mmcWriteSector dev fuel info buf sector s = some written →
      written.1 = mmcOk → info.writeBlockSize.toNat ≤ maxBlockLength) :
    (mmcWriteSectorTraced dev fuel info buf sector s).All BufAccess.Inside := by
  cases hwritten : mmcWriteSector dev fuel info buf sector s with
  | none =>
      rw [Trace.All, mmcWriteSectorTraced_stuck hwritten]
      exact fun e he => absurd he List.not_mem_nil
  | some written =>
      rw [Trace.All, mmcWriteSectorTraced_events hwritten]
      split
      · rename_i hsent
        exact (sends_inside _).mpr (hfits written hwritten hsent)
      · exact fun e he => absurd he List.not_mem_nil

/-- The request itself lies inside a block that the buffer holds. -/
theorem write_granted_inside (haccepted : Accepted info offset uio .write)
    (hread : info.readBlockSize.toNat ≤ maxBlockLength)
    {granted : Int32 × (Nat → UInt8) × σ} (hok : granted.1 = mmcOk)
    (hsector : mmcReadSector dev fuel info junk (sectorOf info offset) s = some granted)
    (hwrite : ∀ written, mmcWriteSector dev fuel info (mergedSector info offset uio granted.2.1)
      (sectorOf info offset) granted.2.2 = some written → written.1 = mmcOk →
        info.writeBlockSize.toNat ≤ maxBlockLength) :
    (mmcSpiWriteTraced dev fuel (some info) offset uio junk s).All BufAccess.Inside := by
  rw [mmcSpiWriteTraced_accepted haccepted]
  apply Trace.All.bind (all_mmcReadSector haccepted.read_pos hread)
  intro granted' hgranted'
  rw [mmcReadSectorTraced_result] at hgranted'
  obtain rfl := Option.some.inj (hsector.symm.trans hgranted')
  rw [if_neg (not_not.mpr hok)]
  apply Trace.All.bind
  · apply all_copies
    intro k hk
    have hinside := haccepted.fits (hread.trans (by decide)) (by omega)
    simp only [BufAccess.index]
    omega
  · intro merged hmerged
    rw [copyTraced_result] at hmerged
    obtain rfl := Option.some.inj hmerged
    exact (write_sector_inside hwrite).map _

/-- A write keeps to the buffer if it holds what is read into it and what is sent
from it. -/
theorem write_inside_iff (haccepted : Accepted info offset uio .write) :
    (∀ fuel, (mmcSpiWriteTraced dev fuel (some info) offset uio junk s).All BufAccess.Inside) ↔
      ∀ sector, Ends (fun fuel => mmcReadSector dev fuel info junk (sectorOf info offset) s)
          sector → sector.1 = mmcOk →
        info.readBlockSize.toNat ≤ maxBlockLength ∧
          ∀ written, Ends (fun fuel => mmcWriteSector dev fuel info
              (mergedSector info offset uio sector.2.1) (sectorOf info offset) sector.2.2)
              written → written.1 = mmcOk → info.writeBlockSize.toNat ≤ maxBlockLength := by
  constructor
  · rintro hall sector ⟨fuel, hsector⟩ hok
    refine ⟨(fills_inside _).mp fun e he =>
      hall fuel e (fills_recorded_write haccepted hok hsector e he), ?_⟩
    rintro written ⟨more, hwritten⟩ hsent
    have hsector' := mmcReadSector_stable _ _ _ _ fuel (fuel + more) _ (by omega) hsector
    have hwritten' := mmcWriteSector_stable _ _ _ _ more (fuel + more) _ (by omega) hwritten
    have hinside := hall (fuel + more)
    rw [Trace.All, mmcSpiWriteTraced_read haccepted hok hsector' hwritten', if_pos hsent,
      List.forall_mem_append, List.forall_mem_append] at hinside
    exact (sends_inside _).mp hinside.2.2
  · intro hfits fuel
    cases hsector : mmcReadSector dev fuel info junk (sectorOf info offset) s with
    | none =>
        rw [Trace.All, mmcSpiWriteTraced_accepted haccepted,
          Trace.events_bind_none ((mmcReadSectorTraced_result _ _ _ _ _).trans hsector),
          mmcReadSectorTraced_stuck hsector]
        exact fun e he => absurd he List.not_mem_nil
    | some sector =>
        by_cases hok : sector.1 = mmcOk
        · obtain ⟨hread, hwrite⟩ := hfits sector ⟨fuel, hsector⟩ hok
          exact write_granted_inside haccepted hread hok hsector
            fun written hwritten => hwrite written ⟨fuel, hwritten⟩
        · rw [Trace.All, mmcSpiWriteTraced_unread haccepted hok hsector]
          exact fun e he => absurd he List.not_mem_nil

end Transfers

section Checked

variable {σ : Type*} {dev : SpiDevice σ} {fuel : Nat} {info : MmcInfo} {buf junk : Nat → UInt8}
  {sector offset : Int32} {uio : Uio} {s : σ}

/-- What is left of an operation that goes through `size` places of the buffer
when it succeeds, and touches none when it fails, if each access is checked. -/
theorem checked_places {α : Type*} {x : Trace BufAccess α} {ok : α → Prop} [DecidablePred ok]
    {places : List BufAccess} {size : Nat}
    (hevents : ∀ r, x.result = some r → x.events = if ok r then places else [])
    (hplaces : (∀ e ∈ places, e.Inside) ↔ size ≤ maxBlockLength) :
    x.checked BufAccess.Inside =
      x.result.bind fun r => if ok r ∧ maxBlockLength < size then none else some r := by
  cases hresult : x.result with
  | none => exact Trace.checked_of_none hresult
  | some r =>
      rw [Option.bind_some, Trace.checked, hevents r hresult, hresult]
      by_cases hok : ok r
      · rw [if_pos hok]
        by_cases hfits : size ≤ maxBlockLength
        · rw [if_pos (hplaces.mpr hfits), if_neg (fun h => Nat.not_lt.mpr hfits h.2)]
        · rw [if_neg (mt hplaces.mp hfits), if_pos ⟨hok, Nat.not_le.mp hfits⟩]
      · rw [if_neg hok, if_pos (fun e he => absurd he List.not_mem_nil), if_neg (fun h => hok h.1)]

theorem mmcReadSectorTraced_checked :
    (mmcReadSectorTraced dev fuel info buf sector s).checked BufAccess.Inside =
      (mmcReadSector dev fuel info buf sector s).bind fun r =>
        if r.1 = mmcOk ∧ maxBlockLength < info.readBlockSize.toNat then none else some r := by
  have hresult : (mmcReadSectorTraced dev fuel info buf sector s).result =
      mmcReadSector dev fuel info buf sector s := mmcReadSectorTraced_result _ _ _ _ _
  rw [← hresult]
  apply checked_places _ (fills_inside _)
  intro r hr
  exact mmcReadSectorTraced_events (hresult.symm.trans hr)

theorem mmcWriteSectorTraced_checked :
    (mmcWriteSectorTraced dev fuel info buf sector s).checked BufAccess.Inside =
      (mmcWriteSector dev fuel info buf sector s).bind fun r =>
        if r.1 = mmcOk ∧ maxBlockLength < info.writeBlockSize.toNat then none else some r := by
  have hresult : (mmcWriteSectorTraced dev fuel info buf sector s).result =
      mmcWriteSector dev fuel info buf sector s := mmcWriteSectorTraced_result _ _ _ _ _
  rw [← hresult]
  apply checked_places _ (sends_inside _)
  intro r hr
  exact mmcWriteSectorTraced_events (hresult.symm.trans hr)

/-- The copying loops of an accepted request keep to a buffer that holds the
block. -/
theorem copyTraced_checked {rw : UioRw} (haccepted : Accepted info offset uio rw)
    (hfits : info.readBlockSize.toNat ≤ maxBlockLength) {access : Nat → Nat → BufAccess} {i j : Nat}
    (hindex : ∀ k, (access (i + k) (j + k)).index = placeOf info offset + k)
    (src dst : Nat → UInt8) :
    (copyTraced access src uio.count i j dst).checked BufAccess.Inside =
      some (copyBytes src uio.count i j dst) := by
  have hsmall : info.readBlockSize.toNat ≤ 2 ^ 15 := hfits.trans (by decide)
  rw [Trace.checked_of_all, copyTraced_result]
  apply all_copies
  intro k hk
  have hinside := haccepted.fits hsmall (by omega)
  rw [hindex k]
  omega

/-- With a check of each access, the traced transfers are the transfers. -/
theorem mmcSpiWriteTraced_checked (fuel : Nat) (data : Option MmcInfo) (offset : Int32)
    (uio : Uio) (junk : Nat → UInt8) (s : σ) :
    (mmcSpiWriteTraced dev fuel data offset uio junk s).checked BufAccess.Inside =
      mmcSpiWrite dev fuel data offset uio junk s := by
  cases data with
  | none => rfl
  | some info =>
      rcases request_cases info offset uio .write with haccepted | hrefused | ⟨hrw, hzero⟩
      · rw [mmcSpiWriteTraced_accepted haccepted, mmcSpiWrite_accepted haccepted,
          Trace.checked_bind, mmcReadSectorTraced_checked, Option.bind_assoc]
        apply Option.bind_congr
        intro sector _
        by_cases hok : sector.1 = mmcOk
        · by_cases hlarge : maxBlockLength < info.readBlockSize.toNat
          · rw [if_pos ⟨hok, hlarge⟩, if_neg (not_not.mpr hok), if_pos hlarge, Option.bind_none]
          · rw [if_neg (fun h => hlarge h.2), Option.bind_some, if_neg (not_not.mpr hok),
              if_neg (not_not.mpr hok), if_neg hlarge, Trace.checked_bind,
              copyTraced_checked haccepted (Nat.not_lt.mp hlarge) fun _ => rfl, Option.bind_some,
              Trace.checked_map, mmcWriteSectorTraced_checked, Option.map_bind]
            apply Option.bind_congr
            intro written _
            rw [Function.comp_apply, writeResult]
            by_cases hsent : written.1 = mmcOk
            · by_cases hwide : maxBlockLength < info.writeBlockSize.toNat
              · rw [if_pos ⟨hsent, hwide⟩, if_neg (not_not.mpr hsent), if_pos hwide,
                  Option.map_none]
              · rw [if_neg (fun h => hwide h.2), if_neg (not_not.mpr hsent), if_neg hwide,
                  Option.map_some, writeAnswer, if_neg (not_not.mpr hsent)]
            · rw [if_neg (fun h => hsent h.1), if_pos hsent, Option.map_some, writeAnswer,
                if_pos hsent]
        · rw [if_neg (fun h => hok h.1), Option.bind_some, if_pos hok, if_pos hok,
            Trace.checked_pure]
      · rw [mmcSpiWriteTraced_refused hrefused, mmcSpiWrite_refused hrefused, Trace.checked_pure]
      · rw [mmcSpiWrite_divides hrw hzero]
        simp only [mmcSpiWriteTraced, hrw, ne_eq, not_true_eq_false, if_false, if_pos hzero]
        exact Trace.checked_of_none rfl

theorem mmcSpiReadTraced_checked (fuel : Nat) (data : Option MmcInfo) (offset : Int32)
    (uio : Uio) (junk : Nat → UInt8) (s : σ) :
    (mmcSpiReadTraced dev fuel data offset uio junk s).checked BufAccess.Inside =
      mmcSpiRead dev fuel data offset uio junk s := by
  cases data with
  | none => rfl
  | some info =>
      rcases request_cases info offset uio .read with haccepted | hrefused | ⟨hrw, hzero⟩
      · rw [mmcSpiReadTraced_accepted haccepted, mmcSpiRead_accepted haccepted,
          Trace.checked_bind, mmcReadSectorTraced_checked, Option.bind_assoc]
        apply Option.bind_congr
        intro sector _
        rw [readResult]
        by_cases hok : sector.1 = mmcOk
        · by_cases hlarge : maxBlockLength < info.readBlockSize.toNat
          · rw [if_pos ⟨hok, hlarge⟩, if_neg (not_not.mpr hok), if_pos hlarge, Option.bind_none]
          · rw [if_neg (fun h => hlarge h.2), Option.bind_some, if_neg (not_not.mpr hok),
              if_neg (not_not.mpr hok), if_neg hlarge, Trace.checked_map,
              copyTraced_checked haccepted (Nat.not_lt.mp hlarge) fun _ => rfl, Option.map_some]
        · rw [if_neg (fun h => hok h.1), Option.bind_some, if_pos hok, if_pos hok,
            Trace.checked_pure]
      · rw [mmcSpiReadTraced_refused hrefused, mmcSpiRead_refused hrefused, Trace.checked_pure]
      · rw [mmcSpiRead_divides hrw hzero]
        simp only [mmcSpiReadTraced, hrw, ne_eq, not_true_eq_false, if_false, if_pos hzero]
        exact Trace.checked_of_none rfl

end Checked

section Overrun

variable {card : MmcCard} {offset : Int32} {uio : Uio}

/-- On every device and in every run, a read keeps to the buffer. -/
def ReadInBounds (card : MmcCard) (offset : Int32) (uio : Uio) : Prop :=
  ∀ (σ : Type) (dev : SpiDevice σ) (fuel : Nat) (junk : Nat → UInt8) (s : σ),
    (mmcSpiReadTraced dev fuel (some card.toMmcInfo) offset uio junk s).All
      (fun e => e.index < maxBlockLength)

def WriteInBounds (card : MmcCard) (offset : Int32) (uio : Uio) : Prop :=
  ∀ (σ : Type) (dev : SpiDevice σ) (fuel : Nat) (junk : Nat → UInt8) (s : σ),
    (mmcSpiWriteTraced dev fuel (some card.toMmcInfo) offset uio junk s).All
      (fun e => e.index < maxBlockLength)

theorem readInBounds_iff (hcard : Decoded card)
    (haccepted : Accepted card.toMmcInfo offset uio .read) :
    ReadInBounds card offset uio ↔ card.readBlockSize.toNat ≤ maxBlockLength := by
  constructor
  · intro hbounds
    obtain ⟨fuel, block, t, hsector, _⟩ := granting_readSector (s := 0)
      (streamDevice_streams grantingBytes) rfl (fun _ => 0) (sectorOf card.toMmcInfo offset)
    rw [← fills_inside]
    intro e he
    exact hbounds Nat (streamDevice grantingBytes) fuel (fun _ => 0) 0 e
      (fills_recorded_read haccepted rfl hsector e he)
  · intro hle σ dev fuel junk s
    exact all_mmcSpiRead haccepted hcard.read_le hle

theorem writeInBounds_iff (hcard : Decoded card)
    (haccepted : Accepted card.toMmcInfo offset uio .write) :
    WriteInBounds card offset uio ↔
      card.readBlockSize.toNat ≤ maxBlockLength ∧ card.writeBlockSize.toNat ≤ maxBlockLength := by
  constructor
  · intro hbounds
    obtain ⟨fuel, block, t, hsector, hpos⟩ := granting_readSector (s := 0)
      (streamDevice_streams grantingBytes) rfl (fun _ => 0) (sectorOf card.toMmcInfo offset)
    obtain ⟨more, u, hwritten⟩ := granting_writeSector (streamDevice_streams grantingBytes) hpos
      (mergedSector card.toMmcInfo offset uio block) (sectorOf card.toMmcInfo offset)
    have hsector' := mmcReadSector_stable _ _ _ _ fuel (fuel + more) _ (by omega) hsector
    have hwritten' := mmcWriteSector_stable _ _ _ _ more (fuel + more) _ (by omega) hwritten
    have hevents := mmcSpiWriteTraced_read haccepted rfl hsector' hwritten'
    have hall := hbounds Nat (streamDevice grantingBytes) (fuel + more) (fun _ => 0) 0
    rw [Trace.All, hevents, if_pos rfl, List.forall_mem_append, List.forall_mem_append] at hall
    exact ⟨(fills_inside _).mp hall.1, (sends_inside _).mp hall.2.2⟩
  · rintro ⟨hread, hwrite⟩ σ dev fuel junk s
    exact all_mmcSpiWrite haccepted hcard.read_le hread hwrite

/-- For every card that `mmc_spi_open` accepts and every accepted request: a
read keeps to the 512 bytes of the buffer exactly when the read block length is
at most 512, a write exactly when both block lengths are. -/
theorem mmc_buffer_safe_iff {σ : Type*} (dev : SpiDevice σ) (select : SpiSelect σ) (fuel : Nat)
    (data : Option MmcCard) (card : MmcCard) (s t : σ) (offset : Int32) (uio : Uio)
    (hopen : mmcSpiOpen dev select fuel data s = some (0, some card, t))
    (hinside : ¬ crossesSector card.toMmcInfo offset uio) :
    (ReadInBounds card offset { uio with rw := .read } ↔
      card.readBlockSize.toNat ≤ maxBlockLength) ∧
      (WriteInBounds card offset { uio with rw := .write } ↔
        card.readBlockSize.toNat ≤ maxBlockLength ∧
          card.writeBlockSize.toNat ≤ maxBlockLength) := by
  have hcard := mmcSpiOpen_decoded hopen
  constructor
  · exact readInBounds_iff hcard ⟨rfl, hcard.read_ne, hinside⟩
  · exact writeInBounds_iff hcard ⟨rfl, hcard.read_ne, hinside⟩

/-- A card of standard capacity with blocks of 1024 bytes: reading one of them
fills the buffer beyond its end. -/
theorem mmc_buffer_overrun :
    ∃ card n, openStream largeBlockBytes = some (0, some card, n) ∧
      card.readBlockSize = 1024 ∧ card.writeBlockSize = 1024 ∧
      ¬ ReadInBounds card 0 ⟨fun _ => 0, 1, .read⟩ ∧
      ¬ WriteInBounds card 0 ⟨fun _ => 0, 1, .write⟩ := by
  obtain ⟨card, n, hopen, hread, hwrite⟩ := opens_of_any
    (by decide +kernel : (openStream largeBlockBytes).any (fun r => r.1 == 0 && r.2.1.any
      (fun card => decide (card.readBlockSize = 1024 ∧ card.writeBlockSize = 1024))) = true)
  have hcard := mmcSpiOpen_decoded hopen
  have hlarge : ¬ card.readBlockSize.toNat ≤ maxBlockLength := by
    rw [hread]
    decide
  have hinside : ∀ direction, ¬ crossesSector card.toMmcInfo 0 ⟨fun _ => 0, 1, direction⟩ := by
    intro direction
    rw [crossesSector, hread]
    change ¬ (1 : Int32).toUInt32 + (0 : Int32).toUInt32 % 1024 > 1024
    decide
  refine ⟨card, n, hopen, hread, hwrite, ?_, ?_⟩
  · rw [readInBounds_iff hcard ⟨rfl, hcard.read_ne, hinside _⟩]
    exact hlarge
  · rw [writeInBounds_iff hcard ⟨rfl, hcard.read_ne, hinside _⟩]
    exact fun hsafe => hlarge hsafe.1

/-- With blocks of 512 bytes it holds them exactly. -/
theorem mmc_buffer_safe_iff_standard :
    ∃ card n, openStream standardBytes = some (0, some card, n) ∧
      ReadInBounds card 0 ⟨fun _ => 0, 512, .read⟩ ∧
      WriteInBounds card 0 ⟨fun _ => 0, 512, .write⟩ := by
  obtain ⟨card, n, hopen, hread, hwrite⟩ := opens_of_any
    (by decide +kernel : (openStream standardBytes).any (fun r => r.1 == 0 && r.2.1.any
      (fun card => decide (card.readBlockSize = 512 ∧ card.writeBlockSize = 512))) = true)
  have hinside : ¬ crossesSector card.toMmcInfo 0 ⟨fun _ => 0, 512, .read⟩ := by
    rw [crossesSector, hread]
    decide
  obtain ⟨hreads, hwrites⟩ := mmc_buffer_safe_iff (streamDevice standardBytes) streamSelect 2
    (some MmcCard.zero) card 0 n 0 ⟨fun _ => 0, 512, .read⟩ hopen hinside
  refine ⟨card, n, hopen, hreads.mpr ?_, hwrites.mpr ⟨?_, ?_⟩⟩
  · rw [hread]
    decide
  · rw [hread]
    decide
  · rw [hwrite]
    decide

end Overrun

end PascalScheduler
