import PascalScheduler.Sys.Dev

/-!
When `dev_read` returns. Its loop ends only when the driver has lowered
`uio_resid`; the drivers of streams always do, the ones without a transfer never
do, and the MMC driver does when the card grants the sector.
-/

namespace PascalScheduler.Sys

open Fuel

variable {σ : Type*} {board : Board σ} {vnode : Vnode} {count : UInt32} {ptr : Nat → UInt8}

/-- The card when it was asked for a sector. -/
def askedFor (dev : SpiDevice σ) (info : MmcInfo) (sector : Int32) (s : σ) : σ :=
  mmcSendCmd dev mmcCmd17 (sector.toUInt32 * info.readBlockSize) s

/-- Asked for the sector again and again, the card grants it after a number of
refusals. -/
inductive EventuallyGrants (dev : SpiDevice σ) (info : MmcInfo) (sector : Int32) : σ → Prop where
  | grants {s : σ} {m n k : Nat} (h : GrantsRead dev (askedFor dev info sector s) m n k) :
      EventuallyGrants dev info sector s
  | refuses {s t : σ} (h : RefusesRead dev (askedFor dev info sector s) t)
      (hrest : EventuallyGrants dev info sector t) : EventuallyGrants dev info sector s

/-- What it takes for the loop to end when it is entered. -/
def ReadGetsThrough (board : Board σ) (vnode : Vnode) (ptr : Nat → UInt8) (count : UInt32)
    (s : σ) : Prop :=
  match vnode.devId with
  | .i2c | .spi | .uart => True
  | .pwm | .lcd | .rtc => False
  | .mmc =>
      ∃ info, vnode.data = some info ∧
        ¬ crossesSector info vnode.offset ⟨ptr, count.toInt32, .read⟩ ∧
        EventuallyGrants board.spi info (sectorOf info vnode.offset) s

/-- Every call of `d_read` that the loop makes returns. -/
def CallsReturn (board : Board σ) (vnode : Vnode) (ptr : Nat → UInt8) (count : UInt32)
    (s : σ) : Prop :=
  ∀ state, Turns ReadState.more (readTurn board vnode count) (.start ptr count s) state →
    state.more →
      Returns fun fuel => dRead board fuel vnode (state.request count) state.hardware

theorem after_request (state : ReadState σ) (count : UInt32) (s : σ) :
    state.after count (state.request count) s = { state with hardware := s } := by
  simp only [ReadState.after, ReadState.request, ReadState.mk.injEq, and_true]
  funext k
  split
  · rfl
  · rename_i hk
    rw [Nat.add_sub_cancel' (Nat.le_of_not_lt hk)]

/-- The loop ends in the states without elements left that it gets to. -/
theorem devRead_returns (s : σ) :
    Returns (fun fuel => devRead board fuel vnode ptr count s) ↔
      ∃ state, Turns ReadState.more (readTurn board vnode count) (.start ptr count s) state ∧
        ¬ state.more := by
  simp only [devRead, returns_map]
  simp only [Returns, loop_ends (readTurn_stable board vnode count)]

/-- A driver that leaves the request alone is called again and again. -/
theorem devRead_stuck (h : ∀ fuel (state : ReadState σ), state.resid = count.toInt32 →
      ∃ ret t, dRead board fuel vnode (state.request count) state.hardware =
        some (ret, state.request count, t))
    (hcount : 0 < count.toInt32) (s : σ) :
    ¬ Returns (fun fuel => devRead board fuel vnode ptr count s) := by
  rw [devRead_returns]
  rintro ⟨state, hturns, hdone⟩
  have hresid : state.resid = count.toInt32 := by
    apply hturns.invariant (P := fun state => state.resid = count.toInt32) rfl
    rintro a b ha _ ⟨fuel, hb⟩
    obtain ⟨ret, t, hcall⟩ := h fuel a ha
    simp only [readTurn, hcall, Option.map_some, Option.some.injEq, after_request] at hb
    rw [← hb]
    exact ha
  apply hdone
  rw [ReadState.more, hresid]
  exact hcount

section Streams

theorem drained_resid {uio : Uio} (h : 0 < uio.resid) : (drained uio).resid = 0 :=
  if_pos h

/-- The drivers of streams return only when nothing is left. -/
theorem dRead_drains (hdev : vnode.devId = .i2c ∨ vnode.devId = .spi ∨ vnode.devId = .uart)
    {fuel : Nat} {uio : Uio} {s : σ} {r : Int32 × Uio × σ} (huio : 0 < uio.resid)
    (h : dRead board fuel vnode uio s = some r) : r.2.1.resid = 0 := by
  rw [← drained_resid huio]
  rcases hdev with hi2c | hspi | huart
  · simp only [dRead, hi2c] at h
    obtain ⟨_, _, rfl⟩ := Option.map_eq_some_iff.mp h
    rfl
  · simp only [dRead, hspi] at h
    obtain ⟨_, _, rfl⟩ := Option.map_eq_some_iff.mp h
    rfl
  · simp only [dRead, huart] at h
    obtain ⟨_, _, rfl⟩ := Option.map_eq_some_iff.mp h
    rfl

/-- One call is enough for them. -/
theorem stream_returns (hdev : vnode.devId = .i2c ∨ vnode.devId = .spi ∨ vnode.devId = .uart)
    (hcount : 0 < count.toInt32) {s : σ} (hcalls : CallsReturn board vnode ptr count s) :
    Returns (fun fuel => devRead board fuel vnode ptr count s) := by
  obtain ⟨r, fuel, hcall⟩ := hcalls _ (.refl _) hcount
  have hpending : ((ReadState.start ptr count s).request count).resid = count.toInt32 := rfl
  have hresid : r.2.1.resid = 0 := by
    apply dRead_drains hdev _ hcall
    rw [hpending]
    exact hcount
  rw [devRead_returns]
  refine ⟨(ReadState.start ptr count s).after count r.2.1 r.2.2, ?_, ?_⟩
  · have hmore : (ReadState.start ptr count s).more := hcount
    apply Turns.turn hmore _ (.refl _)
    refine ⟨fuel, ?_⟩
    simp only at hcall
    simp only [readTurn, hcall, Option.map_some]
  · exact not_more hresid

end Streams

section Mmc

variable {info : MmcInfo} {state b : ReadState σ}

theorem accepted_request (state : ReadState σ) (hresid : state.resid = count.toInt32)
    (hsize : info.readBlockSize ≠ 0)
    (hinside : ¬ crossesSector info vnode.offset ⟨ptr, count.toInt32, .read⟩) :
    Accepted info vnode.offset (state.request count) .read := by
  refine ⟨rfl, hsize, ?_⟩
  rw [crossesSector, ReadState.request, hresid]
  exact hinside

/-- One turn with a card is one attempt to read the sector. -/
theorem readTurn_mmc (hdev : vnode.devId = .mmc) (hdata : vnode.data = some info)
    (haccepted : Accepted info vnode.offset (state.request count) .read) :
    Ends (fun fuel => readTurn board vnode count fuel state) b ↔
      ∃ sector, Ends (fun fuel => mmcReadSector board.spi fuel info (board.stack state.hardware)
          (sectorOf info vnode.offset) state.hardware) sector ∧
        ∃ r, readResult info vnode.offset (state.request count) sector = some r ∧
          state.after count r.2.1 r.2.2 = b := by
  simp only [readTurn, dRead, hdev, hdata, mmcSpiRead_accepted haccepted, Option.map_bind]
  rw [ends_bind_const]
  simp only [Function.comp_apply, Option.map_eq_some_iff]

/-- The attempt is granted or refused; where it is refused all is left. -/
theorem readTurn_cases (hdev : vnode.devId = .mmc) (hdata : vnode.data = some info)
    (haccepted : Accepted info vnode.offset (state.request count) .read)
    (h : Ends (fun fuel => readTurn board vnode count fuel state) b) :
    (∃ m n k, GrantsRead board.spi
        (askedFor board.spi info (sectorOf info vnode.offset) state.hardware) m n k) ∨
      ∃ t, RefusesRead board.spi
          (askedFor board.spi info (sectorOf info vnode.offset) state.hardware) t ∧
        b = { state with hardware := t } := by
  have hne : mmcError ≠ mmcOk := by decide
  obtain ⟨sector, hread, r, hresult, rfl⟩ := (readTurn_mmc hdev hdata haccepted).mp h
  rcases mmcReadSector_ends.mp hread with ⟨m, n, k, hgrants, _⟩ | ⟨t, hrefuses, rfl⟩
  · exact .inl ⟨m, n, k, hgrants⟩
  · refine .inr ⟨t, hrefuses, ?_⟩
    rw [readResult, if_pos hne, Option.some.injEq] at hresult
    rw [← hresult, after_request]

/-- A call that returns with the sector has held it in its buffer. -/
theorem granted_fits {uio : Uio} {junk : Nat → UInt8} {s : σ}
    (haccepted : Accepted info vnode.offset uio .read) {m n k : Nat}
    (h : GrantsRead board.spi (askedFor board.spi info (sectorOf info vnode.offset) s) m n k)
    (hreturns : Returns fun fuel =>
      mmcSpiRead board.spi fuel (some info) vnode.offset uio junk s) :
    info.readBlockSize.toNat ≤ maxBlockLength := by
  obtain ⟨r, fuel, hr⟩ := hreturns
  simp only [mmcSpiRead_accepted haccepted] at hr
  obtain ⟨sector, hread, hresult⟩ := Option.bind_eq_some_iff.mp hr
  rcases mmcReadSector_ends.mp ⟨fuel, hread⟩ with ⟨_, _, _, _, rfl⟩ | ⟨t, hrefuses, _⟩
  · by_contra hlarge
    rw [readResult, if_neg (not_not.mpr rfl), if_pos (Nat.not_le.mp hlarge)] at hresult
    cases hresult
  · exact absurd h hrefuses.not_grants

theorem readTurn_granted (hdev : vnode.devId = .mmc) (hdata : vnode.data = some info)
    (haccepted : Accepted info vnode.offset (state.request count) .read)
    (hmore : state.more) (hfits : info.readBlockSize.toNat ≤ maxBlockLength) {m n k : Nat}
    (h : GrantsRead board.spi
      (askedFor board.spi info (sectorOf info vnode.offset) state.hardware) m n k) :
    ∃ b, Ends (fun fuel => readTurn board vnode count fuel state) b ∧ b.resid = 0 := by
  have hread : ∃ r, Ends (fun fuel => mmcReadSector board.spi fuel info
      (board.stack state.hardware) (sectorOf info vnode.offset) state.hardware) r ∧
        r.1 = mmcOk := by
    simp only [mmcReadSector_ok]
    exact ⟨_, m, n, k, h, rfl⟩
  obtain ⟨sector, hread, hok⟩ := hread
  have hresult : readResult info vnode.offset (state.request count) sector = some _ :=
    (if_neg (not_not.mpr hok)).trans (if_neg (Nat.not_lt.mpr hfits))
  refine ⟨_, (readTurn_mmc hdev hdata haccepted).mpr ⟨sector, hread, _, hresult, rfl⟩, ?_⟩
  exact drained_resid hmore

theorem readTurn_refused (hdev : vnode.devId = .mmc) (hdata : vnode.data = some info)
    (haccepted : Accepted info vnode.offset (state.request count) .read) {t : σ}
    (h : RefusesRead board.spi
      (askedFor board.spi info (sectorOf info vnode.offset) state.hardware) t) :
    Ends (fun fuel => readTurn board vnode count fuel state) { state with hardware := t } := by
  have hne : mmcError ≠ mmcOk := by decide
  have hread : Ends (fun fuel => mmcReadSector board.spi fuel info (board.stack state.hardware)
      (sectorOf info vnode.offset) state.hardware) (mmcError, board.stack state.hardware, t) :=
    mmcReadSector_ends.mpr (.inr ⟨t, h, rfl⟩)
  refine (readTurn_mmc hdev hdata haccepted).mpr ⟨_, hread, _, if_pos hne, ?_⟩
  rw [after_request]

/-- Where the loop ends, the card granted the sector at last. -/
theorem grants_of_turns (hdev : vnode.devId = .mmc) (hdata : vnode.data = some info)
    (hsize : info.readBlockSize ≠ 0)
    (hinside : ¬ crossesSector info vnode.offset ⟨ptr, count.toInt32, .read⟩)
    (hcount : 0 < count.toInt32)
    (hturns : Turns ReadState.more (readTurn board vnode count) state b)
    (hresid : state.resid = count.toInt32) (hdone : ¬ b.more) :
    EventuallyGrants board.spi info (sectorOf info vnode.offset) state.hardware := by
  induction hturns with
  | refl state =>
      rw [ReadState.more, hresid] at hdone
      exact absurd hcount hdone
  | turn _ hbody _ ih =>
      have haccepted := accepted_request _ hresid hsize hinside
      rcases readTurn_cases hdev hdata haccepted hbody with ⟨m, n, k, hgrants⟩ | ⟨t, hrefuses, rfl⟩
      · exact .grants hgrants
      · exact .refuses hrefuses (ih hresid hdone)

/-- Where the card grants it at last, and the call returns, the loop ends. -/
theorem turns_of_grants (hdev : vnode.devId = .mmc) (hdata : vnode.data = some info)
    (hsize : info.readBlockSize ≠ 0)
    (hinside : ¬ crossesSector info vnode.offset ⟨ptr, count.toInt32, .read⟩)
    (hcount : 0 < count.toInt32) (memory : Nat → UInt8) {s : σ}
    (h : EventuallyGrants board.spi info (sectorOf info vnode.offset) s)
    (hcalls : CallsReturn board vnode memory count s) :
    ∃ b, Turns ReadState.more (readTurn board vnode count) ⟨memory, count.toInt32, s⟩ b ∧
      ¬ b.more := by
  induction h with
  | @grants s m n k h =>
      have haccepted := accepted_request ⟨memory, count.toInt32, s⟩ rfl hsize hinside
      have hreturns := hcalls _ (.refl _) hcount
      simp only [dRead, hdev, hdata] at hreturns
      have hfits := granted_fits haccepted h hreturns
      obtain ⟨b, hbody, hresid⟩ := readTurn_granted hdev hdata haccepted hcount hfits h
      exact ⟨b, .turn hcount hbody (.refl b), not_more hresid⟩
  | @refuses s t h _ ih =>
      have haccepted := accepted_request ⟨memory, count.toInt32, s⟩ rfl hsize hinside
      have hturn := readTurn_refused hdev hdata haccepted h
      obtain ⟨b, hturns, hdone⟩ := ih fun state hstate => hcalls state (.turn hcount hturn hstate)
      exact ⟨b, .turn hcount hturn hturns, hdone⟩

theorem mmc_returns_iff (hdev : vnode.devId = .mmc) (hdata : vnode.data = some info)
    (hsize : info.readBlockSize ≠ 0)
    (hinside : ¬ crossesSector info vnode.offset ⟨ptr, count.toInt32, .read⟩)
    (hcount : 0 < count.toInt32) {s : σ} (hcalls : CallsReturn board vnode ptr count s) :
    Returns (fun fuel => devRead board fuel vnode ptr count s) ↔
      EventuallyGrants board.spi info (sectorOf info vnode.offset) s := by
  rw [devRead_returns]
  constructor
  · rintro ⟨b, hturns, hdone⟩
    exact grants_of_turns hdev hdata hsize hinside hcount hturns rfl hdone
  · intro hgrants
    exact turns_of_grants hdev hdata hsize hinside hcount ptr hgrants hcalls

/-- A call that divides by zero does not return. -/
theorem divides_of_calls (hdev : vnode.devId = .mmc) (hdata : vnode.data = some info)
    (hcount : 0 < count.toInt32) {s : σ} (hcalls : CallsReturn board vnode ptr count s) :
    info.readBlockSize ≠ 0 := by
  intro hzero
  obtain ⟨r, fuel, hr⟩ := hcalls _ (.refl _) hcount
  have hrw : ((ReadState.start ptr count s).request count).rw = .read := rfl
  simp only [dRead, hdev, hdata, mmcSpiRead_divides hrw hzero] at hr
  cases hr

end Mmc

section Stuck

/-- The drivers without a transfer leave the request alone. -/
theorem dRead_idle (hdev : vnode.devId = .pwm ∨ vnode.devId = .lcd ∨ vnode.devId = .rtc)
    (fuel : Nat) (uio : Uio) (s : σ) : dRead board fuel vnode uio s = some (0, uio, s) := by
  rcases hdev with hpwm | hlcd | hrtc
  · rw [dRead, hpwm]
    rfl
  · rw [dRead, hlcd]
    rfl
  · rw [dRead, hrtc]
    rfl

theorem idle_stuck (hdev : vnode.devId = .pwm ∨ vnode.devId = .lcd ∨ vnode.devId = .rtc)
    (hcount : 0 < count.toInt32) (s : σ) :
    ¬ Returns (fun fuel => devRead board fuel vnode ptr count s) := by
  apply devRead_stuck _ hcount
  intro fuel state _
  exact ⟨0, state.hardware, dRead_idle hdev fuel _ _⟩

/-- So does the MMC driver without a card or with a request that it refuses. -/
theorem no_card_stuck (hdev : vnode.devId = .mmc) (hdata : vnode.data = none)
    (hcount : 0 < count.toInt32) (s : σ) :
    ¬ Returns (fun fuel => devRead board fuel vnode ptr count s) := by
  apply devRead_stuck _ hcount
  intro fuel state _
  exact ⟨-1, state.hardware, by rw [dRead, hdev, hdata]; rfl⟩

theorem refused_stuck {info : MmcInfo} (hdev : vnode.devId = .mmc) (hdata : vnode.data = some info)
    (hsize : info.readBlockSize ≠ 0)
    (hcrosses : crossesSector info vnode.offset ⟨ptr, count.toInt32, .read⟩)
    (hcount : 0 < count.toInt32) (s : σ) :
    ¬ Returns (fun fuel => devRead board fuel vnode ptr count s) := by
  apply devRead_stuck _ hcount
  intro fuel state hresid
  refine ⟨-1, state.hardware, ?_⟩
  simp only [dRead, hdev, hdata]
  apply mmcSpiRead_refused
  refine .inr ⟨hsize, ?_⟩
  rw [crossesSector, ReadState.request, hresid]
  exact hcrosses

end Stuck

/-- `dev_read` returns exactly when nothing is asked for or the driver gets
through: a driver of a stream always, one without a transfer never, and the MMC
driver when the request lies inside a sector that the card grants at last. -/
theorem dev_read_returns_iff (board : Board σ) (vnode : Vnode) (ptr : Nat → UInt8)
    (count : UInt32) (s : σ) (hcalls : CallsReturn board vnode ptr count s) :
    Returns (fun fuel => devRead board fuel vnode ptr count s) ↔
      ¬ 0 < count.toInt32 ∨ ReadGetsThrough board vnode ptr count s := by
  by_cases hcount : 0 < count.toInt32
  · rw [or_iff_right (not_not.mpr hcount), ReadGetsThrough]
    cases hdev : vnode.devId with
    | i2c => exact iff_true_intro (stream_returns (.inl hdev) hcount hcalls)
    | spi => exact iff_true_intro (stream_returns (.inr (.inl hdev)) hcount hcalls)
    | uart => exact iff_true_intro (stream_returns (.inr (.inr hdev)) hcount hcalls)
    | pwm => exact iff_false_intro (idle_stuck (.inl hdev) hcount s)
    | lcd => exact iff_false_intro (idle_stuck (.inr (.inl hdev)) hcount s)
    | rtc => exact iff_false_intro (idle_stuck (.inr (.inr hdev)) hcount s)
    | mmc =>
        cases hdata : vnode.data with
        | none => simp [no_card_stuck hdev hdata hcount s]
        | some info =>
            have hsize := divides_of_calls hdev hdata hcount hcalls
            by_cases hinside : crossesSector info vnode.offset ⟨ptr, count.toInt32, .read⟩
            · simp [refused_stuck hdev hdata hsize hinside hcount s, hinside]
            · simp [mmc_returns_iff hdev hdata hsize hinside hcount hcalls, hinside]
  · apply iff_of_true _ (.inl hcount)
    rw [devRead_returns]
    exact ⟨_, .refl _, hcount⟩

/-- A board whose queues are never full or empty; they deliver zeros. -/
def readyBoard (spi : SpiDevice Nat) : Board Nat where
  i2c :=
    { txfifoIsFull s := (false, s)
      txfifoPutData _ s := s
      rxfifoIsEmpty s := (false, s)
      rxfifoGetData s := (0, s)
      masterStart _ _ s := s
      masterReceiveAck s := s
      masterReceiveNack s := s
      masterStop s := s
      getStatusFlag s := (0x30, s)
      clearStatusFlag _ s := s
      ackReceived := 0x10
      receiveIndication := 0x20 }
  spi := spi
  uart :=
    { txfifoIsFull s := (false, s)
      txfifoPutData _ s := s
      rxfifoIsEmpty s := (false, s)
      rxfifoGetData s := (0, s) }
  stack _ _ := 0

/-- A node of a driver without a card. -/
def nodeOf (devId : DevId) : Vnode where
  devId := devId
  endpt := 0
  offset := 0
  data := none

/-- One byte from the clock: every call returns, and the loop goes on. -/
theorem dev_read_hangs :
    CallsReturn (readyBoard (streamDevice fun _ => 0)) (nodeOf .rtc) (fun _ => 0) 1 0 ∧
      ¬ Returns (fun fuel =>
        devRead (readyBoard (streamDevice fun _ => 0)) fuel (nodeOf .rtc) (fun _ => 0) 1 0) := by
  constructor
  · intro state _ _
    exact ⟨_, 0, dRead_idle (.inr (.inr rfl)) 0 _ _⟩
  · exact idle_stuck (.inr (.inr rfl)) (by decide) 0

/-- Three bytes from the serial line. -/
theorem dev_read_returns_iff_uart :
    Returns (fun fuel =>
      devRead (readyBoard (streamDevice fun _ => 0)) fuel (nodeOf .uart) (fun _ => 0) 3 0) := by
  have hcalls : CallsReturn (readyBoard (streamDevice fun _ => 0)) (nodeOf .uart)
      (fun _ => 0) 3 0 := by
    intro state _ _
    apply returns_map.mpr
    apply receiveLoop_returns
    · intro _ s
      exact (waitWhile_stable _ _).map _
    · intro _ s
      exact ⟨(0, s), 1, rfl⟩
  exact (dev_read_returns_iff _ (nodeOf .uart) (fun _ => 0) 3 0 hcalls).mpr (.inr trivial)

end PascalScheduler.Sys
