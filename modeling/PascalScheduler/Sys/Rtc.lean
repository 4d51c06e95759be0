import PascalScheduler.Sys.I2cRegisters

/-!
The real-time clock (`dev/rtc/ds1307.c`). Setting the time sends a register
pointer and seven registers; the one of the day of the week is never assigned
and goes out as it was found on the stack. Reading it back masks the tens of
every field with three bits, one too few for the years from 80 on.
-/

namespace PascalScheduler.Sys

open Fuel

/-- `_BCD_decimal` -/
def bcdDecimal (v : Int32) : Int32 :=
  let units : Int32 := v &&& 0x0F
  let tens : Int32 := (v &&& 0x70) >>> 4
  units + 10 * tens

/-- `_decimal_BCD` -/
def decimalBcd (v : Int32) : Int32 :=
  let units : Int32 := (v % 10) &&& 0x0F
  let tens : Int32 := (v / 10) &&& 0x0F
  units ||| tens <<< 4

/-- `struct tm` -/
structure Tm where
  tmSec : Int32
  tmMin : Int32
  tmHour : Int32
  tmMday : Int32
  tmMon : Int32
  tmYear : Int32
  deriving DecidableEq

abbrev ds1307AddressSeconds : Nat := 0x00
abbrev ds1307AddressMinutes : Nat := 0x01
abbrev ds1307AddressHours : Nat := 0x02
abbrev ds1307AddressDayWeek : Nat := 0x03
abbrev ds1307AddressDay : Nat := 0x04
abbrev ds1307AddressMonth : Nat := 0x05
abbrev ds1307AddressYear : Nat := 0x06

def rtcIoctlSetTime : UInt8 := 0
def rtcIoctlGetTime : UInt8 := 1

def i2cIoctlSetPeer : UInt8 := 0

/-- `usic_i2c_ioctl` -/
def usicI2cIoctl (vnode : Vnode) (code : UInt8) (data : Int32) : Vnode :=
  if code = i2cIoctlSetPeer then { vnode with endpt := data } else vnode

/-- An `int` in a `char`, and back. -/
def toChar (v : Int32) : UInt8 := v.toUInt32.toUInt8

def ofChar (b : UInt8) : Int32 := b.toUInt32.toInt32

/-- The buffer that `RTC_IOCTL_SET_TIME` sends. -/
def setBuffer (time : Tm) (buf : Nat → UInt8) : Nat → UInt8 :=
  let buf := Function.update buf 0 0x00
  let buf := Function.update buf (ds1307AddressSeconds + 1) (toChar (decimalBcd time.tmSec))
  let buf := Function.update buf (ds1307AddressMinutes + 1) (toChar (decimalBcd time.tmMin))
  let buf := Function.update buf (ds1307AddressHours + 1) (toChar (decimalBcd time.tmHour))
  let buf := Function.update buf (ds1307AddressDay + 1) (toChar (decimalBcd time.tmMday))
  let buf := Function.update buf (ds1307AddressMonth + 1) (toChar (decimalBcd time.tmMon))
  Function.update buf (ds1307AddressYear + 1) (toChar (decimalBcd time.tmYear))

/-- The time that `RTC_IOCTL_GET_TIME` makes of the registers. -/
def getTime (buf : Nat → UInt8) : Tm where
  tmSec := bcdDecimal (ofChar (buf ds1307AddressSeconds))
  tmMin := bcdDecimal (ofChar (buf ds1307AddressMinutes))
  tmHour := bcdDecimal (ofChar (buf ds1307AddressHours))
  tmMday := bcdDecimal (ofChar (buf ds1307AddressDay))
  tmMon := bcdDecimal (ofChar (buf ds1307AddressMonth))
  tmYear := bcdDecimal (ofChar (buf ds1307AddressYear))

/-- The address of the chip on the bus. -/
def rtcAddr : Int32 := (0x68 : Int32) <<< 1

/-- `ds1307_rtc_ioctl`, with the buffer it finds on the stack and the vnode
`i2c_node`. -/
def ds1307RtcIoctl {σ : Type*} (board : Board σ) (fuel : Nat) (code : UInt8) (buf : Nat → UInt8)
    (time : Tm) (i2cNode : Vnode) (s : σ) : Option (Int32 × Tm × Vnode × σ) :=
  let i2cNode := usicI2cIoctl i2cNode i2cIoctlSetPeer rtcAddr
  if code = rtcIoctlSetTime then
    (devWrite board fuel i2cNode (setBuffer time buf) 8 s).map fun sent =>
      (0, time, i2cNode, sent.2)
  else if code = rtcIoctlGetTime then
    let buf := Function.update buf 0 0x00
    (devWrite board fuel i2cNode buf 1 s).bind fun sent =>
      (devRead board fuel i2cNode buf 7 sent.2).map fun r => (0, getTime r.2.1, i2cNode, r.2.2)
  else some (0, time, i2cNode, s)

/-- The ranges of the DS1307. -/
structure Tm.InRange (time : Tm) : Prop where
  sec : 0 ≤ time.tmSec.toInt ∧ time.tmSec.toInt ≤ 59
  min : 0 ≤ time.tmMin.toInt ∧ time.tmMin.toInt ≤ 59
  hour : 0 ≤ time.tmHour.toInt ∧ time.tmHour.toInt ≤ 23
  mday : 1 ≤ time.tmMday.toInt ∧ time.tmMday.toInt ≤ 31
  mon : 1 ≤ time.tmMon.toInt ∧ time.tmMon.toInt ≤ 12
  year : 0 ≤ time.tmYear.toInt ∧ time.tmYear.toInt ≤ 99

section Digits

/-- What comes back of a number of two digits. -/
def throughChip (v : Int32) : Int32 :=
  bcdDecimal (ofChar (toChar (decimalBcd v)))

theorem throughChip_iff {v : Int32} (hlow : 0 ≤ v.toInt) (hhigh : v.toInt ≤ 99) :
    throughChip v = v ↔ v.toInt < 80 := by
  have hall : ∀ n < 100, throughChip (Int32.ofNat n) = Int32.ofNat n ↔ n < 80 := by
    decide +kernel
  obtain ⟨n, hn⟩ := Int.eq_ofNat_of_zero_le hlow
  have hv : v = Int32.ofNat n := by
    apply Int32.toInt_inj.mp
    rw [hn, Int32.toInt_ofNat_of_lt (by omega)]
  have := hall n (by omega)
  rw [← hv] at this
  rw [this]
  omega

end Digits

/-- The time that is read after setting `time`. -/
def Tm.throughChip (time : Tm) : Tm where
  tmSec := Sys.throughChip time.tmSec
  tmMin := Sys.throughChip time.tmMin
  tmHour := Sys.throughChip time.tmHour
  tmMday := Sys.throughChip time.tmMday
  tmMon := Sys.throughChip time.tmMon
  tmYear := Sys.throughChip time.tmYear

theorem Tm.throughChip_iff {time : Tm} (h : time.InRange) :
    time.throughChip = time ↔ time.tmYear.toInt < 80 := by
  obtain ⟨hsec, hmin, hhour, hmday, hmon, hyear⟩ := h
  have hkept : ∀ {v : Int32} {low high : Int}, 0 ≤ low → high < 80 →
      low ≤ v.toInt ∧ v.toInt ≤ high → Sys.throughChip v = v := by
    rintro v low high hlow hhigh ⟨hle, hge⟩
    exact (Sys.throughChip_iff (by omega) (by omega)).mpr (by omega)
  rw [← Sys.throughChip_iff hyear.1 hyear.2]
  constructor
  · intro hsame
    exact congrArg Tm.tmYear hsame
  · intro hsame
    simp only [Tm.throughChip, hkept (le_refl 0) (by omega) hsec, hkept (le_refl 0) (by omega) hmin,
      hkept (le_refl 0) (by omega) hhour, hkept zero_le_one (by omega) hmday,
      hkept zero_le_one (by omega) hmon, hsame]

theorem getTime_congr {buf buf' : Nat → UInt8} (h : ∀ k, k < 7 → buf k = buf' k) :
    getTime buf = getTime buf' := by
  simp only [getTime, h _ (show ds1307AddressSeconds < 7 by decide),
    h _ (show ds1307AddressMinutes < 7 by decide), h _ (show ds1307AddressHours < 7 by decide),
    h _ (show ds1307AddressDay < 7 by decide), h _ (show ds1307AddressMonth < 7 by decide),
    h _ (show ds1307AddressYear < 7 by decide)]

/-- The registers lie one place further in the buffer that is sent. -/
theorem getTime_setBuffer (time : Tm) (buf : Nat → UInt8) :
    getTime (fun k => setBuffer time buf (k + 1)) = time.throughChip := by
  simp [getTime, setBuffer, Tm.throughChip, throughChip]

/-- All places but that of the day of the week are assigned. -/
theorem setBuffer_assigned (time : Tm) (buf buf' : Nat → UInt8) {i : Nat} (hi : i < 8) :
    i ≠ ds1307AddressDayWeek + 1 → setBuffer time buf i = setBuffer time buf' i := by
  intro hne
  interval_cases i <;> simp [setBuffer] at hne ⊢

theorem setBuffer_dayWeek (time : Tm) (buf : Nat → UInt8) :
    setBuffer time buf (ds1307AddressDayWeek + 1) = buf (ds1307AddressDayWeek + 1) := by
  simp [setBuffer]

section Calls

variable {σ : Type*} {board : Board σ} {chip : σ → RegisterChip}

/-- Setting the time and reading it at once. -/
def setThenGet (board : Board σ) (fuel : Nat) (buf buf' : Nat → UInt8) (time old : Tm)
    (i2cNode : Vnode) (s : σ) : Option Tm :=
  (ds1307RtcIoctl board fuel rtcIoctlSetTime buf time i2cNode s).bind fun r =>
    (ds1307RtcIoctl board fuel rtcIoctlGetTime buf' old r.2.2.1 r.2.2.2).map fun r => r.2.1

/-- Whatever the stack and the time structure hold, the six fields come back. -/
def RoundTrips (board : Board σ) (time : Tm) (s : σ) : Prop :=
  ∀ (buf buf' : Nat → UInt8) (old : Tm) (i2cNode : Vnode), i2cNode.devId = .i2c →
    Ends (fun fuel => setThenGet board fuel buf buf' time old i2cNode s) time

/-- Byte `i` of the bytes that a call sends to set the time depends on the time only. -/
def Determined (board : Board σ) (chip : σ → RegisterChip) (time : Tm) (s : σ) (i : Nat) : Prop :=
  ∃ b, ∀ (buf : Nat → UInt8) (i2cNode : Vnode) (r : Int32 × Tm × Vnode × σ),
    i2cNode.devId = .i2c →
      Ends (fun fuel => ds1307RtcIoctl board fuel rtcIoctlSetTime buf time i2cNode s) r →
        ((chip r.2.2.2).received.drop (chip s).received.length)[i]? = some b

theorem ds1307RtcIoctl_stable (code : UInt8) (buf : Nat → UInt8) (time : Tm) (i2cNode : Vnode)
    (s : σ) : Stable fun fuel => ds1307RtcIoctl board fuel code buf time i2cNode s := by
  apply Stable.ite
  · exact (devWrite_stable board _ _ _ _).map _
  · apply Stable.ite
    · apply (devWrite_stable board _ _ _ _).bind
      intro sent
      exact (devRead_stable board _ _ _ _).map _
    · exact stable_const _

theorem setTime_ends (h : Carries board.i2c rtcAddr chip) (buf : Nat → UInt8) (time : Tm)
    (i2cNode : Vnode) (hdev : i2cNode.devId = .i2c) (s : σ) :
    ∃ t, Ends (fun fuel => ds1307RtcIoctl board fuel rtcIoctlSetTime buf time i2cNode s)
        (0, time, { i2cNode with endpt := rtcAddr }, t) ∧
      chip t = ((chip s).start .write).takeAll ((List.range 8).map (setBuffer time buf)) := by
  obtain ⟨t, ht, hchip⟩ := devWrite_takes h { i2cNode with endpt := rtcAddr }
    (setBuffer time buf) 8 hdev rfl (by decide) s
  exact ⟨t, ends_map.mpr ⟨_, ht, rfl⟩, hchip⟩

theorem getTime_ends (h : Carries board.i2c rtcAddr chip) (buf : Nat → UInt8) (old : Tm)
    (i2cNode : Vnode) (hdev : i2cNode.devId = .i2c) (s : σ) :
    ∃ t, Ends (fun fuel => ds1307RtcIoctl board fuel rtcIoctlGetTime buf old i2cNode s)
      (0, getTime (chip s).registers, { i2cNode with endpt := rtcAddr }, t) := by
  obtain ⟨sent, hsent, hpointer⟩ := devWrite_takes h { i2cNode with endpt := rtcAddr }
    (Function.update buf 0 0) 1 hdev rfl (by decide) s
  obtain ⟨r, hr, hread⟩ := devRead_sends h { i2cNode with endpt := rtcAddr }
    (Function.update buf 0 0) 7 hdev rfl (by decide) (by decide) sent
  have hchip : (chip sent).registers = (chip s).registers ∧ (chip sent).pointer = 0 := by
    rw [hpointer]
    exact ⟨rfl, rfl⟩
  have htime : getTime r.1 = getTime (chip s).registers := by
    apply getTime_congr
    intro k hk
    rw [hread k hk, hchip.1, hchip.2, Nat.zero_add]
  refine ⟨r.2, ?_⟩
  have hstable := devWrite_stable board { i2cNode with endpt := rtcAddr }
    (Function.update buf 0 0) 1 s
  have hends := (ends_bind hstable fun sent =>
    (devRead_stable board { i2cNode with endpt := rtcAddr } (Function.update buf 0 0) 7 sent.2).map
      fun r => ((0 : Int32), getTime r.2.1, { i2cNode with endpt := rtcAddr }, r.2.2)).mpr
        ⟨_, hsent, ends_map.mpr ⟨_, hr, rfl⟩⟩
  rw [htime] at hends
  exact hends

/-- What is read after setting the time is the time as it goes through the chip. -/
theorem setThenGet_ends (h : Carries board.i2c rtcAddr chip) (buf buf' : Nat → UInt8)
    (time old : Tm) (i2cNode : Vnode) (hdev : i2cNode.devId = .i2c) (s : σ) :
    Ends (fun fuel => setThenGet board fuel buf buf' time old i2cNode s) time.throughChip := by
  obtain ⟨t, hset, hchip⟩ := setTime_ends h buf time _ hdev s
  obtain ⟨t', hget⟩ := getTime_ends h buf' old { i2cNode with endpt := rtcAddr } hdev t
  have hstored : ∀ k, k < 7 → (chip t).registers k = setBuffer time buf (k + 1) := by
    intro k hk
    have hmap : (List.range 8).map (setBuffer time buf) =
        0 :: (List.range 7).map (fun k => setBuffer time buf (k + 1)) := by
      rw [List.range_succ_eq_map, List.map_cons, List.map_map]
      rfl
    rw [hchip, hmap, RegisterChip.takeAll_cons, RegisterChip.takeAll_registers _ _ rfl]
    have hpointer : (((chip s).start .write).take 0).pointer = 0 := rfl
    rw [hpointer, if_pos (by simpa using hk)]
    simp [hk]
  have htime : getTime (chip t).registers = time.throughChip := by
    rw [getTime_congr hstored, getTime_setBuffer]
  rw [htime] at hget
  apply (ends_bind (ds1307RtcIoctl_stable _ _ _ _ _) _).mpr
  · exact ⟨_, hset, ends_map.mpr ⟨_, hget, rfl⟩⟩
  · intro r
    exact (ds1307RtcIoctl_stable _ _ _ _ _).map _

theorem setThenGet_stable (buf buf' : Nat → UInt8) (time old : Tm) (i2cNode : Vnode) (s : σ) :
    Stable fun fuel => setThenGet board fuel buf buf' time old i2cNode s := by
  apply (ds1307RtcIoctl_stable _ _ _ _ _).bind
  intro r
  exact (ds1307RtcIoctl_stable _ _ _ _ _).map _

theorem roundTrips_iff (h : Carries board.i2c rtcAddr chip) {time : Tm} (hrange : time.InRange)
    (s : σ) : RoundTrips board time s ↔ time.tmYear.toInt < 80 := by
  rw [← Tm.throughChip_iff hrange]
  constructor
  · intro hround
    have hends := setThenGet_ends h (fun _ => 0) (fun _ => 0) time time ⟨.i2c, 0, 0, none⟩
      rfl s
    exact hends.unique (setThenGet_stable _ _ _ _ _ _) (hround _ _ _ _ rfl)
  · intro hsame buf buf' old i2cNode hdev
    have hends := setThenGet_ends h buf buf' time old i2cNode hdev s
    rwa [hsame] at hends

theorem sentBytes (h : Carries board.i2c rtcAddr chip) {buf : Nat → UInt8} {time : Tm}
    {i2cNode : Vnode} (hdev : i2cNode.devId = .i2c) {s : σ} {r : Int32 × Tm × Vnode × σ}
    (hr : Ends (fun fuel => ds1307RtcIoctl board fuel rtcIoctlSetTime buf time i2cNode s) r) :
    (chip r.2.2.2).received.drop (chip s).received.length =
      (List.range 8).map (setBuffer time buf) := by
  obtain ⟨t, ht, hchip⟩ := setTime_ends h buf time _ hdev s
  obtain rfl := ht.unique (ds1307RtcIoctl_stable _ _ _ _ _) hr
  have hstart : ((chip s).start .write).received = (chip s).received := rfl
  rw [hchip, RegisterChip.takeAll_received, hstart, List.drop_left]

theorem determined_iff (h : Carries board.i2c rtcAddr chip) (time : Tm) (s : σ) {i : Nat}
    (hi : i < 8) : Determined board chip time s i ↔ i ≠ ds1307AddressDayWeek + 1 := by
  have hbyte : ∀ buf, ((List.range 8).map (setBuffer time buf))[i]? = some (setBuffer time buf i) :=
    fun buf => by simp [hi]
  constructor
  · rintro ⟨b, hb⟩ rfl
    have hsent : ∀ buf : Nat → UInt8, buf (ds1307AddressDayWeek + 1) = b := by
      intro buf
      obtain ⟨t, ht, _⟩ := setTime_ends h buf time ⟨.i2c, 0, 0, none⟩ rfl s
      have hsame := hb buf _ _ rfl ht
      rw [sentBytes h rfl ht, hbyte, setBuffer_dayWeek] at hsame
      exact Option.some.inj hsame
    exact absurd ((hsent fun _ => 0).trans (hsent fun _ => 1).symm) (by decide)
  · intro hne
    refine ⟨setBuffer time (fun _ => 0) i, ?_⟩
    intro buf i2cNode r hdev hr
    rw [sentBytes h hdev hr, hbyte, setBuffer_assigned time buf (fun _ => 0) hi hne]

end Calls

/-- For every time in the ranges of the chip: it comes back if and only if the
year is below 80, and of the eight bytes that are sent, all but the one of the
day of the week are determined by it. So there is no time for which both hold. -/
theorem rtc_round_trip_iff {σ : Type*} (board : Board σ) (chip : σ → RegisterChip)
    (h : Carries board.i2c rtcAddr chip) (time : Tm) (hrange : time.InRange) (s : σ) :
    (RoundTrips board time s ↔ time.tmYear.toInt < 80) ∧
      (∀ i < 8, Determined board chip time s i ↔ i ≠ ds1307AddressDayWeek + 1) ∧
      ¬ (RoundTrips board time s ∧ ∀ i < 8, Determined board chip time s i) := by
  refine ⟨roundTrips_iff h hrange s, fun i hi => determined_iff h time s hi, ?_⟩
  rintro ⟨_, hall⟩
  exact (determined_iff h time s (by decide)).mp (hall (ds1307AddressDayWeek + 1) (by decide)) rfl

/-- A board with the clock alone on its I2C bus. -/
def rtcBoard : Board RegisterBus where
  i2c := registerChannel rtcAddr
  spi := ⟨fun _ bus => (0xFF, bus)⟩
  uart := (registerChannel rtcAddr).toUsicChannel
  stack _ _ := 0

def idleBus : RegisterBus := ⟨⟨fun _ => 0, 0, false, 0, []⟩, [], false⟩

def i2cVnode : Vnode := ⟨.i2c, 0, 0, none⟩

/-- The year 99 is read back as 19, and the fifth byte that goes out is what the
stack held. -/
theorem rtc_round_trip_fails :
    let time : Tm := ⟨58, 59, 23, 31, 12, 99⟩
    let sent (buf : Nat → UInt8) :=
      (ds1307RtcIoctl rtcBoard 2 rtcIoctlSetTime buf time i2cVnode idleBus).map
        fun r => (r.2.2.2.settled rtcAddr).received
    setThenGet rtcBoard 2 (fun _ => 0) (fun _ => 0) time time i2cVnode idleBus =
        some ⟨58, 59, 23, 31, 12, 19⟩ ∧
      sent (fun _ => 0) = some [0x00, 0x58, 0x59, 0x23, 0x00, 0x31, 0x12, 0x99] ∧
      sent (fun _ => 0xFF) = some [0x00, 0x58, 0x59, 0x23, 0xFF, 0x31, 0x12, 0x99] ∧
      ¬ RoundTrips rtcBoard time idleBus ∧
      ¬ Determined rtcBoard (RegisterBus.settled rtcAddr) time idleBus 4 := by
  intro time sent
  have hcarries := registerChannel_carries rtcAddr
  have hrange : time.InRange := by constructor <;> decide
  refine ⟨by decide +kernel, by decide +kernel, by decide +kernel, ?_, ?_⟩
  · intro hround
    exact absurd ((roundTrips_iff hcarries hrange idleBus).mp hround) (by decide)
  · intro hdetermined
    exact (determined_iff hcarries time idleBus (by decide)).mp hdetermined rfl

/-- A time of the year 14 comes back. -/
theorem rtc_round_trip_iff_2014 :
    let time : Tm := ⟨45, 30, 12, 15, 6, 14⟩
    RoundTrips rtcBoard time idleBus ∧
      Determined rtcBoard (RegisterBus.settled rtcAddr) time idleBus 7 := by
  intro time
  have hrange : time.InRange := by constructor <;> decide
  have hboth := rtc_round_trip_iff rtcBoard (RegisterBus.settled rtcAddr)
    (registerChannel_carries rtcAddr) time hrange idleBus
  exact ⟨hboth.1.mpr (by decide), (hboth.2.1 7 (by decide)).mpr (by decide)⟩

end PascalScheduler.Sys
