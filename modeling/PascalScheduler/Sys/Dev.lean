import PascalScheduler.Dev.MmcTransfers

/-!
`dev_read` and `dev_write` (`sys/dev.c`) and the transfers of the drivers behind
them. The channels are what the vendor library gives access to; what its
functions do to the hardware is a parameter. Polling loops take a number of
turns; `none` means that it was not enough.
-/

namespace PascalScheduler.Sys

open Fuel

/-- `enum dev_id` -/
inductive DevId where
  | i2c
  | spi
  | uart
  | pwm
  | lcd
  | mmc
  | rtc
  deriving DecidableEq

/-- The fields of `struct vnode` that the transfers read; `data` is what the MMC
driver keeps there. -/
structure Vnode where
  devId : DevId
  endpt : Int32
  offset : Int32
  data : Option MmcInfo

inductive I2cCmd where
  | write
  | read

/-- The queues of a serial channel (`XMC_USIC_CH_TXFIFO_*`, `XMC_USIC_CH_RXFIFO_*`). -/
structure UsicChannel (σ : Type*) where
  txfifoIsFull : σ → Bool × σ
  txfifoPutData : UInt16 → σ → σ
  rxfifoIsEmpty : σ → Bool × σ
  rxfifoGetData : σ → UInt16 × σ

/-- `XMC_USIC_CH_FIFO_SIZE_16WORDS`, the size of the transmit queues. -/
def txfifoSize : Nat := 16

/-- The channel as an I2C master (`XMC_I2C_CH_*`) and the masks of its flags;
`receiveIndication` are the two flags of a received word. -/
structure I2cChannel (σ : Type*) extends UsicChannel σ where
  masterStart : Int32 → I2cCmd → σ → σ
  masterReceiveAck : σ → σ
  masterReceiveNack : σ → σ
  masterStop : σ → σ
  getStatusFlag : σ → UInt32 × σ
  clearStatusFlag : UInt32 → σ → σ
  ackReceived : UInt32
  receiveIndication : UInt32

/-- The hardware of all drivers; `stack` is what `mmc_spi_read` finds on the
stack where it puts its buffer. -/
structure Board (σ : Type*) where
  i2c : I2cChannel σ
  spi : SpiDevice σ
  uart : UsicChannel σ
  stack : σ → Nat → UInt8

section Loops

variable {σ : Type*}

/-- `while (busy()) {}` -/
def waitWhile (busy : σ → Bool × σ) : Nat → σ → Option σ
  | 0, _ => none
  | fuel + 1, s =>
      let answer := busy s
      if answer.1 then waitWhile busy fuel answer.2 else some answer.2

/-- `for (; uio_resid > 0; uio_resid--, ptr++) send(*ptr);` from `ptr[i]` on. -/
def sendLoop (send : UInt8 → σ → Option σ) (ptr : Nat → UInt8) : Nat → Nat → σ → Option σ
  | 0, _, s => some s
  | resid + 1, i, s => (send (ptr i) s).bind (sendLoop send ptr resid (i + 1))

/-- `for (; uio_resid > 0; uio_resid--, ptr++) *ptr = receive();` -/
def receiveLoop (receive : Nat → σ → Option (UInt8 × σ)) :
    Nat → Nat → (Nat → UInt8) → σ → Option ((Nat → UInt8) × σ)
  | 0, _, ptr, s => some (ptr, s)
  | resid + 1, i, ptr, s =>
      (receive (resid + 1) s).bind fun answer =>
        receiveLoop receive resid (i + 1) (Function.update ptr i answer.1) answer.2

end Loops

section Drivers

variable {σ : Type*}

def fifoSend (channel : UsicChannel σ) (fuel : Nat) (uwData : UInt8) (s : σ) : Option σ :=
  (waitWhile channel.txfifoIsFull fuel s).map (channel.txfifoPutData uwData.toUInt16)

def fifoGet (channel : UsicChannel σ) (s : σ) : UInt8 × σ :=
  let answer := channel.rxfifoGetData s
  (answer.1.toUInt8, answer.2)

/-- `_usic_uart_send` -/
def usicUartSend (uart : UsicChannel σ) : Nat → UInt8 → σ → Option σ :=
  fifoSend uart

/-- `_usic_uart_read` -/
def usicUartReceive (uart : UsicChannel σ) (fuel : Nat) (s : σ) : Option (UInt8 × σ) :=
  (waitWhile uart.rxfifoIsEmpty fuel s).map (fifoGet uart)

def usicUartWrite (uart : UsicChannel σ) (fuel : Nat) (uio : Uio) (s : σ) :
    Option (Int32 × Uio × σ) :=
  (sendLoop (usicUartSend uart fuel) uio.base uio.count 0 s).map fun s => (0, drained uio, s)

def usicUartRead (uart : UsicChannel σ) (fuel : Nat) (uio : Uio) (s : σ) :
    Option (Int32 × Uio × σ) :=
  (receiveLoop (fun _ => usicUartReceive uart fuel) uio.count 0 uio.base s).map fun r =>
    (0, { drained uio with base := r.1 }, r.2)

/-- `_usic_i2c_send` -/
def usicI2cSend (i2c : I2cChannel σ) : Nat → UInt8 → σ → Option σ :=
  fifoSend i2c.toUsicChannel

/-- `_usic_i2c_read` -/
def usicI2cReceive (i2c : I2cChannel σ) : σ → UInt8 × σ :=
  fifoGet i2c.toUsicChannel

/-- The wait for the acknowledgement of the address; the number is what is left
of the timeout. -/
def waitAck (i2c : I2cChannel σ) : Nat → σ → σ
  | 0, s => s
  | timeout + 1, s =>
      let answer := i2c.getStatusFlag s
      if answer.1 &&& i2c.ackReceived = 0 then waitAck i2c timeout answer.2 else answer.2

/-- `usic_i2c_write` until its loop: what it waited for makes no difference. -/
def usicI2cAddress (i2c : I2cChannel σ) (vnode : Vnode) (s : σ) : σ :=
  let s := i2c.masterStart vnode.endpt .write s
  i2c.clearStatusFlag i2c.ackReceived (waitAck i2c 200 s)

def usicI2cWrite (i2c : I2cChannel σ) (fuel : Nat) (vnode : Vnode) (uio : Uio) (s : σ) :
    Option (Int32 × Uio × σ) :=
  (sendLoop (usicI2cSend i2c fuel) uio.base uio.count 0 (usicI2cAddress i2c vnode s)).map fun s =>
    (0, drained uio, i2c.masterStop s)

/-- One turn of the loop of `usic_i2c_read`; the last element is not acknowledged. -/
def usicI2cReadElement (i2c : I2cChannel σ) (fuel resid : Nat) (s : σ) : Option (UInt8 × σ) :=
  let s := if resid > 1 then i2c.masterReceiveAck s else i2c.masterReceiveNack s
  let waiting := fun s =>
    let answer := i2c.getStatusFlag s
    (decide (answer.1 &&& i2c.receiveIndication = 0), answer.2)
  (waitWhile waiting fuel s).map fun s =>
    usicI2cReceive i2c (i2c.clearStatusFlag i2c.receiveIndication s)

def usicI2cRead (i2c : I2cChannel σ) (fuel : Nat) (vnode : Vnode) (uio : Uio) (s : σ) :
    Option (Int32 × Uio × σ) :=
  let s := i2c.masterStart vnode.endpt .read s
  (receiveLoop (usicI2cReadElement i2c fuel) uio.count 0 uio.base s).map fun r =>
    (0, { drained uio with base := r.1 }, i2c.masterStop r.2)

def usicSpiWrite (spi : SpiDevice σ) (uio : Uio) (s : σ) : Option (Int32 × Uio × σ) :=
  (sendLoop (fun b s => some (usicSpiSend spi b s)) uio.base uio.count 0 s).map fun s =>
    (0, drained uio, s)

def usicSpiRead (spi : SpiDevice σ) (uio : Uio) (s : σ) : Option (Int32 × Uio × σ) :=
  (receiveLoop (fun _ s => some (usicSpiReceive spi s)) uio.count 0 uio.base s).map fun r =>
    (0, { drained uio with base := r.1 }, r.2)

/-- The transfers that only return 0. -/
def noTransfer (uio : Uio) (s : σ) : Option (Int32 × Uio × σ) :=
  some (0, uio, s)

def ccu4PwmWrite : Uio → σ → Option (Int32 × Uio × σ) := noTransfer
def ccu4PwmRead : Uio → σ → Option (Int32 × Uio × σ) := noTransfer
def hd44780Write : Uio → σ → Option (Int32 × Uio × σ) := noTransfer
def hd44780Read : Uio → σ → Option (Int32 × Uio × σ) := noTransfer
def ds1307RtcWrite : Uio → σ → Option (Int32 × Uio × σ) := noTransfer
def ds1307RtcRead : Uio → σ → Option (Int32 × Uio × σ) := noTransfer

end Drivers

section Dev

variable {σ : Type*} (board : Board σ)

/-- `devices[vnode->dev_id]->d_read` -/
def dRead (fuel : Nat) (vnode : Vnode) (uio : Uio) (s : σ) : Option (Int32 × Uio × σ) :=
  match vnode.devId with
  | .i2c => usicI2cRead board.i2c fuel vnode uio s
  | .spi => usicSpiRead board.spi uio s
  | .uart => usicUartRead board.uart fuel uio s
  | .pwm => ccu4PwmRead uio s
  | .lcd => hd44780Read uio s
  | .mmc => mmcSpiRead board.spi fuel vnode.data vnode.offset uio (board.stack s) s
  | .rtc => ds1307RtcRead uio s

/-- `devices[vnode->dev_id]->d_write` -/
def dWrite (fuel : Nat) (vnode : Vnode) (uio : Uio) (s : σ) : Option (Int32 × Uio × σ) :=
  match vnode.devId with
  | .i2c => usicI2cWrite board.i2c fuel vnode uio s
  | .spi => usicSpiWrite board.spi uio s
  | .uart => usicUartWrite board.uart fuel uio s
  | .pwm => ccu4PwmWrite uio s
  | .lcd => hd44780Write uio s
  | .mmc => mmcSpiWrite board.spi fuel vnode.data vnode.offset uio (board.stack s) s
  | .rtc => ds1307RtcWrite uio s

/-- Returns what it makes of `uio_resid`; the answer of the driver is dropped. -/
def devWrite (fuel : Nat) (vnode : Vnode) (ptr : Nat → UInt8) (count : UInt32) (s : σ) :
    Option (Int32 × σ) :=
  (dWrite board fuel vnode ⟨ptr, count.toInt32, .write⟩ s).map fun r =>
    ((count - r.2.1.resid.toUInt32).toInt32, r.2.2)

/-- The variables of the loop of `dev_read`: the memory at `ptr`, `uio_resid`
and the hardware. -/
structure ReadState (σ : Type*) where
  memory : Nat → UInt8
  resid : Int32
  hardware : σ

def ReadState.start (ptr : Nat → UInt8) (count : UInt32) (s : σ) : ReadState σ :=
  ⟨ptr, count.toInt32, s⟩

/-- `uio_resid > 0` -/
def ReadState.more (state : ReadState σ) : Prop :=
  0 < state.resid

instance : DecidablePred (ReadState.more (σ := σ)) :=
  fun state => inferInstanceAs (Decidable (0 < state.resid))

/-- How many elements were read: `count - uio_resid`. -/
def ReadState.done (state : ReadState σ) (count : UInt32) : Nat :=
  (count - state.resid.toUInt32).toNat

/-- The request of a turn: `iov_base` points to the first element that is left. -/
def ReadState.request (state : ReadState σ) (count : UInt32) : Uio :=
  ⟨fun k => state.memory (state.done count + k), state.resid, .read⟩

def ReadState.after (state : ReadState σ) (count : UInt32) (uio : Uio) (s : σ) : ReadState σ :=
  ⟨fun k => if k < state.done count then state.memory k else uio.base (k - state.done count),
    uio.resid, s⟩

/-- The body of the loop; the answer of the driver is dropped. -/
def readTurn (vnode : Vnode) (count : UInt32) (fuel : Nat) (state : ReadState σ) :
    Option (ReadState σ) :=
  (dRead board fuel vnode (state.request count) state.hardware).map fun r =>
    state.after count r.2.1 r.2.2

def devRead (fuel : Nat) (vnode : Vnode) (ptr : Nat → UInt8) (count : UInt32) (s : σ) :
    Option (Int32 × (Nat → UInt8) × σ) :=
  (loop ReadState.more (readTurn board vnode count) fuel fuel (.start ptr count s)).map
    fun state => ((count - state.resid.toUInt32).toInt32, state.memory, state.hardware)

end Dev

section Stable

variable {σ : Type*}

theorem waitWhile_stable (busy : σ → Bool × σ) (s : σ) :
    Stable (fun fuel => waitWhile busy fuel s) := by
  apply stable_of_succ
  intro fuel
  induction fuel generalizing s with
  | zero => exact nofun
  | succ fuel ih =>
      intro a h
      rw [waitWhile] at h ⊢
      split at h
      · rename_i hbusy
        rw [if_pos hbusy]
        exact ih _ a h
      · rename_i hdone
        rw [if_neg hdone]
        exact h

theorem fifoSend_stable (channel : UsicChannel σ) (b : UInt8) (s : σ) :
    Stable (fun fuel => fifoSend channel fuel b s) :=
  (waitWhile_stable _ _).map _

theorem sendLoop_stable {send : Nat → UInt8 → σ → Option σ}
    (h : ∀ b s, Stable (fun fuel => send fuel b s)) (ptr : Nat → UInt8) (resid i : Nat) (s : σ) :
    Stable (fun fuel => sendLoop (send fuel) ptr resid i s) := by
  induction resid generalizing i s with
  | zero => exact stable_const _
  | succ resid ih =>
      apply (h (ptr i) s).bind
      intro t
      exact ih _ _

theorem receiveLoop_stable {receive : Nat → Nat → σ → Option (UInt8 × σ)}
    (h : ∀ resid s, Stable (fun fuel => receive fuel resid s)) (resid i : Nat)
    (ptr : Nat → UInt8) (s : σ) :
    Stable (fun fuel => receiveLoop (receive fuel) resid i ptr s) := by
  induction resid generalizing i ptr s with
  | zero => exact stable_const _
  | succ resid ih =>
      apply (h (resid + 1) s).bind
      intro answer
      exact ih _ _ _

/-- Where every element arrives, the loop returns. -/
theorem receiveLoop_returns {receive : Nat → Nat → σ → Option (UInt8 × σ)}
    (hstable : ∀ resid s, Stable (fun fuel => receive fuel resid s))
    (h : ∀ resid s, Returns (fun fuel => receive fuel resid s)) (resid i : Nat)
    (ptr : Nat → UInt8) (s : σ) :
    Returns (fun fuel => receiveLoop (receive fuel) resid i ptr s) := by
  induction resid generalizing i ptr s with
  | zero => exact returns_some _
  | succ resid ih =>
      obtain ⟨answer, hanswer⟩ := h (resid + 1) s
      apply (returns_bind (hstable _ s) _).mpr
      · exact ⟨answer, hanswer, ih _ _ _⟩
      · intro answer
        exact receiveLoop_stable hstable _ _ _ _

variable (board : Board σ)

theorem dRead_stable (vnode : Vnode) (uio : Uio) (s : σ) :
    Stable (fun fuel => dRead board fuel vnode uio s) := by
  rcases vnode with ⟨devId, endpt, offset, data⟩
  cases devId with
  | i2c =>
      apply Stable.map
      apply receiveLoop_stable
      intro resid s
      exact (waitWhile_stable _ _).map _
  | uart =>
      apply Stable.map
      apply receiveLoop_stable
      intro _ s
      exact (waitWhile_stable _ _).map _
  | mmc => exact mmcSpiRead_stable _ _ _ _ _
  | spi => exact stable_const _
  | pwm => exact stable_const _
  | lcd => exact stable_const _
  | rtc => exact stable_const _

theorem dWrite_stable (vnode : Vnode) (uio : Uio) (s : σ) :
    Stable (fun fuel => dWrite board fuel vnode uio s) := by
  rcases vnode with ⟨devId, endpt, offset, data⟩
  cases devId with
  | i2c => exact (sendLoop_stable (fifoSend_stable _) _ _ _ _).map _
  | uart => exact (sendLoop_stable (fifoSend_stable _) _ _ _ _).map _
  | mmc => exact mmcSpiWrite_stable _ _ _ _ _
  | spi => exact stable_const _
  | pwm => exact stable_const _
  | lcd => exact stable_const _
  | rtc => exact stable_const _

theorem readTurn_stable (vnode : Vnode) (count : UInt32) (state : ReadState σ) :
    Stable (fun fuel => readTurn board vnode count fuel state) :=
  (dRead_stable board vnode _ _).map _

/-- A larger bound changes no answer of the two functions. -/
theorem devWrite_stable (vnode : Vnode) (ptr : Nat → UInt8) (count : UInt32) (s : σ) :
    Stable (fun fuel => devWrite board fuel vnode ptr count s) :=
  (dWrite_stable board vnode _ _).map _

theorem devRead_stable (vnode : Vnode) (ptr : Nat → UInt8) (count : UInt32) (s : σ) :
    Stable (fun fuel => devRead board fuel vnode ptr count s) :=
  (loop_stable (readTurn_stable board vnode count) _).map _

end Stable

section Request

variable {ptr : Nat → UInt8} {count : UInt32}

theorem count_toInt (hcount : count.toNat < 2 ^ 31) : count.toInt32.toInt = count.toNat := by
  rw [← Int32.toInt_toBitVec, UInt32.toBitVec_toInt32, BitVec.toInt_eq_toNat_of_lt]
  · rw [UInt32.toNat_toBitVec]
  · rw [UInt32.toNat_toBitVec]
    omega

/-- The request of `dev_write` has as many elements as it was asked for. -/
theorem request_count {rw : UioRw} (hcount : count.toNat < 2 ^ 31) :
    Uio.count ⟨ptr, count.toInt32, rw⟩ = count.toNat := by
  rw [Uio.count, count_toInt hcount, Int.toNat_natCast]

theorem drained_request {rw : UioRw} (hcount : count.toNat < 2 ^ 31) :
    (drained ⟨ptr, count.toInt32, rw⟩).resid = 0 := by
  rw [drained]
  split
  · rfl
  · rename_i hdone
    apply Int32.toInt_inj.mp
    rw [Int32.lt_iff_toInt_lt, count_toInt hcount] at hdone
    rw [count_toInt hcount]
    change ¬ (0 : Int) < _ at hdone
    change _ = (0 : Int)
    omega

end Request

section Spi

variable {σ : Type*} {board : Board σ} {vnode : Vnode} {ptr : Nat → UInt8} {count : UInt32} {s : σ}

theorem sendLoop_spi (spi : SpiDevice σ) (resid i : Nat) (s : σ) :
    sendLoop (fun b s => some (usicSpiSend spi b s)) ptr resid i s =
      some (PascalScheduler.devWrite spi ptr resid i s) := by
  induction resid generalizing i s with
  | zero => rfl
  | succ resid ih =>
      rw [sendLoop, Option.bind_some, ih]
      rfl

theorem receiveLoop_spi (spi : SpiDevice σ) (resid i : Nat) (ptr : Nat → UInt8) (s : σ) :
    receiveLoop (fun _ s => some (usicSpiReceive spi s)) resid i ptr s =
      some (PascalScheduler.devRead spi resid i ptr s) := by
  induction resid generalizing i ptr s with
  | zero => rfl
  | succ resid ih =>
      rw [receiveLoop, Option.bind_some, ih]
      rfl

/-- `dev_write` to the SPI node is what the MMC driver takes it for. -/
theorem devWrite_spi (hdev : vnode.devId = .spi) (hcount : count.toNat < 2 ^ 31) (fuel : Nat) :
    devWrite board fuel vnode ptr count s =
      some (count.toInt32, PascalScheduler.devWrite board.spi ptr count.toNat 0 s) := by
  have hzero : (0 : Int32).toUInt32 = 0 := rfl
  simp only [devWrite, dWrite, hdev, usicSpiWrite, sendLoop_spi, Option.map_some,
    drained_request hcount, request_count hcount, hzero, UInt32.sub_zero]

theorem not_more {state : ReadState σ} (h : state.resid = 0) : ¬ state.more := by
  rw [ReadState.more, h]
  decide

theorem start_done (ptr : Nat → UInt8) (count : UInt32) (s : σ) :
    (ReadState.start ptr count s).done count = 0 := by
  rw [ReadState.done, ReadState.start, UInt32.toUInt32_toInt32, UInt32.sub_self]
  rfl

theorem start_request (ptr : Nat → UInt8) (count : UInt32) (s : σ) :
    (ReadState.start ptr count s).request count = ⟨ptr, count.toInt32, .read⟩ := by
  simp only [ReadState.request, start_done, Nat.zero_add]
  rfl

theorem start_after (ptr : Nat → UInt8) (count : UInt32) (uio : Uio) (s t : σ) :
    (ReadState.start ptr count s).after count uio t = ⟨uio.base, uio.resid, t⟩ := by
  simp only [ReadState.after, start_done, Nat.not_lt_zero, if_false, Nat.sub_zero]

/-- So is `dev_read`, whose loop turns at most once. -/
theorem devRead_spi (hdev : vnode.devId = .spi) (hcount : count.toNat < 2 ^ 31) :
    devRead board 2 vnode ptr count s =
      some (count.toInt32, PascalScheduler.devRead board.spi count.toNat 0 ptr s) := by
  have hzero : (0 : Int32).toUInt32 = 0 := rfl
  by_cases hmore : (ReadState.start ptr count s).more
  · have hcall : dRead board 2 vnode ⟨ptr, count.toInt32, .read⟩ s =
        some (0, { drained ⟨ptr, count.toInt32, .read⟩ with
          base := (PascalScheduler.devRead board.spi count.toNat 0 ptr s).1 },
          (PascalScheduler.devRead board.spi count.toNat 0 ptr s).2) := by
      simp only [dRead, hdev, usicSpiRead, receiveLoop_spi, Option.map_some,
        request_count hcount]
    have hturn : readTurn board vnode count 2 (.start ptr count s) =
        some ⟨(PascalScheduler.devRead board.spi count.toNat 0 ptr s).1, 0,
          (PascalScheduler.devRead board.spi count.toNat 0 ptr s).2⟩ := by
      rw [readTurn, start_request]
      simp only [ReadState.start, hcall, Option.map_some]
      rw [← ReadState.start, start_after]
      simp only [drained_request hcount]
    rw [devRead, loop, if_pos hmore, hturn, Option.bind_some, loop, if_neg (not_more rfl)]
    simp only [Option.map_some, hzero, UInt32.sub_zero]
  · have hnone : count = 0 := by
      rw [ReadState.more, ReadState.start, Int32.lt_iff_toInt_lt, count_toInt hcount] at hmore
      change ¬ (0 : Int) < _ at hmore
      apply UInt32.toNat_inj.mp
      change _ = 0
      omega
    subst hnone
    rw [devRead, loop, if_neg hmore]
    simp only [Option.map_some, ReadState.start, UInt32.toUInt32_toInt32, UInt32.sub_self]
    rfl

end Spi

end PascalScheduler.Sys
