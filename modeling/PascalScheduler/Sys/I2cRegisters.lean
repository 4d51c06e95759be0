import PascalScheduler.Sys.DevRead

/-!
A chip with registers at the other end of the I2C bus, as `dev_write` and
`dev_read` reach it. What the vendor library does to the bus is a parameter that
carries the bytes of the driver to the chip and back.
-/

namespace PascalScheduler.Sys

open Fuel

/-- The first byte written after a start sets the register pointer and the
others are stored from there on; reads go on from it. `answer` is the byte sent
last, and `received` are all bytes written so far. -/
structure RegisterChip where
  registers : Nat → UInt8
  pointer : Nat
  addressing : Bool
  answer : UInt8
  received : List UInt8

namespace RegisterChip

def start (cmd : I2cCmd) (chip : RegisterChip) : RegisterChip :=
  match cmd with
  | .write => { chip with addressing := true }
  | .read => { chip with addressing := false }

def take (b : UInt8) (chip : RegisterChip) : RegisterChip :=
  let chip := { chip with received := chip.received ++ [b] }
  if chip.addressing then { chip with pointer := b.toNat, addressing := false }
  else
    { chip with
      registers := Function.update chip.registers chip.pointer b
      pointer := chip.pointer + 1 }

def takeAll (bytes : List UInt8) (chip : RegisterChip) : RegisterChip :=
  bytes.foldl (fun chip b => chip.take b) chip

def send (chip : RegisterChip) : RegisterChip :=
  { chip with answer := chip.registers chip.pointer, pointer := chip.pointer + 1 }

theorem takeAll_cons (b : UInt8) (bytes : List UInt8) (chip : RegisterChip) :
    chip.takeAll (b :: bytes) = (chip.take b).takeAll bytes := rfl

theorem takeAll_received (bytes : List UInt8) (chip : RegisterChip) :
    (chip.takeAll bytes).received = chip.received ++ bytes := by
  induction bytes generalizing chip with
  | nil => simp [takeAll]
  | cons b bytes ih =>
      have hone : (chip.take b).received = chip.received ++ [b] := by
        simp only [take]
        split <;> rfl
      rw [takeAll_cons, ih, hone, List.append_assoc, List.singleton_append]

/-- Bytes behind the register pointer are stored from it on. -/
theorem takeAll_registers (bytes : List UInt8) (chip : RegisterChip)
    (h : chip.addressing = false) (k : Nat) :
    (chip.takeAll bytes).registers k =
      if chip.pointer ≤ k ∧ k < chip.pointer + bytes.length then
        bytes.getD (k - chip.pointer) 0
      else chip.registers k := by
  induction bytes generalizing chip with
  | nil =>
      rw [if_neg (by simp)]
      rfl
  | cons b bytes ih =>
      have hone : chip.take b =
          { chip with
            received := chip.received ++ [b]
            registers := Function.update chip.registers chip.pointer b
            pointer := chip.pointer + 1 } := by
        simp [take, h]
      have hrest := ih (chip.take b) (by rw [hone]; exact h)
      rw [takeAll_cons, hrest, hone, List.length_cons]
      dsimp only
      by_cases hfirst : k = chip.pointer
      · subst hfirst
        rw [if_neg (by omega), if_pos (by omega), Function.update_self, Nat.sub_self]
        rfl
      · rw [Function.update_of_ne hfirst]
        by_cases hlater : chip.pointer < k
        · obtain ⟨d, hd⟩ : ∃ d, k - chip.pointer = d + 1 := ⟨k - chip.pointer - 1, by omega⟩
          rw [hd, List.getD_cons_succ, show k - (chip.pointer + 1) = d by omega]
          congr 1
          exact propext (by omega)
        · rw [if_neg (by omega), if_neg (by omega)]

end RegisterChip

/-- The indication of a received word has been read, and cleared. -/
def Arrived {σ : Type*} (i2c : I2cChannel σ) (t : σ) : Prop :=
  ∃ s, (i2c.getStatusFlag s).1 &&& i2c.receiveIndication ≠ 0 ∧
    t = i2c.clearStatusFlag i2c.receiveIndication (i2c.getStatusFlag s).2

/-- The channel carries bytes between the driver and a chip at `address`; `chip`
is the chip once the transmit queue is empty. The queue takes a byte when it was
not full, and empties. A byte that is asked for arrives, and then it is the
chip's. The commands of the master are carried too: the driver does not ask for
room before them. -/
structure Carries {σ : Type*} (i2c : I2cChannel σ) (address : Int32) (chip : σ → RegisterChip) :
    Prop where
  full : ∀ s, chip (i2c.txfifoIsFull s).2 = chip s
  drains : ∀ s, Returns fun fuel => waitWhile i2c.txfifoIsFull fuel s
  put : ∀ w s t, i2c.txfifoIsFull s = (false, t) →
    chip (i2c.txfifoPutData w t) = (chip t).take w.toUInt8
  start : ∀ cmd s, chip (i2c.masterStart address cmd s) = (chip s).start cmd
  stop : ∀ s, chip (i2c.masterStop s) = chip s
  status : ∀ s, chip (i2c.getStatusFlag s).2 = chip s
  clear : ∀ flags s, chip (i2c.clearStatusFlag flags s) = chip s
  ack : ∀ s, chip (i2c.masterReceiveAck s) = (chip s).send
  nack : ∀ s, chip (i2c.masterReceiveNack s) = (chip s).send
  arrives : ∀ resid s, Returns fun fuel => usicI2cReadElement i2c fuel resid s
  get : ∀ t, Arrived i2c t → (i2c.rxfifoGetData t).1.toUInt8 = (chip t).answer ∧
    chip (i2c.rxfifoGetData t).2 = chip t

section Transfers

variable {σ : Type*} {board : Board σ} {i2c : I2cChannel σ} {address : Int32}
  {chip : σ → RegisterChip}

/-- Waiting changes only what the polled flag may change. -/
theorem waitWhile_keeps {β : Type*} {view : σ → β} {busy : σ → Bool × σ}
    (h : ∀ s, view (busy s).2 = view s) {fuel : Nat} {s t : σ}
    (hwait : waitWhile busy fuel s = some t) : view t = view s := by
  induction fuel generalizing s with
  | zero => cases hwait
  | succ fuel ih =>
      rw [waitWhile] at hwait
      split at hwait
      · rw [ih hwait, h]
      · rw [← Option.some.inj hwait, h]

/-- The wait ends when the flag is polled clear. -/
theorem waitWhile_last {busy : σ → Bool × σ} {fuel : Nat} {s t : σ}
    (hwait : waitWhile busy fuel s = some t) : ∃ u, busy u = (false, t) := by
  induction fuel generalizing s with
  | zero => cases hwait
  | succ fuel ih =>
      rw [waitWhile] at hwait
      split at hwait
      · exact ih hwait
      · rename_i hdone
        refine ⟨s, ?_⟩
        rw [← Option.some.inj hwait]
        exact Prod.ext (Bool.eq_false_iff.mpr hdone) rfl

theorem waitAck_keeps (h : Carries i2c address chip) (timeout : Nat) (s : σ) :
    chip (waitAck i2c timeout s) = chip s := by
  induction timeout generalizing s with
  | zero => rfl
  | succ timeout ih =>
      rw [waitAck]
      split
      · rw [ih, h.status]
      · exact h.status s

theorem send_takes (h : Carries i2c address chip) (b : UInt8) (s : σ) :
    ∃ t, Ends (fun fuel => usicI2cSend i2c fuel b s) t ∧ chip t = (chip s).take b := by
  obtain ⟨waited, hwaited⟩ := h.drains s
  refine ⟨i2c.txfifoPutData b.toUInt16 waited, ends_map.mpr ⟨waited, hwaited, rfl⟩, ?_⟩
  obtain ⟨fuel, hfuel⟩ := hwaited
  obtain ⟨polled, hpolled⟩ := waitWhile_last hfuel
  rw [h.put _ _ _ hpolled, waitWhile_keeps h.full hfuel, UInt8.toUInt8_toUInt16]

/-- The loop of a write hands its bytes to the chip in order. -/
theorem sendLoop_takes (h : Carries i2c address chip) (ptr : Nat → UInt8) (resid i : Nat)
    (s : σ) :
    ∃ t, Ends (fun fuel => sendLoop (usicI2cSend i2c fuel) ptr resid i s) t ∧
      chip t = (chip s).takeAll ((List.range' i resid).map ptr) := by
  induction resid generalizing i s with
  | zero => exact ⟨s, ends_some.mpr rfl, rfl⟩
  | succ resid ih =>
      obtain ⟨sent, hsent, hchip⟩ := send_takes h (ptr i) s
      obtain ⟨t, hrest, hlast⟩ := ih (i + 1) sent
      refine ⟨t, ?_, ?_⟩
      · apply (ends_bind (fifoSend_stable _ _ _) _).mpr ⟨sent, hsent, hrest⟩
        exact fun u => sendLoop_stable (fifoSend_stable _) _ _ _ _
      · rw [hlast, hchip, List.range'_succ, List.map_cons, RegisterChip.takeAll_cons]

/-- `dev_write` to the I2C node. -/
theorem devWrite_takes (h : Carries board.i2c address chip) (vnode : Vnode) (ptr : Nat → UInt8)
    (count : UInt32) (hdev : vnode.devId = .i2c) (haddress : vnode.endpt = address)
    (hcount : count.toNat < 2 ^ 31) (s : σ) :
    ∃ t, Ends (fun fuel => devWrite board fuel vnode ptr count s) (count.toInt32, t) ∧
      chip t = ((chip s).start .write).takeAll ((List.range count.toNat).map ptr) := by
  obtain ⟨sent, hsent, hchip⟩ := sendLoop_takes h ptr count.toNat 0
    (usicI2cAddress board.i2c vnode s)
  refine ⟨board.i2c.masterStop sent, ?_, ?_⟩
  · have hzero : (0 : Int32).toUInt32 = 0 := rfl
    simp only [devWrite, dWrite, hdev, usicI2cWrite, request_count hcount, ends_map]
    refine ⟨_, ⟨sent, hsent, rfl⟩, ?_⟩
    rw [drained_request hcount, hzero, UInt32.sub_zero]
  · rw [h.stop, hchip, List.range_eq_range', usicI2cAddress, h.clear, waitAck_keeps h, haddress,
      h.start]

/-- A turn of a read takes its byte after one has arrived; the wait changes only
what polling and clearing the indication change. -/
theorem readElement_arrived {β : Type*} {view : σ → β}
    (hstatus : ∀ s, view (i2c.getStatusFlag s).2 = view s)
    (hclear : ∀ flags s, view (i2c.clearStatusFlag flags s) = view s) {fuel resid : Nat} {s : σ}
    {r : UInt8 × σ} (hread : usicI2cReadElement i2c fuel resid s = some r) :
    ∃ t, Arrived i2c t ∧ r = usicI2cReceive i2c t ∧
      view t = view (if resid > 1 then i2c.masterReceiveAck s else i2c.masterReceiveNack s) := by
  obtain ⟨waited, hwaited, rfl⟩ := Option.map_eq_some_iff.mp hread
  obtain ⟨polled, hpolled⟩ := waitWhile_last hwaited
  have hkept := waitWhile_keeps hstatus hwaited
  simp only [Prod.mk.injEq, decide_eq_false_iff_not] at hpolled
  obtain ⟨hflag, rfl⟩ := hpolled
  exact ⟨_, ⟨polled, hflag, rfl⟩, rfl, (hclear _ _).trans hkept⟩

theorem readElement_sends (h : Carries i2c address chip) (resid : Nat) (s : σ) :
    ∃ r, Ends (fun fuel => usicI2cReadElement i2c fuel resid s) r ∧
      r.1 = (chip s).registers (chip s).pointer ∧ chip r.2 = (chip s).send := by
  obtain ⟨r, fuel, hfuel⟩ := h.arrives resid s
  refine ⟨r, ⟨fuel, hfuel⟩, ?_⟩
  obtain ⟨t, harrived, rfl, hkept⟩ := readElement_arrived h.status h.clear hfuel
  have hasked : chip t = (chip s).send := by
    rw [hkept]
    split
    · exact h.ack s
    · exact h.nack s
  obtain ⟨hbyte, hleft⟩ := h.get t harrived
  rw [hasked] at hbyte hleft
  exact ⟨hbyte, hleft⟩

/-- The loop of a read fetches the registers from the pointer on. -/
theorem receiveLoop_sends (h : Carries i2c address chip) (resid i : Nat) (ptr : Nat → UInt8)
    (s : σ) :
    ∃ r, Ends (fun fuel => receiveLoop (usicI2cReadElement i2c fuel) resid i ptr s) r ∧
      (∀ k, k < i → r.1 k = ptr k) ∧
      (∀ k, k < resid → r.1 (i + k) = (chip s).registers ((chip s).pointer + k)) := by
  induction resid generalizing i ptr s with
  | zero => exact ⟨(ptr, s), ends_some.mpr rfl, fun _ _ => rfl, nofun⟩
  | succ resid ih =>
      obtain ⟨first, hfirst, hbyte, hchip⟩ := readElement_sends h (resid + 1) s
      obtain ⟨r, hrest, hbelow, hread⟩ := ih (i + 1) (Function.update ptr i first.1) first.2
      refine ⟨r, ?_, ?_, ?_⟩
      · have hstable : ∀ resid s, Stable fun fuel => usicI2cReadElement i2c fuel resid s :=
          fun _ _ => (waitWhile_stable _ _).map _
        apply (ends_bind (hstable _ s) _).mpr ⟨first, hfirst, hrest⟩
        exact fun u => receiveLoop_stable hstable _ _ _ _
      · intro k hk
        rw [hbelow k (by omega), Function.update_of_ne (by omega)]
      · intro k hk
        cases k with
        | zero => rw [Nat.add_zero, hbelow i (by omega), Function.update_self, hbyte, Nat.add_zero]
        | succ k =>
            have hnext := hread k (by omega)
            rw [hchip] at hnext
            rw [show i + (k + 1) = i + 1 + k by omega, hnext]
            change (chip s).registers ((chip s).pointer + 1 + k) = _
            congr 1
            omega

/-- `dev_read` from the I2C node. -/
theorem devRead_sends (h : Carries board.i2c address chip) (vnode : Vnode) (ptr : Nat → UInt8)
    (count : UInt32) (hdev : vnode.devId = .i2c) (haddress : vnode.endpt = address)
    (hcount : count.toNat < 2 ^ 31) (hpos : 0 < count.toInt32) (s : σ) :
    ∃ r, Ends (fun fuel => devRead board fuel vnode ptr count s) (count.toInt32, r) ∧
      ∀ k, k < count.toNat → r.1 k = (chip s).registers ((chip s).pointer + k) := by
  obtain ⟨r, hloop, _, hread⟩ := receiveLoop_sends h count.toNat 0 ptr
    (board.i2c.masterStart vnode.endpt .read s)
  have hzero : (0 : Int32).toUInt32 = 0 := rfl
  have hcall : Ends (fun fuel => dRead board fuel vnode ⟨ptr, count.toInt32, .read⟩ s)
      (0, { drained ⟨ptr, count.toInt32, .read⟩ with base := r.1 }, board.i2c.masterStop r.2) := by
    simp only [dRead, hdev, usicI2cRead, request_count hcount, ends_map]
    exact ⟨r, hloop, rfl⟩
  have hturn : Ends (fun fuel => readTurn board vnode count fuel (.start ptr count s))
      ⟨r.1, 0, board.i2c.masterStop r.2⟩ := by
    simp only [readTurn, start_request, ends_map]
    refine ⟨_, hcall, ?_⟩
    rw [start_after]
    simp only [drained_request hcount]
  refine ⟨(r.1, board.i2c.masterStop r.2), ?_, ?_⟩
  · simp only [devRead, ends_map]
    have hturns := Turns.turn (show (ReadState.start ptr count s).more from hpos) hturn (.refl _)
    refine ⟨_, (loop_ends (readTurn_stable board vnode count)).mpr ⟨hturns, not_more rfl⟩, ?_⟩
    simp only [hzero, UInt32.sub_zero]
  · intro k hk
    have hbyte := hread k hk
    rw [haddress, h.start, Nat.zero_add] at hbyte
    exact hbyte

end Transfers

/-- What a word in the transmit queue of a master asks for. -/
inductive I2cWord where
  | start (device : Int32) (cmd : I2cCmd)
  | byte (b : UInt8)
  | receive
  | stop

namespace I2cWord

/-- What the chip at `address` makes of a word. -/
def carry (address : Int32) (chip : RegisterChip) : I2cWord → RegisterChip
  | .start device cmd => if device = address then chip.start cmd else chip
  | .byte b => chip.take b
  | .receive => chip.send
  | .stop => chip

def isReceive : I2cWord → Bool
  | .receive => true
  | _ => false

end I2cWord

/-- A bus with one chip on it, the words that have not left the queue yet, and the
indication of a received word. -/
structure RegisterBus where
  chip : RegisterChip
  txfifo : List I2cWord
  indicated : Bool

namespace RegisterBus

variable (address : Int32)

/-- The chip once the queue is empty. -/
def settled (bus : RegisterBus) : RegisterChip :=
  bus.txfifo.foldl (I2cWord.carry address) bus.chip

/-- The queue has been sent. -/
def flush (bus : RegisterBus) : RegisterBus where
  chip := bus.settled address
  txfifo := []
  indicated := bus.indicated || bus.txfifo.any I2cWord.isReceive

/-- A command: a full queue has been sent by then. -/
def command (word : I2cWord) (bus : RegisterBus) : RegisterBus :=
  let bus := if bus.txfifo.length < txfifoSize then bus else bus.flush address
  { bus with txfifo := bus.txfifo ++ [word] }

theorem command_settled (word : I2cWord) (bus : RegisterBus) :
    (bus.command address word).settled address = word.carry address (bus.settled address) := by
  rw [command]
  split
  · exact List.foldl_append
  · rfl

theorem command_receive (bus : RegisterBus) :
    ((bus.command address .receive).flush address).indicated = true := by
  simp [command, flush, I2cWord.isReceive]

end RegisterBus

/-- A master with a queue of 16 words: when it is polled full, or its flags are
read, it has been sent by the next poll. A byte that is put into a full queue is
lost. -/
def registerChannel (address : Int32) : I2cChannel RegisterBus where
  txfifoIsFull bus :=
    if bus.txfifo.length < txfifoSize then (false, bus) else (true, bus.flush address)
  txfifoPutData w bus :=
    if bus.txfifo.length < txfifoSize then
      { bus with txfifo := bus.txfifo ++ [.byte w.toUInt8] }
    else bus
  rxfifoIsEmpty bus := (!bus.indicated, bus)
  rxfifoGetData bus := (bus.chip.answer.toUInt16, bus)
  masterStart device cmd := RegisterBus.command address (.start device cmd)
  masterReceiveAck := RegisterBus.command address .receive
  masterReceiveNack := RegisterBus.command address .receive
  masterStop := RegisterBus.command address .stop
  getStatusFlag bus :=
    let bus := bus.flush address
    (if bus.indicated then 3 else 1, bus)
  clearStatusFlag flags bus :=
    { bus with indicated := bus.indicated && decide (flags &&& 2 = 0) }
  ackReceived := 1
  receiveIndication := 2

theorem registerChannel_carries (address : Int32) :
    Carries (registerChannel address) address (RegisterBus.settled address) where
  full bus := by
    simp only [registerChannel]
    split <;> rfl
  drains bus := by
    by_cases hroom : bus.txfifo.length < txfifoSize
    · exact ⟨bus, 1, by simp [waitWhile, registerChannel, hroom]⟩
    · refine ⟨bus.flush address, 2, ?_⟩
      simp [waitWhile, registerChannel, hroom, RegisterBus.flush, show 0 < txfifoSize by decide]
  put w s t hpoll := by
    by_cases hroom : s.txfifo.length < txfifoSize
    · simp only [registerChannel, hroom, if_true, Prod.mk.injEq, true_and] at hpoll
      subst hpoll
      simp only [registerChannel, hroom, if_true]
      exact List.foldl_append
    · simp [registerChannel, hroom] at hpoll
  start cmd bus := (RegisterBus.command_settled _ _ _).trans (if_pos rfl)
  stop bus := RegisterBus.command_settled _ _ _
  status _ := rfl
  clear _ _ := rfl
  ack bus := RegisterBus.command_settled _ _ _
  nack bus := RegisterBus.command_settled _ _ _
  arrives resid bus := by
    have hasked : (if resid > 1 then (registerChannel address).masterReceiveAck bus
        else (registerChannel address).masterReceiveNack bus) =
          bus.command address .receive := ite_self _
    have hflag := RegisterBus.command_receive address bus
    refine ⟨usicI2cReceive (registerChannel address) ((registerChannel address).clearStatusFlag 2
      ((bus.command address .receive).flush address)), 1, ?_⟩
    simp only [usicI2cReadElement, hasked]
    simp [waitWhile, registerChannel, hflag, show ¬ (3 : UInt32) &&& 2 = 0 by decide]
  get t harrived := by
    obtain ⟨s, _, rfl⟩ := harrived
    exact ⟨UInt8.toUInt8_toUInt16 _, rfl⟩

end PascalScheduler.Sys
