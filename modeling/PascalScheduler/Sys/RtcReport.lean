import PascalScheduler.Sys.Console
import PascalScheduler.Sys.Rtc

/-!
`uart_task` of `main.c`: it sets the clock, and then reads and prints it over and
over. The clock is a chip on the I2C bus and the text goes out on the UART; each
transfer leaves the other device alone. The mutex and the yield of a turn are the
kernel's part.
-/

namespace PascalScheduler.Sys

open Fuel

section Keeps

variable {σ β : Type*}

/-- What a write to the queue of a channel leaves alone. -/
structure SendKeeps (channel : UsicChannel σ) (view : σ → β) : Prop where
  full : ∀ s, view (channel.txfifoIsFull s).2 = view s
  put : ∀ w s, view (channel.txfifoPutData w s) = view s

/-- What the I2C driver leaves alone around its transfers with `address`, and when
it reads. -/
structure MasterKeeps (i2c : I2cChannel σ) (address : Int32) (view : σ → β) : Prop where
  start : ∀ cmd s, view (i2c.masterStart address cmd s) = view s
  stop : ∀ s, view (i2c.masterStop s) = view s
  status : ∀ s, view (i2c.getStatusFlag s).2 = view s
  clear : ∀ flags s, view (i2c.clearStatusFlag flags s) = view s
  ack : ∀ s, view (i2c.masterReceiveAck s) = view s
  nack : ∀ s, view (i2c.masterReceiveNack s) = view s
  get : ∀ t, Arrived i2c t → view (i2c.rxfifoGetData t).2 = view t

variable {view : σ → β} {i2c : I2cChannel σ} {address : Int32}

theorem fifoSend_keeps {channel : UsicChannel σ} (h : SendKeeps channel view) {fuel : Nat}
    {b : UInt8} {s t : σ} (hsend : fifoSend channel fuel b s = some t) : view t = view s := by
  obtain ⟨waited, hwaited, rfl⟩ := Option.map_eq_some_iff.mp hsend
  rw [h.put, waitWhile_keeps h.full hwaited]

theorem sendLoop_keeps {send : UInt8 → σ → Option σ}
    (h : ∀ b s t, send b s = some t → view t = view s) {ptr : Nat → UInt8} {resid i : Nat}
    {s t : σ} (hloop : sendLoop send ptr resid i s = some t) : view t = view s := by
  induction resid generalizing i s with
  | zero => rw [← Option.some.inj hloop]
  | succ resid ih =>
      obtain ⟨first, hfirst, hrest⟩ := Option.bind_eq_some_iff.mp hloop
      rw [ih hrest, h _ _ _ hfirst]

theorem receiveLoop_keeps {receive : Nat → σ → Option (UInt8 × σ)}
    (h : ∀ resid s r, receive resid s = some r → view r.2 = view s) {resid i : Nat}
    {ptr : Nat → UInt8} {s : σ} {r : (Nat → UInt8) × σ}
    (hloop : receiveLoop receive resid i ptr s = some r) : view r.2 = view s := by
  induction resid generalizing i ptr s with
  | zero => rw [← Option.some.inj hloop]
  | succ resid ih =>
      obtain ⟨answer, hanswer, hrest⟩ := Option.bind_eq_some_iff.mp hloop
      rw [ih hrest, h _ _ _ hanswer]

theorem address_keeps {vnode : Vnode} (h : MasterKeeps i2c vnode.endpt view) (s : σ) :
    view (usicI2cAddress i2c vnode s) = view s := by
  have hwait : ∀ timeout s, view (waitAck i2c timeout s) = view s := by
    intro timeout
    induction timeout with
    | zero => exact fun _ => rfl
    | succ timeout ih =>
        intro s
        rw [waitAck]
        split
        · rw [ih, h.status]
        · exact h.status s
  rw [usicI2cAddress, h.clear, hwait, h.start]

theorem readElement_keeps (h : MasterKeeps i2c address view) {fuel resid : Nat} {s : σ}
    {r : UInt8 × σ} (hread : usicI2cReadElement i2c fuel resid s = some r) : view r.2 = view s := by
  obtain ⟨t, harrived, rfl, hkept⟩ := readElement_arrived h.status h.clear hread
  have hasked : view t = view s := by
    rw [hkept]
    split
    · exact h.ack s
    · exact h.nack s
  exact (h.get t harrived).trans hasked

variable {board : Board σ} {vnode : Vnode} {ptr : Nat → UInt8} {count : UInt32} {s : σ}

theorem i2cWrite_keeps (hdev : vnode.devId = .i2c)
    (hsend : SendKeeps board.i2c.toUsicChannel view)
    (hmaster : MasterKeeps board.i2c vnode.endpt view) {r : Int32 × σ}
    (hwrite : Ends (fun fuel => devWrite board fuel vnode ptr count s) r) :
    view r.2 = view s := by
  obtain ⟨fuel, hfuel⟩ := hwrite
  simp only [devWrite, dWrite, hdev, usicI2cWrite, Option.map_map] at hfuel
  obtain ⟨sent, hsent, rfl⟩ := Option.map_eq_some_iff.mp hfuel
  have hloop : view sent = view (usicI2cAddress board.i2c vnode s) :=
    sendLoop_keeps (fun _ _ _ => fifoSend_keeps hsend) hsent
  exact (hmaster.stop sent).trans (hloop.trans (address_keeps hmaster s))

theorem i2cRead_keeps (hdev : vnode.devId = .i2c) (h : MasterKeeps board.i2c vnode.endpt view)
    {r : Int32 × (Nat → UInt8) × σ}
    (hread : Ends (fun fuel => devRead board fuel vnode ptr count s) r) :
    view r.2.2 = view s := by
  obtain ⟨last, hlast, rfl⟩ := ends_map.mp hread
  obtain ⟨hturns, _⟩ := (loop_ends (readTurn_stable board vnode count)).mp hlast
  apply hturns.invariant (P := fun state => view state.hardware = view s) rfl
  rintro a b ha - ⟨fuel, hfuel⟩
  rw [← ha]
  simp only [readTurn, dRead, hdev, usicI2cRead, Option.map_map] at hfuel
  obtain ⟨received, hreceived, rfl⟩ := Option.map_eq_some_iff.mp hfuel
  have hloop : view received.2 = view (board.i2c.masterStart vnode.endpt .read a.hardware) :=
    receiveLoop_keeps (fun _ _ _ => readElement_keeps h) hreceived
  exact (h.stop received.2).trans (hloop.trans (h.start _ _))

theorem sysWrite_keeps (h : SendKeeps board.uart view) {frame : σ → Vnode} {file len : Int32}
    {fuel : Nat} {s : Process σ} {r : Int32 × Process σ}
    (hwrite : sysWrite board frame fuel file ptr len s = some r) :
    view r.2.hardware = view s.hardware := by
  rw [sysWrite] at hwrite
  split at hwrite
  · simp only [devWrite, dWrite, uartVnode, usicUartWrite, Option.map_map] at hwrite
    obtain ⟨sent, hsent, rfl⟩ := Option.map_eq_some_iff.mp hwrite
    exact sendLoop_keeps (fun _ _ _ => fifoSend_keeps h) hsent
  · rw [← Option.some.inj hwrite]

theorem printf_keeps (h : SendKeeps board.uart view) {frame : σ → Vnode} {args : Arguments}
    {fmt : CString} {bf : Nat → UInt8} {s : Process σ} {r : Int32 × Process σ}
    (hprint : Ends (fun fuel => printf board frame fuel args fmt bf s) r) :
    view r.2.hardware = view s.hardware := by
  obtain ⟨fuel, hfuel⟩ := hprint
  have hcalls : ∀ cs s t, callAll (cbPrintf board frame fuel) cs s = some t →
      view t.hardware = view s.hardware := by
    intro cs
    induction cs with
    | nil =>
        intro s t hcall
        rw [← Option.some.inj hcall]
    | cons c cs ih =>
        intro s t hcall
        obtain ⟨first, hfirst, hrest⟩ := Option.bind_eq_some_iff.mp hcall
        obtain ⟨written, hwritten, rfl⟩ := Option.map_eq_some_iff.mp hfirst
        rw [ih _ _ hrest, sysWrite_keeps h hwritten]
  obtain ⟨last, hlast, hresult⟩ := Option.bind_eq_some_iff.mp hfuel
  obtain ⟨_, _, rfl⟩ := Option.map_eq_some_iff.mp hresult
  exact hcalls _ _ _ hlast

end Keeps

/-- The format of `RTC_print`. -/
def rtcFormat : CString where
  chars := "RTC reports : %d/%d/%d %d:%d:%d!\n".toList.map Char.toUInt8
  noNul := by decide +kernel

/-- The fields that `RTC_print` passes. -/
def rtcArguments (myRtc : Tm) : Arguments where
  word k := ([myRtc.tmMday, myRtc.tmMon, myRtc.tmYear, myRtc.tmHour, myRtc.tmMin,
    myRtc.tmSec].getD k 0).toUInt32
  string _ := ⟨[], noNul_nil⟩

/-- The time that `uart_task` sets. -/
def uartTaskTime : Tm where
  tmMday := 17
  tmMon := 6
  tmYear := 16
  tmHour := 14
  tmMin := 53
  tmSec := 0

/-- What the task works on: `myRTC` and `i2c_node`. -/
structure UartTask (σ : Type*) where
  myRtc : Tm
  i2cNode : Vnode
  process : Process σ

section Task

variable {σ : Type*} (board : Board σ) (frame : σ → Vnode)

/-- `dev_ioctl` on `rtc_node` with `myRTC`. -/
def rtcIoctl (fuel : Nat) (code : UInt8) (s : UartTask σ) : Option (UartTask σ) :=
  (ds1307RtcIoctl board fuel code (board.stack s.process.hardware) s.myRtc s.i2cNode
    s.process.hardware).map fun r => ⟨r.2.1, r.2.2.1, { s.process with hardware := r.2.2.2 }⟩

/-- `RTC_update` -/
def rtcUpdate (fuel : Nat) (s : UartTask σ) : Option (UartTask σ) :=
  rtcIoctl board fuel rtcIoctlGetTime s

/-- `RTC_print` -/
def rtcPrint (fuel : Nat) (s : UartTask σ) : Option (UartTask σ) :=
  (printf board frame fuel (rtcArguments s.myRtc) rtcFormat (board.stack s.process.hardware)
    s.process).map fun r => { s with process := r.2 }

/-- `uart_task` before its loop. -/
def uartTaskStart (fuel : Nat) (s : UartTask σ) : Option (UartTask σ) :=
  rtcIoctl board fuel rtcIoctlSetTime { s with myRtc := uartTaskTime }

/-- Time passes between the turns. -/
def UartTask.elapse (elapse : σ → σ) (s : UartTask σ) : UartTask σ :=
  { s with process := { s.process with hardware := elapse s.process.hardware } }

/-- `n` turns of the loop; `elapse k` is what happens to the hardware before
turn `k`. -/
def uartTaskTurns (elapse : Nat → σ → σ) (fuel : Nat) : Nat → UartTask σ → Option (UartTask σ)
  | 0, s => some s
  | n + 1, s =>
      (uartTaskTurns elapse fuel n s).bind fun s =>
        (rtcUpdate board fuel (s.elapse (elapse n))).bind (rtcPrint board frame fuel)

/-- `uart_task` until it has printed `n` times. -/
def uartTaskRun (elapse : Nat → σ → σ) (fuel n : Nat) (s : UartTask σ) : Option (UartTask σ) :=
  (uartTaskStart board fuel s).bind (uartTaskTurns board frame elapse fuel n)

end Task

section Report

/-- A line of the console. -/
def report (time : Tm) : List UInt8 :=
  text "RTC reports : " ++ (decimal time.tmMday ++ (text "/" ++ (decimal time.tmMon ++
    (text "/" ++ (decimal time.tmYear ++ (text " " ++ (decimal time.tmHour ++ (text ":" ++
      (decimal time.tmMin ++ (text ":" ++ (decimal time.tmSec ++ text "!\n")))))))))))

def rtcItems : List Item :=
  textItems "RTC reports : " ++ .directive .none .d :: (textItems "/" ++ .directive .none .d ::
    (textItems "/" ++ .directive .none .d :: (textItems " " ++ .directive .none .d ::
      (textItems ":" ++ .directive .none .d :: (textItems ":" ++ .directive .none .d ::
        textItems "!\n")))))

theorem rtcFormat_items : rtcFormat.chars = rtcItems.flatMap Item.chars := by
  decide +kernel

/-- The arguments of `RTC_print` fill its format in the order of the text. -/
theorem rtcItems_render (time : Tm) : renderItems (rtcArguments time) 0 rtcItems = report time := by
  simp only [rtcItems, report]
  iterate 6 rw [renderItems_field _ _ _ (by decide +kernel)]
  rw [renderItems_last _ _ (by decide +kernel)]
  rfl

end Report

section Board

variable {σ : Type*}

/-- The chip shows the time: all its registers but that of the day of the week are
those of the time. -/
def RegisterChip.Shows (chip : RegisterChip) (time : Tm) : Prop :=
  ∀ k < 7, k ≠ ds1307AddressDayWeek → chip.registers k = setBuffer time (fun _ => 0) (k + 1)

/-- A board with the clock on the I2C bus and a line behind the UART, which do not
get in each other's way. -/
structure ClockBoard (board : Board σ) (chip : σ → RegisterChip) (line : σ → List UInt8) :
    Prop where
  clock : Carries board.i2c rtcAddr chip
  console : Transmits board.uart line
  sends : SendKeeps board.i2c.toUsicChannel line
  master : MasterKeeps board.i2c rtcAddr line
  prints : SendKeeps board.uart fun s => (chip s).registers

variable {board : Board σ} {chip : σ → RegisterChip} {line : σ → List UInt8}
  (frame : σ → Vnode)

theorem shows_getTime {clock : RegisterChip} {time : Tm} (h : clock.Shows time) :
    getTime clock.registers = time.throughChip := by
  let buf : Nat → UInt8 := fun _ => clock.registers ds1307AddressDayWeek
  rw [← getTime_setBuffer time buf]
  apply getTime_congr
  intro k hk
  by_cases hday : k = ds1307AddressDayWeek
  · subst hday
    exact (setBuffer_dayWeek time buf).symm
  · rw [h k hk hday]
    apply setBuffer_assigned time _ _ (by omega)
    omega

/-- Reading leaves the registers of the chip as they are. -/
theorem clock_master (h : Carries board.i2c rtcAddr chip) :
    MasterKeeps board.i2c rtcAddr fun s => (chip s).registers where
  start cmd s := by
    rw [h.start]
    cases cmd <;> rfl
  stop s := by rw [h.stop]
  status s := by rw [h.status]
  clear flags s := by rw [h.clear]
  ack s := by
    rw [h.ack]
    rfl
  nack s := by
    rw [h.nack]
    rfl
  get t harrived := by rw [(h.get t harrived).2]

/-- What the bus carries does not show on the line. -/
theorem ioctl_keeps_line (h : ClockBoard board chip line) {code : UInt8} {buf : Nat → UInt8}
    {time : Tm} {i2cNode : Vnode} (hdev : i2cNode.devId = .i2c) {s : σ}
    {r : Int32 × Tm × Vnode × σ}
    (hioctl : Ends (fun fuel => ds1307RtcIoctl board fuel code buf time i2cNode s) r) :
    line r.2.2.2 = line s := by
  obtain ⟨fuel, hfuel⟩ := hioctl
  have hpeer : (usicI2cIoctl i2cNode i2cIoctlSetPeer rtcAddr).devId = .i2c := hdev
  simp only [ds1307RtcIoctl] at hfuel
  split at hfuel
  · obtain ⟨sent, hsent, rfl⟩ := Option.map_eq_some_iff.mp hfuel
    exact i2cWrite_keeps hpeer h.sends h.master ⟨fuel, hsent⟩
  · split at hfuel
    · obtain ⟨sent, hsent, hrest⟩ := Option.bind_eq_some_iff.mp hfuel
      obtain ⟨received, hreceived, rfl⟩ := Option.map_eq_some_iff.mp hrest
      have hread := i2cRead_keeps hpeer h.master ⟨fuel, hreceived⟩
      have hwrite := i2cWrite_keeps hpeer h.sends h.master ⟨fuel, hsent⟩
      exact hread.trans hwrite
    · rw [← Option.some.inj hfuel]

/-- Reading the time leaves it in the chip. -/
theorem getTime_keeps (h : Carries board.i2c rtcAddr chip) {buf : Nat → UInt8} {old : Tm}
    {i2cNode : Vnode} (hdev : i2cNode.devId = .i2c) {s : σ} {r : Int32 × Tm × Vnode × σ}
    (hioctl : Ends (fun fuel => ds1307RtcIoctl board fuel rtcIoctlGetTime buf old i2cNode s) r) :
    (chip r.2.2.2).registers = (chip s).registers := by
  obtain ⟨fuel, hfuel⟩ := hioctl
  have hcode : rtcIoctlGetTime ≠ rtcIoctlSetTime := by decide
  simp only [ds1307RtcIoctl, if_neg hcode, if_true] at hfuel
  obtain ⟨sent, hsent, hrest⟩ := Option.bind_eq_some_iff.mp hfuel
  obtain ⟨received, hreceived, rfl⟩ := Option.map_eq_some_iff.mp hrest
  have hpeer : (usicI2cIoctl i2cNode i2cIoctlSetPeer rtcAddr).devId = .i2c := hdev
  have hread := i2cRead_keeps hpeer (clock_master h) ⟨fuel, hreceived⟩
  obtain ⟨t, ht, hpointer⟩ := devWrite_takes h (usicI2cIoctl i2cNode i2cIoctlSetPeer rtcAddr)
    (Function.update buf 0 0) 1 hpeer rfl (by decide) s
  obtain rfl := ht.unique (devWrite_stable board _ _ _ _) ⟨fuel, hsent⟩
  refine hread.trans ?_
  rw [hpointer]
  rfl

/-- Setting the time stores it. -/
theorem setTime_shows (h : Carries board.i2c rtcAddr chip) (buf : Nat → UInt8) (time : Tm)
    (i2cNode : Vnode) (hdev : i2cNode.devId = .i2c) (s : σ) :
    ∃ t, Ends (fun fuel => ds1307RtcIoctl board fuel rtcIoctlSetTime buf time i2cNode s)
        (0, time, { i2cNode with endpt := rtcAddr }, t) ∧ (chip t).Shows time := by
  obtain ⟨t, hset, hchip⟩ := setTime_ends h buf time i2cNode hdev s
  refine ⟨t, hset, ?_⟩
  intro k hk hday
  have hmap : (List.range 8).map (setBuffer time buf) =
      0 :: (List.range 7).map (fun k => setBuffer time buf (k + 1)) := by
    rw [List.range_succ_eq_map, List.map_cons, List.map_map]
    rfl
  have hpointer : (((chip s).start .write).take 0).pointer = 0 := rfl
  rw [hchip, hmap, RegisterChip.takeAll_cons, RegisterChip.takeAll_registers _ _ rfl, hpointer,
    if_pos (by simpa using hk), ← setBuffer_assigned time buf _ (by omega) (by omega)]
  simp [hk]

theorem rtcIoctl_stable (code : UInt8) (s : UartTask σ) :
    Stable fun fuel => rtcIoctl board fuel code s :=
  (ds1307RtcIoctl_stable _ _ _ _ _).map _

theorem rtcPrint_stable (s : UartTask σ) : Stable fun fuel => rtcPrint board frame fuel s :=
  (printf_stable _ _ _ _).map _

theorem uartTaskTurns_stable (elapse : Nat → σ → σ) (n : Nat) (s : UartTask σ) :
    Stable fun fuel => uartTaskTurns board frame elapse fuel n s := by
  induction n with
  | zero => exact stable_const _
  | succ n ih => exact ih.bind fun s => (rtcIoctl_stable _ _).bind (rtcPrint_stable frame)

/-- The task has the bus, and the chip shows the time. -/
structure Showing (chip : σ → RegisterChip) (s : UartTask σ) (time : Tm) : Prop where
  node : s.i2cNode.devId = .i2c
  time : (chip s.process.hardware).Shows time

theorem rtcUpdate_ends (h : ClockBoard board chip line) {s : UartTask σ} {time : Tm}
    (hs : Showing chip s time) :
    ∃ t, Ends (fun fuel => rtcUpdate board fuel s) t ∧ Showing chip t time ∧
      t.myRtc = time.throughChip ∧ line t.process.hardware = line s.process.hardware := by
  obtain ⟨t, hget⟩ := getTime_ends h.clock (board.stack s.process.hardware) s.myRtc s.i2cNode
    hs.node s.process.hardware
  refine ⟨_, ends_map.mpr ⟨_, hget, rfl⟩, ⟨hs.node, ?_⟩, shows_getTime hs.time,
    ioctl_keeps_line h hs.node hget⟩
  intro k hk hday
  have hkept := getTime_keeps h.clock hs.node hget
  exact (congrFun hkept k).trans (hs.time k hk hday)

theorem rtcPrint_ends (h : ClockBoard board chip line) {s : UartTask σ} {time : Tm}
    (hs : Showing chip s time) :
    ∃ t, Ends (fun fuel => rtcPrint board frame fuel s) t ∧ Showing chip t time ∧
      line t.process.hardware = line s.process.hardware ++ report s.myRtc := by
  obtain ⟨t, hprint, hline⟩ := printf_total frame h.console (rtcArguments s.myRtc)
    rtcItems (board.stack s.process.hardware) s.process rtcFormat_items (by decide +kernel)
    (by decide +kernel)
  rw [rtcItems_render] at hline
  refine ⟨_, ends_map.mpr ⟨_, hprint, rfl⟩, ⟨hs.node, ?_⟩, hline⟩
  intro k hk hday
  have hkept := printf_keeps h.prints hprint
  exact (congrFun hkept k).trans (hs.time k hk hday)

theorem uartTaskStart_ends (h : ClockBoard board chip line) {s : UartTask σ}
    (hdev : s.i2cNode.devId = .i2c) :
    ∃ t, Ends (fun fuel => uartTaskStart board fuel s) t ∧ Showing chip t uartTaskTime ∧
      line t.process.hardware = line s.process.hardware := by
  obtain ⟨t, hset, hshows⟩ := setTime_shows h.clock (board.stack s.process.hardware) uartTaskTime
    s.i2cNode hdev s.process.hardware
  exact ⟨_, ends_map.mpr ⟨_, hset, rfl⟩, ⟨hdev, hshows⟩, ioctl_keeps_line h hdev hset⟩

/-- The times that the chip shows, from the one that is set. -/
def clockTimes (advance : Nat → Tm → Tm) : Nat → Tm
  | 0 => uartTaskTime
  | k + 1 => advance k (clockTimes advance k)

/-- Every turn of the loop prints the time that the chip then shows. -/
theorem uartTaskTurns_end (h : ClockBoard board chip line) (elapse : Nat → σ → σ)
    (advance : Nat → Tm → Tm) (hquiet : ∀ k s, line (elapse k s) = line s)
    (hclock : ∀ k s time, (chip s).Shows time → (chip (elapse k s)).Shows (advance k time))
    (n : Nat) {s : UartTask σ} (hs : Showing chip s uartTaskTime) :
    ∃ t, Ends (fun fuel => uartTaskTurns board frame elapse fuel n s) t ∧
      Showing chip t (clockTimes advance n) ∧
      line t.process.hardware = line s.process.hardware ++
        (List.range n).flatMap fun k => report (clockTimes advance (k + 1)).throughChip := by
  induction n with
  | zero => exact ⟨s, ends_some.mpr rfl, hs, by simp⟩
  | succ n ih =>
      obtain ⟨t, hturns, ht, hline⟩ := ih
      have helapsed : Showing chip (t.elapse (elapse n)) (clockTimes advance (n + 1)) :=
        ⟨ht.node, hclock n _ _ ht.time⟩
      obtain ⟨u, hupdate, hu, hread, hsilent⟩ := rtcUpdate_ends h helapsed
      obtain ⟨v, hprint, hv, hreport⟩ := rtcPrint_ends frame h hu
      refine ⟨v, ?_, hv, ?_⟩
      · apply (ends_bind (uartTaskTurns_stable frame elapse n s) _).mpr ⟨t, hturns, ?_⟩
        · exact fun s => (rtcIoctl_stable _ _).bind (rtcPrint_stable frame)
        · exact (ends_bind (rtcIoctl_stable _ _) (rtcPrint_stable frame)).mpr ⟨u, hupdate, hprint⟩
      · have hbefore : line (t.elapse (elapse n)).process.hardware = line t.process.hardware :=
          hquiet n _
        rw [hreport, hsilent, hbefore, hline, hread, List.range_succ, List.flatMap_append,
          List.append_assoc, List.flatMap_singleton]

end Board

/-- Whatever the clock does between the turns: after setting it, `n` turns of
`uart_task` put on the line the `n` times that it shows, one line each, as long as
they are in the ranges of the chip and the years below 80. -/
theorem rtc_reports {σ : Type*} (board : Board σ) (frame : σ → Vnode) (chip : σ → RegisterChip)
    (line : σ → List UInt8) (h : ClockBoard board chip line) (elapse : Nat → σ → σ)
    (advance : Nat → Tm → Tm) (hquiet : ∀ k s, line (elapse k s) = line s)
    (hclock : ∀ k s time, (chip s).Shows time → (chip (elapse k s)).Shows (advance k time))
    (n : Nat) (htimes : ∀ k < n, (clockTimes advance (k + 1)).InRange ∧
      (clockTimes advance (k + 1)).tmYear.toInt < 80)
    (s : UartTask σ) (hdev : s.i2cNode.devId = .i2c) :
    ∃ t, Ends (fun fuel => uartTaskRun board frame elapse fuel n s) t ∧
      line t.process.hardware = line s.process.hardware ++
        (List.range n).flatMap fun k => report (clockTimes advance (k + 1)) := by
  obtain ⟨first, hstart, hfirst, hsilent⟩ := uartTaskStart_ends h hdev
  obtain ⟨t, hturns, _, hline⟩ := uartTaskTurns_end frame h elapse advance hquiet hclock
    n hfirst
  refine ⟨t, ?_, ?_⟩
  · apply (ends_bind (rtcIoctl_stable _ _) _).mpr ⟨first, hstart, hturns⟩
    exact uartTaskTurns_stable frame elapse n
  · rw [hline, hsilent]
    congr 1
    apply List.flatMap_congr
    intro k hk
    obtain ⟨hrange, hyear⟩ := htimes k (List.mem_range.mp hk)
    rw [(Tm.throughChip_iff hrange).mpr hyear]

section Within

variable {σ τ : Type*} (part : σ → τ) (put : τ → σ → σ)

/-- A channel of a machine that has other parts too. -/
def UsicChannel.within (channel : UsicChannel τ) : UsicChannel σ where
  txfifoIsFull s :=
    let polled := channel.txfifoIsFull (part s)
    (polled.1, put polled.2 s)
  txfifoPutData w s := put (channel.txfifoPutData w (part s)) s
  rxfifoIsEmpty s :=
    let polled := channel.rxfifoIsEmpty (part s)
    (polled.1, put polled.2 s)
  rxfifoGetData s :=
    let answer := channel.rxfifoGetData (part s)
    (answer.1, put answer.2 s)

def I2cChannel.within (i2c : I2cChannel τ) : I2cChannel σ where
  toUsicChannel := i2c.toUsicChannel.within part put
  masterStart device cmd s := put (i2c.masterStart device cmd (part s)) s
  masterReceiveAck s := put (i2c.masterReceiveAck (part s)) s
  masterReceiveNack s := put (i2c.masterReceiveNack (part s)) s
  masterStop s := put (i2c.masterStop (part s)) s
  getStatusFlag s :=
    let answer := i2c.getStatusFlag (part s)
    (answer.1, put answer.2 s)
  clearStatusFlag flags s := put (i2c.clearStatusFlag flags (part s)) s
  ackReceived := i2c.ackReceived
  receiveIndication := i2c.receiveIndication

variable {part put}

/-- The wait of the whole machine ends when that of the part does. -/
theorem waitWhile_within (hput : ∀ t s, part (put t s) = t) {busy : τ → Bool × τ} {s : σ}
    (h : Returns fun fuel => waitWhile busy fuel (part s)) :
    Returns fun fuel => waitWhile
      (fun s => ((busy (part s)).1, put (busy (part s)).2 s)) fuel s := by
  obtain ⟨last, fuel, hfuel⟩ := h
  induction fuel generalizing s with
  | zero => cases hfuel
  | succ fuel ih =>
      simp only [waitWhile] at hfuel
      split at hfuel
      · rename_i hbusy
        obtain ⟨t, turns, hturns⟩ := ih (s := put (busy (part s)).2 s) (by rwa [hput])
        exact ⟨t, turns + 1, (if_pos hbusy).trans hturns⟩
      · rename_i hdone
        exact ⟨put (busy (part s)).2 s, 1, if_neg hdone⟩

theorem Transmits.within {channel : UsicChannel τ} {line : τ → List UInt8}
    (h : Transmits channel line) (hput : ∀ t s, part (put t s) = t) :
    Transmits (channel.within part put) fun s => line (part s) where
  full s := (congrArg line (hput _ _)).trans (h.full (part s))
  drains s := waitWhile_within hput (h.drains (part s))
  put w s t hpoll := by
    simp only [UsicChannel.within, Prod.mk.injEq] at hpoll ⊢
    obtain ⟨hroom, rfl⟩ := hpoll
    rw [hput, hput]
    exact h.put w (part s) _ (Prod.ext hroom rfl)

theorem Carries.within {i2c : I2cChannel τ} {address : Int32} {chip : τ → RegisterChip}
    (h : Carries i2c address chip) (hput : ∀ t s, part (put t s) = t) :
    Carries (i2c.within part put) address fun s => chip (part s) where
  full s := (congrArg chip (hput _ _)).trans (h.full (part s))
  drains s := waitWhile_within hput (h.drains (part s))
  put w s t hpoll := by
    simp only [I2cChannel.within, UsicChannel.within, Prod.mk.injEq] at hpoll ⊢
    obtain ⟨hroom, rfl⟩ := hpoll
    rw [hput, hput]
    exact h.put w (part s) _ (Prod.ext hroom rfl)
  start cmd s := (congrArg chip (hput _ _)).trans (h.start cmd (part s))
  stop s := (congrArg chip (hput _ _)).trans (h.stop (part s))
  status s := (congrArg chip (hput _ _)).trans (h.status (part s))
  clear flags s := (congrArg chip (hput _ _)).trans (h.clear flags (part s))
  ack s := (congrArg chip (hput _ _)).trans (h.ack (part s))
  nack s := (congrArg chip (hput _ _)).trans (h.nack (part s))
  arrives resid s := by
    have hasked : part (if resid > 1 then (i2c.within part put).masterReceiveAck s
        else (i2c.within part put).masterReceiveNack s) =
          if resid > 1 then i2c.masterReceiveAck (part s)
          else i2c.masterReceiveNack (part s) := by
      split <;> exact hput _ _
    have hpart := returns_map.mp (h.arrives resid (part s))
    rw [← hasked] at hpart
    exact returns_map.mpr (waitWhile_within hput hpart)
  get t harrived := by
    obtain ⟨s, hflag, rfl⟩ := harrived
    have hpart := h.get _ ⟨part s, hflag, rfl⟩
    simp only [I2cChannel.within, UsicChannel.within, hput]
    exact hpart

/-- What the rest of the machine shows does not change. -/
theorem SendKeeps.within {β : Type*} {view : σ → β} (channel : UsicChannel τ)
    (hview : ∀ t s, view (put t s) = view s) : SendKeeps (channel.within part put) view :=
  ⟨fun _ => hview _ _, fun _ _ => hview _ _⟩

theorem MasterKeeps.within {β : Type*} {view : σ → β} (i2c : I2cChannel τ) (address : Int32)
    (hview : ∀ t s, view (put t s) = view s) : MasterKeeps (i2c.within part put) address view :=
  ⟨fun _ _ => hview _ _, fun _ => hview _ _, fun _ => hview _ _, fun _ _ => hview _ _,
    fun _ => hview _ _, fun _ => hview _ _, fun _ _ => hview _ _⟩

end Within

/-- A clock on the I2C bus, and a UART. -/
structure ClockAndUart where
  bus : RegisterBus
  uart : Uart

def ClockAndUart.withBus (bus : RegisterBus) (s : ClockAndUart) : ClockAndUart :=
  { s with bus }

def ClockAndUart.withUart (uart : Uart) (s : ClockAndUart) : ClockAndUart :=
  { s with uart }

def clockAndUart : Board ClockAndUart where
  i2c := (registerChannel rtcAddr).within ClockAndUart.bus ClockAndUart.withBus
  spi := ⟨fun _ s => (0xFF, s)⟩
  uart := uartChannel.within ClockAndUart.uart ClockAndUart.withUart
  stack _ _ := 0xAA

theorem clockAndUart_board :
    ClockBoard clockAndUart (fun s => s.bus.settled rtcAddr) (fun s => s.uart.line) where
  clock := (registerChannel_carries rtcAddr).within fun _ _ => rfl
  console := uartChannel_transmits.within fun _ _ => rfl
  sends := SendKeeps.within _ fun _ _ => rfl
  master := MasterKeeps.within _ _ fun _ _ => rfl
  prints := SendKeeps.within _ fun _ _ => rfl

/-- The clock counts a second, without the carry. -/
def RegisterChip.second (clock : RegisterChip) : RegisterChip :=
  let tmSec := bcdDecimal (ofChar (clock.registers ds1307AddressSeconds))
  { clock with
    registers := Function.update clock.registers ds1307AddressSeconds
      (toChar (decimalBcd (tmSec + 1))) }

theorem second_shows {clock : RegisterChip} {time : Tm} (h : clock.Shows time) :
    clock.second.Shows { time with tmSec := throughChip time.tmSec + 1 } := by
  intro k hk hday
  have hsec : clock.registers ds1307AddressSeconds = toChar (decimalBcd time.tmSec) := by
    rw [h ds1307AddressSeconds (by decide) (by decide)]
    simp [setBuffer]
  by_cases hfirst : k = ds1307AddressSeconds
  · subst hfirst
    rw [RegisterChip.second, hsec]
    simp [setBuffer, throughChip]
  · have hother : setBuffer { time with tmSec := throughChip time.tmSec + 1 } (fun _ => 0) (k + 1) =
        setBuffer time (fun _ => 0) (k + 1) := by
      interval_cases k <;> simp [setBuffer] at hfirst ⊢
    rw [RegisterChip.second, hother, ← h k hk hday]
    exact Function.update_of_ne hfirst _ _

/-- A second passes, and the queue of the bus empties. -/
def ClockAndUart.second (s : ClockAndUart) : ClockAndUart :=
  let bus := s.bus.flush rtcAddr
  s.withBus { bus with chip := bus.chip.second }

/-- Two lines, a second apart. -/
theorem rtc_reports_seconds :
    ∃ t, Ends (fun fuel => uartTaskRun clockAndUart (fun _ => idleVnode)
        (fun _ => ClockAndUart.second) fuel 2
        ⟨uartTaskTime, i2cVnode, ⟨0, ⟨idleBus, ⟨[], [], []⟩⟩⟩⟩) t ∧
      t.process.hardware.uart.line =
        text "RTC reports : 17/6/16 14:53:1!\nRTC reports : 17/6/16 14:53:2!\n" := by
  let advance : Nat → Tm → Tm := fun _ time => { time with tmSec := throughChip time.tmSec + 1 }
  have htimes : ∀ k < 2, (clockTimes advance (k + 1)).InRange ∧
      (clockTimes advance (k + 1)).tmYear.toInt < 80 := by
    intro k hk
    interval_cases k
    · exact ⟨by constructor <;> decide +kernel, by decide +kernel⟩
    · exact ⟨by constructor <;> decide +kernel, by decide +kernel⟩
  obtain ⟨t, hrun, hline⟩ := rtc_reports clockAndUart (fun _ => idleVnode)
    (fun s => s.bus.settled rtcAddr) (fun s => s.uart.line) clockAndUart_board
    (fun _ => ClockAndUart.second) advance (fun _ _ => rfl) (fun _ _ _ => second_shows) 2 htimes
    ⟨uartTaskTime, i2cVnode, ⟨0, ⟨idleBus, ⟨[], [], []⟩⟩⟩⟩ rfl
  refine ⟨t, hrun, ?_⟩
  rw [hline]
  decide +kernel

end PascalScheduler.Sys
