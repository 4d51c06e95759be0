import PascalScheduler.Libc.PrintfFormat
import PascalScheduler.Sys.DevRead
import PascalScheduler.Sys.I2cRegisters
import PascalScheduler.Sys.UartTasks

/-!
The console: `sys_read` and `sys_write` on the three standard descriptors,
`getchar` and `printf` (`syscall.c`, `getchar.c`, `printf.c`). All of them end at
the queues of the UART, which are a parameter here.
-/

namespace PascalScheduler.Sys

open Fuel

def stdinFileno : Int32 := 0
def stdoutFileno : Int32 := 1
def stderrFileno : Int32 := 2

def ebadf : Nat := 8

/-- `errno`, and the hardware. -/
structure Process (σ : Type*) where
  errno : Nat
  hardware : σ

/-- The calls set the device of their vnode; its other fields are what the stack
holds. -/
def uartVnode (stack : Vnode) : Vnode :=
  { stack with devId := .uart }

section Calls

variable {σ : Type*} (board : Board σ) (frame : σ → Vnode)

/-- `sys_read`, with what it leaves at `ptr`. -/
def sysRead (fuel : Nat) (file : Int32) (ptr : Nat → UInt8) (len : Int32) (s : Process σ) :
    Option (Int32 × (Nat → UInt8) × Process σ) :=
  if file = stdinFileno then
    (devRead board fuel (uartVnode (frame s.hardware)) ptr len.toUInt32 s.hardware).map fun r =>
      (r.1, r.2.1, { s with hardware := r.2.2 })
  else some (-1, ptr, { s with errno := ebadf })

def sysWrite (fuel : Nat) (file : Int32) (ptr : Nat → UInt8) (len : Int32) (s : Process σ) :
    Option (Int32 × Process σ) :=
  if file = stdoutFileno ∨ file = stderrFileno then
    (devWrite board fuel (uartVnode (frame s.hardware)) ptr len.toUInt32 s.hardware).map fun r =>
      (r.1, { s with hardware := r.2 })
  else some (-1, { s with errno := ebadf })

/-- `getchar`, with what the stack holds in place of `c`. -/
def getchar (fuel : Nat) (c : UInt8) (s : Process σ) : Option (Int32 × Process σ) :=
  (sysRead board frame fuel 0 (fun _ => c) 1 s).map fun r => ((r.2.1 0).toUInt32.toInt32, r.2.2)

/-- `cb_printf` -/
def cbPrintf (fuel : Nat) (c : UInt8) (s : Process σ) : Option (Process σ) :=
  (sysWrite board frame fuel 1 (fun _ => c) 1 s).map fun r => r.2

/-- The callback on one character after the other. -/
def callAll (cb : UInt8 → Process σ → Option (Process σ)) :
    List UInt8 → Process σ → Option (Process σ)
  | [], s => some s
  | c :: cs, s => (cb c s).bind (callAll cb cs)

def printf (fuel : Nat) (args : Arguments) (fmt : CString) (bf : Nat → UInt8) (s : Process σ) :
    Option (Int32 × Process σ) :=
  let run := cnprintf args 128 fmt bf
  (callAll (cbPrintf board frame fuel) (sent run.events) s).bind fun s =>
    run.result.map fun r => (r, s)

end Calls

/-- Bytes put into the transmit queue when it is not full go out in order: `line`
is all that has been put. A full queue gets room. -/
structure Transmits {σ : Type*} (uart : UsicChannel σ) (line : σ → List UInt8) : Prop where
  full : ∀ s, line (uart.txfifoIsFull s).2 = line s
  drains : ∀ s, Returns fun fuel => waitWhile uart.txfifoIsFull fuel s
  put : ∀ w s t, uart.txfifoIsFull s = (false, t) →
    line (uart.txfifoPutData w t) = line t ++ [w.toUInt8]

/-- `input` is what has been or will be received: the queue is empty until the
next byte of it arrives, and for ever when there is none. -/
structure Receives {σ : Type*} (uart : UsicChannel σ) (input : σ → List UInt8) : Prop where
  empty : ∀ s, input (uart.rxfifoIsEmpty s).2 = input s
  arrives : ∀ s, Returns (fun fuel => waitWhile uart.rxfifoIsEmpty fuel s) ↔ input s ≠ []
  get : ∀ s t, uart.rxfifoIsEmpty s = (false, t) →
    input t = (uart.rxfifoGetData t).1.toUInt8 :: input (uart.rxfifoGetData t).2

section Loops

variable {σ : Type*}

theorem usicUartReceive_stable (uart : UsicChannel σ) (s : σ) :
    Stable fun fuel => usicUartReceive uart fuel s :=
  (waitWhile_stable _ _).map _

variable {board : Board σ} {frame : σ → Vnode}

theorem sysWrite_stable (file : Int32) (ptr : Nat → UInt8) (len : Int32) (s : Process σ) :
    Stable fun fuel => sysWrite board frame fuel file ptr len s := by
  apply Stable.ite
  · exact (devWrite_stable board _ _ _ _).map _
  · exact stable_const _

theorem callAll_stable {cb : Nat → UInt8 → Process σ → Option (Process σ)}
    (h : ∀ c s, Stable fun fuel => cb fuel c s) (cs : List UInt8) (s : Process σ) :
    Stable fun fuel => callAll (cb fuel) cs s := by
  induction cs generalizing s with
  | nil => exact stable_const _
  | cons c cs ih => exact (h c s).bind ih

theorem cbPrintf_stable (c : UInt8) (s : Process σ) :
    Stable fun fuel => cbPrintf board frame fuel c s :=
  (sysWrite_stable _ _ _ _).map _

theorem printf_stable (args : Arguments) (fmt : CString) (bf : Nat → UInt8) (s : Process σ) :
    Stable fun fuel => printf board frame fuel args fmt bf s :=
  (callAll_stable cbPrintf_stable _ s).bind fun _ => stable_const _

end Loops

section Requests

variable {ptr : Nat → UInt8} {len : Int32} {rw : UioRw}

/-- How many elements a call transfers: none for a negative length. -/
def transferred (len : Int32) : Nat := len.toInt.toNat

theorem request_transferred : Uio.count ⟨ptr, len.toUInt32.toInt32, rw⟩ = transferred len := by
  rw [Int32.toInt32_toUInt32]
  rfl

theorem drained_transferred :
    (drained ⟨ptr, len.toUInt32.toInt32, rw⟩).resid = if 0 < len then 0 else len := by
  rw [Int32.toInt32_toUInt32]
  rfl

/-- What is reported when the driver has transferred everything. -/
theorem reported (len : Int32) :
    (len.toUInt32 - (if 0 < len then (0 : Int32) else len).toUInt32).toInt32 =
      if 0 < len then len else 0 := by
  have hzero : (0 : Int32).toUInt32 = 0 := rfl
  split
  · rw [hzero, UInt32.sub_zero, Int32.toInt32_toUInt32]
  · rw [UInt32.sub_self]
    rfl

end Requests

section Output

variable {σ : Type*} {board : Board σ} (frame : σ → Vnode) {line : σ → List UInt8}

theorem uartSend_transmits {uart : UsicChannel σ} (h : Transmits uart line) (b : UInt8) (s : σ) :
    ∃ t, Ends (fun fuel => usicUartSend uart fuel b s) t ∧ line t = line s ++ [b] := by
  obtain ⟨waited, hwaited⟩ := h.drains s
  refine ⟨uart.txfifoPutData b.toUInt16 waited, ends_map.mpr ⟨waited, hwaited, rfl⟩, ?_⟩
  obtain ⟨fuel, hfuel⟩ := hwaited
  obtain ⟨polled, hpolled⟩ := waitWhile_last hfuel
  rw [h.put _ _ _ hpolled, waitWhile_keeps h.full hfuel, UInt8.toUInt8_toUInt16]

/-- The loop of `usic_uart_write` puts its bytes on the line in order. -/
theorem sendLoop_transmits {uart : UsicChannel σ} (h : Transmits uart line)
    (ptr : Nat → UInt8) (resid i : Nat) (s : σ) :
    ∃ t, Ends (fun fuel => sendLoop (usicUartSend uart fuel) ptr resid i s) t ∧
      line t = line s ++ (List.range' i resid).map ptr := by
  induction resid generalizing i s with
  | zero => exact ⟨s, ends_some.mpr rfl, by simp⟩
  | succ resid ih =>
      obtain ⟨first, hfirst, hone⟩ := uartSend_transmits h (ptr i) s
      obtain ⟨t, hrest, hline⟩ := ih (i + 1) first
      refine ⟨t, ?_, ?_⟩
      · apply (ends_bind (fifoSend_stable _ _ _) _).mpr ⟨first, hfirst, hrest⟩
        exact fun u => sendLoop_stable (fifoSend_stable _) _ _ _ _
      · rw [hline, hone, List.append_assoc, List.range'_succ, List.map_cons]
        rfl

theorem sysWrite_ends (h : Transmits board.uart line) {file : Int32}
    (hfile : file = stdoutFileno ∨ file = stderrFileno) (ptr : Nat → UInt8) (len : Int32)
    (s : Process σ) :
    ∃ t, Ends (fun fuel => sysWrite board frame fuel file ptr len s)
        (if 0 < len then len else 0, { s with hardware := t }) ∧
      line t = line s.hardware ++ (List.range (transferred len)).map ptr := by
  obtain ⟨t, hsent, hline⟩ := sendLoop_transmits h ptr (transferred len) 0 s.hardware
  refine ⟨t, ?_, ?_⟩
  · simp only [sysWrite, if_pos hfile, devWrite, dWrite, uartVnode, usicUartWrite, ends_map,
      request_transferred]
    refine ⟨_, ⟨_, ⟨t, hsent, rfl⟩, rfl⟩, ?_⟩
    simp only [drained_transferred, reported]
  · rw [hline, List.range_eq_range']

theorem cbPrintf_transmits (h : Transmits board.uart line) (c : UInt8) (s : Process σ) :
    ∃ t, Ends (fun fuel => cbPrintf board frame fuel c s) { s with hardware := t } ∧
      line t = line s.hardware ++ [c] := by
  obtain ⟨t, hwritten, hline⟩ := sysWrite_ends frame h (.inl rfl) (fun _ => c) 1 s
  exact ⟨t, ends_map.mpr ⟨_, hwritten, rfl⟩, hline⟩

theorem callAll_transmits (h : Transmits board.uart line) (cs : List UInt8) (s : Process σ) :
    ∃ t, Ends (fun fuel => callAll (cbPrintf board frame fuel) cs s) { s with hardware := t } ∧
      line t = line s.hardware ++ cs := by
  induction cs generalizing s with
  | nil => exact ⟨s.hardware, ends_some.mpr rfl, (List.append_nil _).symm⟩
  | cons c cs ih =>
      obtain ⟨first, hfirst, hone⟩ := cbPrintf_transmits frame h c s
      obtain ⟨t, hrest, hline⟩ := ih { s with hardware := first }
      refine ⟨t, ?_, ?_⟩
      · apply (ends_bind (cbPrintf_stable c s) _).mpr ⟨_, hfirst, hrest⟩
        exact callAll_stable cbPrintf_stable cs
      · rw [hline, hone, List.append_assoc]
        rfl

/-- What `cnprintf` passes to its callback goes out, character by character. -/
theorem printf_transmits (h : Transmits board.uart line) (args : Arguments) (fmt : CString)
    (bf : Nat → UInt8) (s : Process σ) {r : Int32}
    (hrun : (cnprintf args 128 fmt bf).result = some r) :
    ∃ t, Ends (fun fuel => printf board frame fuel args fmt bf s) (r, { s with hardware := t }) ∧
      line t = line s.hardware ++ sent (cnprintf args 128 fmt bf).events := by
  obtain ⟨t, hcalls, hline⟩ := callAll_transmits frame h
    (sent (cnprintf args 128 fmt bf).events) s
  refine ⟨t, ?_, hline⟩
  apply (ends_bind (callAll_stable cbPrintf_stable _ s) _).mpr ⟨_, hcalls, ?_⟩
  · exact fun _ => stable_const _
  · rw [hrun]
    exact ends_some.mpr rfl

/-- A plain format that fits is rendered on the line. -/
theorem printf_plain (h : Transmits board.uart line) (args : Arguments) (items : List Item)
    (bf : Nat → UInt8) (s : Process σ) (hsize : (formatOf items).chars.length ≤ 128)
    (hplain : ∀ item ∈ items, item.Plain) (hmatch : Matching args 0 items) :
    ∃ t, Ends (fun fuel => printf board frame fuel args (formatOf items) bf s)
        (0, { s with hardware := t }) ∧
      line t = line s.hardware ++ renderItems args 0 items := by
  have hparsed : ∀ fmt, .directive fmt ∈ itemTurns 128 0 items → Parsed fmt := by
    intro fmt hmem
    obtain ⟨length, spec, p, rfl⟩ := itemTurns_parsed hmem
    exact parsedItem_parsed length spec p
  have hfits : ((0 : Nat) + (items.flatMap Item.chars).length : Int) ≤ 128 := by
    rw [Nat.cast_zero, zero_add]
    exact_mod_cast hsize
  obtain ⟨hended, hrendered⟩ := itemTurns_rendered 128 0 0 bf items hfits hplain hmatch
  obtain ⟨last, hlast⟩ := play_ends _ _ hparsed hended
  have hresult : (cnprintf args 128 (formatOf items) bf).result = some 0 := by
    rw [cnprintf_play, turnsOf_items, Trace.result_map, hlast]
    rfl
  have hsent : sent (cnprintf args 128 (formatOf items) bf).events = renderItems args 0 items := by
    rw [cnprintf_play, turnsOf_items, Trace.events_map, play_rendered _ _ hparsed hended]
    exact hrendered
  rw [← hsent]
  exact printf_transmits frame h args (formatOf items) bf s hresult

/-- For every format and every argument list: `printf` returns when `cnprintf`
does, with its answer, and the line then has the characters of the callback. -/
theorem printf_on_line {σ : Type*} (board : Board σ) (frame : σ → Vnode) (line : σ → List UInt8)
    (h : Transmits board.uart line) (args : Arguments) (fmt : CString) (bf : Nat → UInt8)
    (s : Process σ) :
    (Returns (fun fuel => printf board frame fuel args fmt bf s) ↔
        (cnprintf args 128 fmt bf).result ≠ none) ∧
      ∀ r t, Ends (fun fuel => printf board frame fuel args fmt bf s) (r, t) →
        (cnprintf args 128 fmt bf).result = some r ∧ t.errno = s.errno ∧
          line t.hardware = line s.hardware ++ sent (cnprintf args 128 fmt bf).events := by
  cases hresult : (cnprintf args 128 fmt bf).result with
  | none =>
      have hnever : ∀ r, ¬ Ends (fun fuel => printf board frame fuel args fmt bf s) r := by
        rintro r ⟨fuel, hfuel⟩
        simp [printf, hresult] at hfuel
      refine ⟨⟨fun ⟨r, hr⟩ => absurd hr (hnever r), fun hne => absurd rfl hne⟩, ?_⟩
      exact fun r t hends => absurd hends (hnever _)
  | some r =>
      obtain ⟨t, hends, hline⟩ := printf_transmits frame h args fmt bf s hresult
      refine ⟨⟨fun _ => nofun, fun _ => ⟨_, hends⟩⟩, ?_⟩
      intro r' t' hends'
      have hsame := hends.unique (printf_stable args fmt bf s) hends'
      cases hsame
      exact ⟨rfl, rfl, hline⟩

end Output

/-- A directive that prints any argument. -/
def Total : Item → Prop
  | .literal _ _ _ => True
  | .directive length spec => length ≠ .ll ∧ spec ≠ .x ∧ spec ≠ .c

instance : DecidablePred Total
  | .literal _ _ _ => inferInstanceAs (Decidable True)
  | .directive _ _ => inferInstanceAs (Decidable (_ ∧ _))

theorem Total.plain {item : Item} (h : Total item) : item.Plain := by
  cases item with
  | literal => trivial
  | directive length spec => exact ⟨h.1, h.2.1⟩

theorem total_matching (args : Arguments) (va : Nat) {items : List Item}
    (h : ∀ item ∈ items, Total item) : Matching args va items := by
  induction items generalizing va with
  | nil => trivial
  | cons item items ih =>
      obtain ⟨hitem, hitems⟩ := List.forall_mem_cons.mp h
      cases item with
      | literal => exact ih va hitems
      | directive length spec => exact ⟨fun hchar => absurd hchar hitem.2.2, ih (va + 1) hitems⟩

section Text

def text (s : String) : List UInt8 :=
  s.toList.map Char.toUInt8

def decimal (v : Int32) : List UInt8 :=
  signedNumeral 10 v.toInt

/-- Literal characters as pieces of a format. -/
def textItems (s : String) : List Item :=
  (text s).filterMap fun c =>
    if h : c ≠ 0 ∧ c ≠ '%'.toUInt8 then some (.literal c h.1 h.2) else none

theorem renderItems_text (args : Arguments) (va : Nat) {s : String} (items : List Item)
    (h : ∀ c ∈ text s, c ≠ 0 ∧ c ≠ '%'.toUInt8) :
    renderItems args va (textItems s ++ items) = text s ++ renderItems args va items := by
  rw [textItems]
  generalize text s = chars at h ⊢
  induction chars with
  | nil => rfl
  | cons c chars ih =>
      obtain ⟨hc, hchars⟩ := List.forall_mem_cons.mp h
      rw [List.filterMap_cons, dif_pos hc]
      exact congrArg (c :: ·) (ih hchars)

/-- A text and the decimal number behind it. -/
theorem renderItems_field (args : Arguments) (va : Nat) {s : String} (items : List Item)
    (h : ∀ c ∈ text s, c ≠ 0 ∧ c ≠ '%'.toUInt8) :
    renderItems args va (textItems s ++ .directive .none .d :: items) =
      text s ++ (decimal (args.word va).toInt32 ++ renderItems args (va + 1) items) :=
  renderItems_text args va _ h

/-- A text at the end of a format. -/
theorem renderItems_last (args : Arguments) (va : Nat) {s : String}
    (h : ∀ c ∈ text s, c ≠ 0 ∧ c ≠ '%'.toUInt8) :
    renderItems args va (textItems s) = text s := by
  have hrender := renderItems_text args va [] h
  rwa [List.append_nil, renderItems, List.append_nil] at hrender

variable {σ : Type*} {board : Board σ} (frame : σ → Vnode) {line : σ → List UInt8}

/-- A format given by its characters. -/
theorem printf_total (h : Transmits board.uart line) (args : Arguments) {fmt : CString}
    (items : List Item) (bf : Nat → UInt8) (s : Process σ)
    (hfmt : fmt.chars = items.flatMap Item.chars) (hsize : fmt.chars.length ≤ 128)
    (htotal : ∀ item ∈ items, Total item) :
    ∃ t, Ends (fun fuel => printf board frame fuel args fmt bf s)
        (0, { s with hardware := t }) ∧
      line t = line s.hardware ++ renderItems args 0 items := by
  obtain rfl : fmt = formatOf items := by
    cases fmt with
    | mk chars noNul =>
        cases hfmt
        rfl
  exact printf_plain frame h args items bf s hsize (fun item hitem => (htotal item hitem).plain)
    (total_matching args 0 htotal)

end Text

section Input

variable {σ : Type*} {board : Board σ} (frame : σ → Vnode) {input : σ → List UInt8}

theorem uartReceive_receives {uart : UsicChannel σ} (h : Receives uart input) {b : UInt8}
    {rest : List UInt8} {s : σ} (hinput : input s = b :: rest) :
    ∃ t, Ends (fun fuel => usicUartReceive uart fuel s) (b, t) ∧ input t = rest := by
  have hsome : input s ≠ [] := by simp [hinput]
  obtain ⟨waited, hwaited⟩ := (h.arrives s).mpr hsome
  obtain ⟨fuel, hfuel⟩ := hwaited
  obtain ⟨polled, hpolled⟩ := waitWhile_last hfuel
  have hget := h.get _ _ hpolled
  rw [waitWhile_keeps h.empty hfuel, hinput] at hget
  injection hget with hbyte hrest
  refine ⟨(uart.rxfifoGetData waited).2, ?_, hrest.symm⟩
  rw [hbyte]
  exact ends_map.mpr ⟨waited, ⟨fuel, hfuel⟩, rfl⟩

theorem uartReceive_blocks {uart : UsicChannel σ} (h : Receives uart input) {s : σ}
    (hinput : input s = []) : ¬ Returns fun fuel => usicUartReceive uart fuel s := by
  intro hreturns
  exact (h.arrives s).mp (returns_map.mp hreturns) hinput

/-- The loop of `usic_uart_read` stores what arrives. -/
theorem receiveLoop_receives {uart : UsicChannel σ} (h : Receives uart input)
    (bytes rest : List UInt8) (i : Nat) (ptr : Nat → UInt8) (s : σ)
    (hinput : input s = bytes ++ rest) :
    ∃ t, Ends (fun fuel => receiveLoop (fun _ => usicUartReceive uart fuel) bytes.length i ptr s)
        (overlay i bytes ptr, t) ∧ input t = rest := by
  induction bytes generalizing i ptr s with
  | nil => exact ⟨s, ends_some.mpr rfl, hinput⟩
  | cons b bytes ih =>
      obtain ⟨first, hfirst, hleft⟩ := uartReceive_receives h hinput
      obtain ⟨t, hrest, hlast⟩ := ih (i + 1) (Function.update ptr i b) first hleft
      refine ⟨t, ?_, hlast⟩
      apply (ends_bind (usicUartReceive_stable uart s) _).mpr ⟨_, hfirst, hrest⟩
      exact fun answer => receiveLoop_stable (fun _ => usicUartReceive_stable uart) _ _ _ _

/-- It waits for as many bytes as it was asked for. -/
theorem receiveLoop_blocks {uart : UsicChannel σ} (h : Receives uart input) (resid i : Nat)
    (ptr : Nat → UInt8) (s : σ) (hshort : (input s).length < resid) :
    ¬ Returns fun fuel => receiveLoop (fun _ => usicUartReceive uart fuel) resid i ptr s := by
  induction resid generalizing i ptr s with
  | zero => exact absurd hshort (Nat.not_lt_zero _)
  | succ resid ih =>
      intro hreturns
      have hrest : ∀ answer : UInt8 × σ, Stable fun fuel => receiveLoop
          (fun _ => usicUartReceive uart fuel) resid (i + 1) (Function.update ptr i answer.1)
            answer.2 :=
        fun answer => receiveLoop_stable (fun _ => usicUartReceive_stable uart) _ _ _ _
      obtain ⟨answer, hanswer, hlater⟩ :=
        (returns_bind (usicUartReceive_stable uart s) hrest).mp hreturns
      cases hinput : input s with
      | nil => exact uartReceive_blocks h hinput ⟨answer, hanswer⟩
      | cons b bytes =>
          obtain ⟨first, hfirst, hleft⟩ := uartReceive_receives h hinput
          obtain rfl := hfirst.unique (usicUartReceive_stable uart s) hanswer
          rw [hinput, List.length_cons] at hshort
          exact ih (i + 1) _ first (by rw [hleft]; omega) hlater

/-- A driver that transfers the whole request ends `dev_read` in one turn. -/
theorem devRead_once {vnode : Vnode} {ptr : Nat → UInt8} {count : UInt32} {s t : σ} {r : Int32}
    {uio : Uio} (hpos : 0 < count.toInt32)
    (hcall : Ends (fun fuel => dRead board fuel vnode ⟨ptr, count.toInt32, .read⟩ s) (r, uio, t))
    (hresid : uio.resid = 0) :
    Ends (fun fuel => devRead board fuel vnode ptr count s) (count.toInt32, uio.base, t) := by
  have hzero : (0 : Int32).toUInt32 = 0 := rfl
  have hturn : Ends (fun fuel => readTurn board vnode count fuel (.start ptr count s))
      ⟨uio.base, 0, t⟩ := by
    simp only [readTurn, start_request, ends_map]
    refine ⟨_, hcall, ?_⟩
    rw [start_after, hresid]
  have hturns := Turns.turn (show (ReadState.start ptr count s).more from hpos) hturn (.refl _)
  refine ends_map.mpr ⟨_, (loop_ends (readTurn_stable board vnode count)).mpr
    ⟨hturns, not_more rfl⟩, ?_⟩
  simp only [hzero, UInt32.sub_zero]

/-- Without anything to transfer `dev_read` does not call the driver. -/
theorem devRead_none {vnode : Vnode} {ptr : Nat → UInt8} {count : UInt32} {s : σ}
    (hnone : ¬ 0 < count.toInt32) :
    Ends (fun fuel => devRead board fuel vnode ptr count s) (0, ptr, s) := by
  refine ⟨1, ?_⟩
  have hmore : ¬ (ReadState.start ptr count s).more := hnone
  change devRead board 1 vnode ptr count s = _
  rw [devRead, loop, if_neg hmore]
  simp only [Option.map_some, ReadState.start, UInt32.toUInt32_toInt32, UInt32.sub_self]
  rfl

/-- Where the loop of `dev_read` is entered, the driver's first call ends. -/
theorem devRead_first {vnode : Vnode} {ptr : Nat → UInt8} {count : UInt32} {s : σ}
    (hpos : 0 < count.toInt32)
    (hreturns : Returns fun fuel => devRead board fuel vnode ptr count s) :
    Returns fun fuel => dRead board fuel vnode ⟨ptr, count.toInt32, .read⟩ s := by
  obtain ⟨last, hlast⟩ := returns_map.mp hreturns
  obtain ⟨hturns, hdone⟩ := (loop_ends (readTurn_stable board vnode count)).mp hlast
  cases hturns with
  | refl => exact absurd hpos hdone
  | turn _ hbody _ =>
      obtain ⟨answer, hanswer, _⟩ := ends_map.mp hbody
      rw [start_request] at hanswer
      exact ⟨answer, hanswer⟩

theorem transferred_pos (len : Int32) : 0 < transferred len ↔ 0 < len := by
  rw [Int32.lt_iff_toInt_lt, transferred]
  change _ ↔ (0 : Int) < _
  omega

theorem sysRead_ends (h : Receives board.uart input) (ptr : Nat → UInt8) (len : Int32)
    (s : Process σ) (hlen : transferred len ≤ (input s.hardware).length) :
    ∃ t, Ends (fun fuel => sysRead board frame fuel stdinFileno ptr len s)
        (if 0 < len then len else 0,
          overlay 0 ((input s.hardware).take (transferred len)) ptr,
          { s with hardware := t }) ∧
      input t = (input s.hardware).drop (transferred len) := by
  by_cases hpos : 0 < len
  · obtain ⟨t, hloop, hleft⟩ := receiveLoop_receives h
      ((input s.hardware).take (transferred len)) ((input s.hardware).drop (transferred len)) 0
      ptr s.hardware (List.take_append_drop _ _).symm
    rw [List.length_take, Nat.min_eq_left hlen] at hloop
    have hcall : Ends (fun fuel => dRead board fuel (uartVnode (frame s.hardware))
        ⟨ptr, len.toUInt32.toInt32, .read⟩ s.hardware) (0,
          { drained ⟨ptr, len.toUInt32.toInt32, .read⟩ with
            base := overlay 0 ((input s.hardware).take (transferred len)) ptr }, t) := by
      simp only [dRead, uartVnode, usicUartRead, request_transferred, ends_map]
      exact ⟨_, hloop, rfl⟩
    have hread := devRead_once hpos hcall (drained_transferred.trans (if_pos hpos))
    refine ⟨t, ?_, hleft⟩
    rw [if_pos hpos]
    simp only [sysRead, if_pos, ends_map]
    exact ⟨_, hread, rfl⟩
  · have hnone : transferred len = 0 := by
      have := (transferred_pos len).not.mpr hpos
      omega
    have hread : Ends (fun fuel => devRead board fuel (uartVnode (frame s.hardware)) ptr
        len.toUInt32 s.hardware) (0, ptr, s.hardware) :=
      devRead_none hpos
    refine ⟨s.hardware, ?_, by rw [hnone, List.drop_zero]⟩
    rw [if_neg hpos, hnone]
    simp only [sysRead, if_pos, ends_map]
    exact ⟨_, hread, rfl⟩

theorem sysRead_stable (file : Int32) (ptr : Nat → UInt8) (len : Int32) (s : Process σ) :
    Stable fun fuel => sysRead board frame fuel file ptr len s := by
  apply Stable.ite
  · exact (devRead_stable board _ _ _ _).map _
  · exact stable_const _

theorem sysRead_blocks (h : Receives board.uart input) (ptr : Nat → UInt8) (len : Int32)
    (s : Process σ) (hshort : (input s.hardware).length < transferred len) :
    ¬ Returns fun fuel => sysRead board frame fuel stdinFileno ptr len s := by
  intro hreturns
  have hpos : 0 < len := (transferred_pos len).mp (Nat.zero_lt_of_lt hshort)
  have hread : Returns fun fuel => devRead board fuel (uartVnode (frame s.hardware)) ptr
      len.toUInt32 s.hardware := by
    simp only [sysRead, if_pos] at hreturns
    exact returns_map.mp hreturns
  have hcall := devRead_first hpos hread
  simp only [dRead, uartVnode, usicUartRead, request_transferred] at hcall
  exact receiveLoop_blocks h _ _ _ _ hshort (returns_map.mp hcall)

/-- `getchar` takes the next byte that is received. -/
theorem getchar_receives (h : Receives board.uart input) (c : UInt8) (s : Process σ) {b : UInt8}
    {rest : List UInt8} (hinput : input s.hardware = b :: rest) :
    ∃ t, Ends (fun fuel => getchar board frame fuel c s)
        (b.toUInt32.toInt32, { s with hardware := t }) ∧ input t = rest := by
  obtain ⟨t, hread, hleft⟩ := sysRead_ends frame h (fun _ => c) 1 s
    (by rw [hinput]; exact Nat.succ_le_of_lt (Nat.succ_pos _))
  have hone : transferred 1 = 1 := rfl
  rw [hinput, hone] at hread hleft
  exact ⟨t, ends_map.mpr ⟨_, hread, rfl⟩, hleft⟩

/-- For every buffer and length: `sys_read` on standard input returns if and only
if that many bytes are received, stores just those, in order, and reports their
number. Every other descriptor is refused and touches no device. -/
theorem sys_read_receives {σ : Type*} (board : Board σ) (frame : σ → Vnode)
    (input : σ → List UInt8) (h : Receives board.uart input) (file : Int32) (ptr : Nat → UInt8)
    (len : Int32) (s : Process σ) :
    (Returns (fun fuel => sysRead board frame fuel file ptr len s) ↔
        file ≠ stdinFileno ∨ transferred len ≤ (input s.hardware).length) ∧
      ∀ r, Ends (fun fuel => sysRead board frame fuel file ptr len s) r →
        if file = stdinFileno then
          r.1 = (if 0 < len then len else 0) ∧
            r.2.1 = overlay 0 ((input s.hardware).take (transferred len)) ptr ∧
            r.2.2.errno = s.errno ∧
            input r.2.2.hardware = (input s.hardware).drop (transferred len)
        else r = (-1, ptr, { s with errno := ebadf }) := by
  by_cases hfile : file = stdinFileno
  · subst hfile
    simp only [ne_eq, not_true_eq_false, false_or, if_true]
    by_cases hlen : transferred len ≤ (input s.hardware).length
    · obtain ⟨t, hread, hleft⟩ := sysRead_ends frame h ptr len s hlen
      refine ⟨⟨fun _ => hlen, fun _ => ⟨_, hread⟩⟩, ?_⟩
      intro r hr
      obtain rfl := hread.unique (sysRead_stable frame _ ptr len s) hr
      exact ⟨rfl, rfl, rfl, hleft⟩
    · have hblocks := sysRead_blocks frame h ptr len s (Nat.lt_of_not_le hlen)
      refine ⟨⟨fun hreturns => absurd hreturns hblocks, fun hle => absurd hle hlen⟩, ?_⟩
      exact fun r hr => absurd ⟨r, hr⟩ hblocks
  · have hrefused : (fun fuel => sysRead board frame fuel file ptr len s) =
        fun _ => some (-1, ptr, { s with errno := ebadf }) := by
      funext fuel
      exact if_neg hfile
    rw [hrefused]
    simp only [ends_some, if_neg hfile, returns_some, true_iff]
    exact ⟨.inl hfile, fun r hr => hr⟩

end Input

/-- A UART, with what has left the transmit queue. -/
structure Uart where
  txfifo : List UInt8
  sent : List UInt8
  rxfifo : List UInt8

/-- All that has been put into the queue. -/
def Uart.line (u : Uart) : List UInt8 :=
  u.sent ++ u.txfifo

/-- When the queue is polled full it has been sent by the next poll. -/
def uartChannel : UsicChannel Uart where
  txfifoIsFull u :=
    if u.txfifo.length < txfifoSize then (false, u)
    else (true, { u with txfifo := [], sent := u.sent ++ u.txfifo })
  txfifoPutData w u :=
    if u.txfifo.length < txfifoSize then { u with txfifo := u.txfifo ++ [w.toUInt8] } else u
  rxfifoIsEmpty u := (u.rxfifo.isEmpty, u)
  rxfifoGetData u := ((u.rxfifo.headD 0).toUInt16, { u with rxfifo := u.rxfifo.tail })

theorem uartChannel_transmits : Transmits uartChannel Uart.line where
  full u := by
    by_cases hroom : u.txfifo.length < txfifoSize
    · simp [uartChannel, hroom]
    · simp [uartChannel, hroom, Uart.line]
  drains u := by
    by_cases hroom : u.txfifo.length < txfifoSize
    · exact ⟨u, 1, by simp [waitWhile, uartChannel, hroom]⟩
    · refine ⟨{ u with txfifo := [], sent := u.sent ++ u.txfifo }, 2, ?_⟩
      simp [waitWhile, uartChannel, hroom, show 0 < txfifoSize by decide]
  put w u t hpoll := by
    by_cases hroom : u.txfifo.length < txfifoSize
    · simp only [uartChannel, hroom, if_true, Prod.mk.injEq, true_and] at hpoll
      subst hpoll
      simp [uartChannel, hroom, Uart.line]
    · simp [uartChannel, hroom] at hpoll

theorem uartChannel_receives : Receives uartChannel Uart.rxfifo where
  empty _ := rfl
  arrives u := by
    constructor
    · rintro ⟨t, fuel, hfuel⟩ hnone
      obtain ⟨polled, hpolled⟩ := waitWhile_last hfuel
      have hkept : t.rxfifo = u.rxfifo := waitWhile_keeps (fun _ => rfl) hfuel
      simp only [uartChannel, Prod.mk.injEq] at hpolled
      obtain ⟨hbusy, rfl⟩ := hpolled
      rw [hnone] at hkept
      simp [hkept] at hbusy
    · intro hsome
      exact ⟨u, 1, by simp [waitWhile, uartChannel, hsome]⟩
  get u t hpoll := by
    simp only [uartChannel, Prod.mk.injEq] at hpoll
    obtain ⟨hbusy, rfl⟩ := hpoll
    cases hqueue : u.rxfifo with
    | nil => simp [hqueue] at hbusy
    | cons b bytes => simp [uartChannel, hqueue]

def idleVnode : Vnode := ⟨.uart, 0, 0, none⟩

/-- A board with the UART alone. -/
def uartBoard : Board Uart where
  i2c :=
    { uartChannel with
      masterStart := fun _ _ u => u
      masterReceiveAck := id
      masterReceiveNack := id
      masterStop := id
      getStatusFlag := fun u => (3, u)
      clearStatusFlag := fun _ u => u
      ackReceived := 1
      receiveIndication := 2 }
  spi := ⟨fun _ u => (0xFF, u)⟩
  uart := uartChannel
  stack _ _ := 0

/-- The queue has room for one byte more. -/
def busyUart : Process Uart := ⟨0, ⟨List.replicate 15 0x2D, [], [0x61, 0x62, 0x63]⟩⟩

/-- The line has every character of `n-214748364870Aok`. -/
theorem printf_on_line_busy :
    ∃ t, Ends (fun fuel => printf uartBoard (fun _ => idleVnode) fuel sampleArguments
        (formatOf sampleItems) (fun _ => 0xAA) busyUart) (0, t) ∧
      t.hardware.line =
        List.replicate 15 0x2D ++ "n-214748364870Aok".toList.map Char.toUInt8 := by
  have hboth := printf_on_line uartBoard (fun _ => idleVnode) Uart.line uartChannel_transmits
    sampleArguments (formatOf sampleItems) (fun _ => 0xAA) busyUart
  have hresult : (cnprintf sampleArguments 128 (formatOf sampleItems) (fun _ => 0xAA)).result =
      some 0 := by
    decide +kernel
  have hsent : sent (cnprintf sampleArguments 128 (formatOf sampleItems) (fun _ => 0xAA)).events =
      "n-214748364870Aok".toList.map Char.toUInt8 := by
    decide +kernel
  have hends : (cnprintf sampleArguments 128 (formatOf sampleItems) (fun _ => 0xAA)).result ≠
      none := by
    rw [hresult]
    simp
  obtain ⟨⟨r, t⟩, hr⟩ := hboth.1.mpr hends
  obtain ⟨hzero, _, hline⟩ := hboth.2 r t hr
  obtain rfl := Option.some.inj (hresult.symm.trans hzero)
  refine ⟨t, hr, ?_⟩
  rw [hline, hsent]
  rfl

/-- Two of the three bytes that were received. -/
theorem sys_read_receives_two :
    ∃ r, Ends (fun fuel => sysRead uartBoard (fun _ => idleVnode) fuel stdinFileno (fun _ => 0)
        2 busyUart) r ∧
      r.1 = 2 ∧ r.2.1 0 = 0x61 ∧ r.2.1 1 = 0x62 ∧ r.2.2.hardware.rxfifo = [0x63] := by
  have hboth := sys_read_receives uartBoard (fun _ => idleVnode) Uart.rxfifo uartChannel_receives
    stdinFileno (fun _ => 0) 2 busyUart
  obtain ⟨r, hr⟩ := hboth.1.mpr (.inr (by decide))
  have hread := hboth.2 r hr
  rw [if_pos rfl] at hread
  obtain ⟨hcount, hbytes, _, hleft⟩ := hread
  refine ⟨r, hr, hcount, ?_, ?_, hleft⟩
  · rw [hbytes]
    rfl
  · rw [hbytes]
    rfl

end PascalScheduler.Sys
