import PascalScheduler.Sys.DevRead
import PascalScheduler.Dev.MmcBuffer

/-!
What `dev_write` reports. The transfers to the devices are written out a second
time with a record of the elements that the device takes, in order; without the
record they are the transfers of `Sys/Dev`. The answer is compared with it.
-/

namespace PascalScheduler.Sys

open Fuel

section Traced

variable {σ : Type*}

/-- What the device behind the I2C master acknowledges: its address, where the
driver has waited for that, and a byte, where it is sent. No function of the
driver looks at either. -/
structure I2cPeer (σ : Type*) where
  takesAddress : σ → Bool
  takesByte : UInt8 → σ → Bool

/-- An element is transferred when it was sent to a device that is `listening`
and takes it; one that does not has stopped listening. -/
def sendLoopTraced (send : UInt8 → σ → Option σ) (takes : UInt8 → σ → Bool) (ptr : Nat → UInt8) :
    Bool → Nat → Nat → σ → Trace Nat σ
  | _, 0, _, s => .pure s
  | listening, resid + 1, i, s =>
      let taken := listening && takes (ptr i) s
      (Trace.lift (send (ptr i) s)).bind fun s =>
        let rest := sendLoopTraced send takes ptr taken resid (i + 1) s
        if taken then .step i rest else rest

/-- What is sent to a queue or to an SPI device is transferred. -/
def takesAll (_ : UInt8) (_ : σ) : Bool :=
  true

def usicUartWriteTraced (uart : UsicChannel σ) (fuel : Nat) (uio : Uio) (s : σ) :
    Trace Nat (Int32 × Uio × σ) :=
  (sendLoopTraced (usicUartSend uart fuel) takesAll uio.base true uio.count 0 s).map fun s =>
    (0, drained uio, s)

def usicI2cWriteTraced (i2c : I2cChannel σ) (peer : I2cPeer σ) (fuel : Nat)
    (vnode : Vnode) (uio : Uio) (s : σ) : Trace Nat (Int32 × Uio × σ) :=
  let s := usicI2cAddress i2c vnode s
  (sendLoopTraced (usicI2cSend i2c fuel) peer.takesByte uio.base (peer.takesAddress s)
    uio.count 0 s).map fun s => (0, drained uio, i2c.masterStop s)

def usicSpiWriteTraced (spi : SpiDevice σ) (uio : Uio) (s : σ) : Trace Nat (Int32 × Uio × σ) :=
  (sendLoopTraced (fun b s => some (usicSpiSend spi b s)) takesAll uio.base true
    uio.count 0 s).map fun s => (0, drained uio, s)

/-- The elements of the request among the bytes that are sent from a buffer;
`held` says which element each place of it holds. -/
def sentElements : (Nat → Option Nat) → List BufAccess → List Nat
  | _, [] => []
  | held, .fill i :: rest => sentElements (Function.update held i none) rest
  | held, .copyIn element i :: rest => sentElements (Function.update held i (some element)) rest
  | held, .copyOut _ _ :: rest => sentElements held rest
  | held, .send i :: rest => (held i).toList ++ sentElements held rest

def dWriteTraced (board : Board σ) (peer : I2cPeer σ) (fuel : Nat) (vnode : Vnode)
    (uio : Uio) (s : σ) : Trace Nat (Int32 × Uio × σ) :=
  match vnode.devId with
  | .i2c => usicI2cWriteTraced board.i2c peer fuel vnode uio s
  | .spi => usicSpiWriteTraced board.spi uio s
  | .uart => usicUartWriteTraced board.uart fuel uio s
  | .pwm => .lift (ccu4PwmWrite uio s)
  | .lcd => .lift (hd44780Write uio s)
  | .mmc =>
      ((mmcSpiWriteTraced board.spi fuel vnode.data vnode.offset uio (board.stack s) s).check
        BufAccess.Inside).observe (sentElements fun _ => none)
  | .rtc => .lift (ds1307RtcWrite uio s)

def devWriteTraced (board : Board σ) (peer : I2cPeer σ) (fuel : Nat) (vnode : Vnode)
    (ptr : Nat → UInt8) (count : UInt32) (s : σ) : Trace Nat (Int32 × σ) :=
  (dWriteTraced board peer fuel vnode ⟨ptr, count.toInt32, .write⟩ s).map fun r =>
    ((count - r.2.1.resid.toUInt32).toInt32, r.2.2)

end Traced

section Erasure

variable {σ : Type*} (board : Board σ) (peer : I2cPeer σ) (fuel : Nat) (vnode : Vnode)

theorem sendLoopTraced_result (send : UInt8 → σ → Option σ) (takes : UInt8 → σ → Bool)
    (ptr : Nat → UInt8) (listening : Bool) (resid i : Nat) (s : σ) :
    (sendLoopTraced send takes ptr listening resid i s).result = sendLoop send ptr resid i s := by
  induction resid generalizing listening i s with
  | zero => rfl
  | succ resid ih =>
      simp only [sendLoopTraced, sendLoop, Trace.result_bind, Trace.result_lift,
        apply_ite Trace.result, Trace.result_step, ih, ite_self]

theorem dWriteTraced_result (uio : Uio) (s : σ) :
    (dWriteTraced board peer fuel vnode uio s).result = dWrite board fuel vnode uio s := by
  rcases vnode with ⟨devId, endpt, offset, data⟩
  cases devId with
  | i2c =>
      simp only [dWriteTraced, usicI2cWriteTraced, dWrite, usicI2cWrite, Trace.result_map,
        sendLoopTraced_result]
  | spi =>
      simp only [dWriteTraced, usicSpiWriteTraced, dWrite, usicSpiWrite, Trace.result_map,
        sendLoopTraced_result]
  | uart =>
      simp only [dWriteTraced, usicUartWriteTraced, dWrite, usicUartWrite, Trace.result_map,
        sendLoopTraced_result]
  | mmc =>
      simp only [dWriteTraced, dWrite, Trace.result_observe, Trace.result_check]
      exact mmcSpiWriteTraced_checked _ _ _ _ _ _
  | pwm => rfl
  | lcd => rfl
  | rtc => rfl

/-- Without the record it is `dev_write`. -/
theorem devWriteTraced_result (ptr : Nat → UInt8) (count : UInt32) (s : σ) :
    (devWriteTraced board peer fuel vnode ptr count s).result =
      devWrite board fuel vnode ptr count s := by
  rw [devWriteTraced, Trace.result_map, dWriteTraced_result, devWrite]

end Erasure

section Events

variable {σ : Type*}

theorem sendLoopTraced_deaf {send : UInt8 → σ → Option σ} {takes : UInt8 → σ → Bool}
    {ptr : Nat → UInt8} {resid i : Nat} {s : σ} :
    (sendLoopTraced send takes ptr false resid i s).events = [] := by
  induction resid generalizing i s with
  | zero => rfl
  | succ resid ih =>
      simp only [sendLoopTraced, Bool.false_and, Bool.false_eq_true, if_false]
      cases send (ptr i) s with
      | none => rfl
      | some t => rw [Trace.lift_some_bind, ih]

/-- A loop that ends has transferred all of its elements when the device was
listening and took each of them. -/
theorem sendLoopTraced_all {send : UInt8 → σ → Option σ} {takes : UInt8 → σ → Bool}
    {ptr : Nat → UInt8} {listening : Bool} {resid i : Nat} {s t : σ}
    (h : sendLoop send ptr resid i s = some t) :
    (sendLoopTraced send takes ptr listening resid i s).events = List.range' i resid ↔
      (0 < resid → listening = true) ∧
        ∀ j, j < resid → ∀ u, sendLoop send ptr j i s = some u → takes (ptr (i + j)) u = true := by
  induction resid generalizing listening i s with
  | zero => simp [sendLoopTraced]
  | succ resid ih =>
      obtain ⟨u, hsend, hrest⟩ := Option.bind_eq_some_iff.mp h
      have hlater : ∀ j, sendLoop send ptr (j + 1) i s = sendLoop send ptr j (i + 1) u := by
        intro j
        rw [sendLoop, hsend, Option.bind_some]
      rw [sendLoopTraced, hsend, Trace.lift_some_bind, List.range'_succ]
      by_cases htaken : (listening && takes (ptr i) s) = true
      · obtain ⟨hlistening, hfirst⟩ := Bool.and_eq_true_iff.mp htaken
        simp only [htaken, if_true, Trace.events_step, List.cons.injEq, true_and, ih hrest]
        constructor
        · rintro ⟨_, hothers⟩
          refine ⟨fun _ => hlistening, ?_⟩
          intro j hj v hv
          cases j with
          | zero =>
              rw [← Option.some.inj hv]
              exact hfirst
          | succ j =>
              rw [hlater] at hv
              rw [← Nat.succ_add_eq_add_succ]
              exact hothers j (by omega) v hv
        · rintro ⟨_, hall⟩
          refine ⟨fun _ => trivial, ?_⟩
          intro j hj v hv
          rw [Nat.succ_add_eq_add_succ]
          exact hall (j + 1) (by omega) v ((hlater j).trans hv)
      · simp only [eq_false_of_ne_true htaken, Bool.false_eq_true, if_false, sendLoopTraced_deaf]
        apply iff_of_false
        · exact List.cons_ne_nil _ _ ∘ Eq.symm
        · rintro ⟨hlistening, hall⟩
          apply htaken
          rw [hlistening (Nat.succ_pos _), Bool.true_and]
          exact hall 0 (Nat.succ_pos _) s rfl

/-- A queue and an SPI device take everything. -/
theorem sendLoopTraced_takesAll {send : UInt8 → σ → Option σ} {ptr : Nat → UInt8}
    {resid i : Nat} {s t : σ} (h : sendLoop send ptr resid i s = some t) :
    (sendLoopTraced send takesAll ptr true resid i s).events = List.range' i resid :=
  (sendLoopTraced_all h).mpr ⟨fun _ => rfl, fun _ _ _ _ => rfl⟩

/-- Filling a buffer that holds nothing leaves it so. -/
theorem sentElements_fills (size : Nat) (rest : List BufAccess) :
    sentElements (fun _ => none) (fills size ++ rest) = sentElements (fun _ => none) rest := by
  have hnone : ∀ i, Function.update (fun _ : Nat => (none : Option Nat)) i none =
      fun _ => none := by
    intro i
    exact Function.update_eq_self i _
  have hfills : ∀ is : List Nat, sentElements (fun _ => none) (is.map .fill ++ rest) =
      sentElements (fun _ => none) rest := by
    intro is
    induction is with
    | nil => rfl
    | cons i is ih =>
        rw [List.map_cons, List.cons_append, sentElements, hnone]
        exact ih
  rw [fills, List.cons_append, sentElements, hnone]
  exact hfills _

/-- What a place of the buffer holds after `n` elements were copied in. -/
def heldAfter (place n : Nat) (k : Nat) : Option Nat :=
  if place ≤ k ∧ k < place + n then some (k - place) else none

theorem sentElements_copies (place n : Nat) (rest : List BufAccess) :
    sentElements (fun _ => none) (copies .copyIn 0 place n ++ rest) =
      sentElements (heldAfter place n) rest := by
  induction n generalizing rest with
  | zero =>
      have hnone : heldAfter place 0 = fun _ => none := by
        funext k
        rw [heldAfter, if_neg (by omega)]
      rw [hnone]
      rfl
  | succ n ih =>
      have hnext : Function.update (heldAfter place n) (place + n) (some n) =
          heldAfter place (n + 1) := by
        funext k
        rcases eq_or_ne k (place + n) with rfl | hk
        · rw [Function.update_self, heldAfter, if_pos (by omega), Nat.add_sub_cancel_left]
        · rw [Function.update_of_ne hk, heldAfter, heldAfter]
          congr 1
          simp only [eq_iff_iff]
          omega
      have hsplit : copies .copyIn 0 place (n + 1) =
          copies .copyIn 0 place n ++ [.copyIn n (place + n)] := by
        simp [copies, List.range_succ]
      rw [hsplit, List.append_assoc, ih, List.singleton_append, sentElements, hnext]

theorem sentElements_sends (held : Nat → Option Nat) (size : Nat) :
    sentElements held (sends size) = (List.range size).filterMap held := by
  have hsends : ∀ is : List Nat, sentElements held (is.map .send) = is.filterMap held := by
    intro is
    induction is with
    | nil => rfl
    | cons i is ih =>
        rw [List.map_cons, sentElements, ih]
        cases hi : held i with
        | none => simp [hi]
        | some element => simp [hi]
  exact hsends _

/-- The elements that lie inside the block that is sent. -/
theorem filterMap_heldAfter (place n size : Nat) :
    (List.range size).filterMap (heldAfter place n) = List.range (min n (size - place)) := by
  induction size with
  | zero => simp
  | succ size ih =>
      rw [List.range_succ, List.filterMap_append, ih]
      by_cases hin : place ≤ size ∧ size < place + n
      · have hnext : min n (size + 1 - place) = min n (size - place) + 1 := by omega
        have hlast : size - place = min n (size - place) := by omega
        rw [hnext, List.range_succ, ← hlast]
        simp [heldAfter, hin]
      · have hsame : min n (size + 1 - place) = min n (size - place) := by omega
        rw [hsame]
        simp [heldAfter, hin]

/-- What a write sends of its request: nothing, or what lies inside the block. -/
theorem sentElements_write (filled place n size : Nat) (sent : Prop) [Decidable sent] :
    sentElements (fun _ => none)
        (fills filled ++ (copies .copyIn 0 place n ++ if sent then sends size else [])) =
      if sent then List.range (min n (size - place)) else [] := by
  rw [sentElements_fills, sentElements_copies]
  by_cases h : sent
  · rw [if_pos h, if_pos h, sentElements_sends, filterMap_heldAfter]
  · rw [if_neg h, if_neg h]
    rfl

end Events

section Returned

variable {σ : Type*} {ptr : Nat → UInt8} {count : UInt32}

/-- What is returned when nothing is left. -/
theorem returned_all (hcount : count.toNat < 2 ^ 31) :
    (count - (0 : Int32).toUInt32).toInt32.toInt = count.toNat := by
  have hzero : (0 : Int32).toUInt32 = 0 := rfl
  rw [hzero, UInt32.sub_zero, count_toInt hcount]

theorem returned_none : (count - count.toInt32.toUInt32).toInt32.toInt = 0 := by
  rw [UInt32.toUInt32_toInt32, UInt32.sub_self]
  rfl

/-- The value returned is the number of the elements transferred, which are the
first ones of the buffer in order. -/
def Reports (transferred : List Nat) (returned : Int32) : Prop :=
  ∃ n, transferred = List.range n ∧ returned.toInt = n

/-- The value returned says which elements they have to be. -/
theorem reports_iff {transferred : List Nat} {returned : Int32} {n : Nat}
    (h : returned.toInt = n) : Reports transferred returned ↔ transferred = List.range n := by
  constructor
  · rintro ⟨m, hrange, hreturned⟩
    have hmn : m = n := by omega
    rw [hrange, hmn]
  · intro hrange
    exact ⟨n, hrange, h⟩

theorem reports_nil {returned : Int32} (h : returned.toInt = 0) : Reports [] returned :=
  (reports_iff h).mpr rfl

end Returned

section Drivers

variable {σ : Type*} {board : Board σ} (peer : I2cPeer σ) {fuel : Nat} {vnode : Vnode}
  {ptr : Nat → UInt8} {count : UInt32} {s : σ} {r : Int32 × σ}

/-- A driver that sends all the same has sent everything when it returns, and
that is what is reported. -/
theorem sent_written {send : UInt8 → σ → Option σ} {f : σ → σ} {t : σ}
    (hcall : dWrite board fuel vnode ⟨ptr, count.toInt32, .write⟩ s =
      (sendLoop send ptr (Uio.count ⟨ptr, count.toInt32, .write⟩) 0 t).map fun t =>
        (0, drained ⟨ptr, count.toInt32, .write⟩, f t))
    (hcount : count.toNat < 2 ^ 31) (hrun : devWrite board fuel vnode ptr count s = some r) :
    (∃ u, sendLoop send ptr count.toNat 0 t = some u) ∧ r.1.toInt = count.toNat := by
  rw [devWrite, hcall, Option.map_map, request_count hcount] at hrun
  obtain ⟨u, hsend, rfl⟩ := Option.map_eq_some_iff.mp hrun
  refine ⟨⟨u, hsend⟩, ?_⟩
  simp only [Function.comp_apply, drained_request hcount, returned_all hcount]

/-- Where a queue or a device takes whatever is sent, that is right. -/
theorem sent_reports {send : UInt8 → σ → Option σ} {t : σ}
    (hcall : dWrite board fuel vnode ⟨ptr, count.toInt32, .write⟩ s =
      (sendLoop send ptr (Uio.count ⟨ptr, count.toInt32, .write⟩) 0 t).map fun t =>
        (0, drained ⟨ptr, count.toInt32, .write⟩, t))
    (htraced : dWriteTraced board peer fuel vnode ⟨ptr, count.toInt32, .write⟩ s =
      (sendLoopTraced send takesAll ptr true (Uio.count ⟨ptr, count.toInt32, .write⟩) 0 t).map
        fun t => (0, drained ⟨ptr, count.toInt32, .write⟩, t))
    (hcount : count.toNat < 2 ^ 31) (hrun : devWrite board fuel vnode ptr count s = some r) :
    Reports (devWriteTraced board peer fuel vnode ptr count s).events r.1 := by
  obtain ⟨⟨u, hsent⟩, hreturned⟩ := sent_written (f := id) hcall hcount hrun
  rw [reports_iff hreturned, devWriteTraced, htraced, Trace.events_map, Trace.events_map,
    request_count hcount, sendLoopTraced_takesAll hsent, List.range_eq_range']

theorem uart_reports (hdev : vnode.devId = .uart) (hcount : count.toNat < 2 ^ 31)
    (hrun : devWrite board fuel vnode ptr count s = some r) :
    Reports (devWriteTraced board peer fuel vnode ptr count s).events r.1 := by
  have hcall : dWrite board fuel vnode ⟨ptr, count.toInt32, .write⟩ s =
      usicUartWrite board.uart fuel ⟨ptr, count.toInt32, .write⟩ s := by
    rw [dWrite, hdev]
  have htraced : dWriteTraced board peer fuel vnode ⟨ptr, count.toInt32, .write⟩ s =
      usicUartWriteTraced board.uart fuel ⟨ptr, count.toInt32, .write⟩ s := by
    rw [dWriteTraced, hdev]
  exact sent_reports peer hcall htraced hcount hrun

theorem spi_reports (hdev : vnode.devId = .spi) (hcount : count.toNat < 2 ^ 31)
    (hrun : devWrite board fuel vnode ptr count s = some r) :
    Reports (devWriteTraced board peer fuel vnode ptr count s).events r.1 := by
  have hcall : dWrite board fuel vnode ⟨ptr, count.toInt32, .write⟩ s =
      usicSpiWrite board.spi ⟨ptr, count.toInt32, .write⟩ s := by
    rw [dWrite, hdev]
  have htraced : dWriteTraced board peer fuel vnode ⟨ptr, count.toInt32, .write⟩ s =
      usicSpiWriteTraced board.spi ⟨ptr, count.toInt32, .write⟩ s := by
    rw [dWriteTraced, hdev]
  exact sent_reports peer hcall htraced hcount hrun

/-- The drivers without a transfer leave the request alone. -/
theorem idle_reports (hdev : vnode.devId = .pwm ∨ vnode.devId = .lcd ∨ vnode.devId = .rtc)
    (hrun : devWrite board fuel vnode ptr count s = some r) :
    Reports (devWriteTraced board peer fuel vnode ptr count s).events r.1 := by
  have hcall : dWriteTraced board peer fuel vnode ⟨ptr, count.toInt32, .write⟩ s =
      .pure (0, ⟨ptr, count.toInt32, .write⟩, s) := by
    rcases hdev with hpwm | hlcd | hrtc
    · rw [dWriteTraced, hpwm]
      rfl
    · rw [dWriteTraced, hlcd]
      rfl
    · rw [dWriteTraced, hrtc]
      rfl
  rw [← devWriteTraced_result board peer, devWriteTraced, hcall, Trace.result_map,
    Trace.result_pure, Option.map_some, Option.some.injEq] at hrun
  rw [devWriteTraced, hcall, ← hrun]
  exact reports_nil returned_none

end Drivers

section I2c

variable {σ : Type*} {board : Board σ} {peer : I2cPeer σ} {fuel : Nat} {vnode : Vnode}
  {ptr : Nat → UInt8} {count : UInt32} {s : σ} {r : Int32 × σ}

/-- The I2C channel when the first elements have been sent. -/
def SentUpTo (board : Board σ) (vnode : Vnode) (ptr : Nat → UInt8) (s : σ) (n : Nat) (t : σ) :
    Prop :=
  Ends (fun fuel => sendLoop (usicI2cSend board.i2c fuel) ptr n 0
    (usicI2cAddress board.i2c vnode s)) t

/-- The peer takes its address and every byte. -/
structure PeerTakes (board : Board σ) (peer : I2cPeer σ) (vnode : Vnode) (ptr : Nat → UInt8)
    (n : Nat) (s : σ) : Prop where
  address : 0 < n → peer.takesAddress (usicI2cAddress board.i2c vnode s) = true
  bytes : ∀ j, j < n → ∀ t, SentUpTo board vnode ptr s j t → peer.takesByte (ptr j) t = true

theorem usicI2cSend_stable (ptr : Nat → UInt8) (n i : Nat) (s : σ) :
    Stable (fun fuel => sendLoop (usicI2cSend board.i2c fuel) ptr n i s) :=
  sendLoop_stable (fifoSend_stable _) _ _ _ _

/-- The elements before the last were sent on the way. -/
theorem sendLoop_prefix {send : UInt8 → σ → Option σ} {n i j : Nat} {s t : σ} (hj : j ≤ n)
    (h : sendLoop send ptr n i s = some t) : ∃ u, sendLoop send ptr j i s = some u := by
  induction j generalizing n i s with
  | zero => exact ⟨s, rfl⟩
  | succ j ih =>
      obtain ⟨n, rfl⟩ := Nat.exists_eq_add_of_le' (Nat.lt_of_lt_of_le (Nat.succ_pos _) hj)
      obtain ⟨v, hv, hrest⟩ := Option.bind_eq_some_iff.mp h
      obtain ⟨u, hu⟩ := ih (by omega) hrest
      refine ⟨u, ?_⟩
      rw [sendLoop, hv, Option.bind_some, hu]

/-- A call that returns has sent every byte; it is right when the peer took
them. -/
theorem i2c_run_reports_iff (hdev : vnode.devId = .i2c) (hcount : count.toNat < 2 ^ 31)
    (hrun : devWrite board fuel vnode ptr count s = some r) :
    Reports (devWriteTraced board peer fuel vnode ptr count s).events r.1 ↔
      PeerTakes board peer vnode ptr count.toNat s := by
  have hcall : dWrite board fuel vnode ⟨ptr, count.toInt32, .write⟩ s =
      usicI2cWrite board.i2c fuel vnode ⟨ptr, count.toInt32, .write⟩ s := by
    rw [dWrite, hdev]
  obtain ⟨⟨u, hsent⟩, hreturned⟩ := sent_written hcall hcount hrun
  rw [reports_iff hreturned]
  simp only [devWriteTraced, dWriteTraced, hdev, usicI2cWriteTraced, Trace.events_map,
    request_count hcount]
  rw [List.range_eq_range', sendLoopTraced_all hsent]
  simp only [Nat.zero_add]
  constructor
  · rintro ⟨haddress, hbytes⟩
    refine ⟨haddress, ?_⟩
    intro j hj v hv
    obtain ⟨w, hw⟩ := sendLoop_prefix (Nat.le_of_lt hj) hsent
    obtain rfl := hv.unique (usicI2cSend_stable _ _ _ _) ⟨fuel, hw⟩
    exact hbytes j hj v hw
  · rintro ⟨haddress, hbytes⟩
    exact ⟨haddress, fun j hj v hv => hbytes j hj v ⟨fuel, hv⟩⟩

theorem i2c_returns_iff (hdev : vnode.devId = .i2c) (hcount : count.toNat < 2 ^ 31) :
    Returns (fun fuel => devWrite board fuel vnode ptr count s) ↔
      ∃ t, SentUpTo board vnode ptr s count.toNat t := by
  simp only [devWrite, dWrite, hdev, usicI2cWrite, request_count hcount, Option.map_map,
    returns_map]
  rfl

theorem i2c_reports_iff (hdev : vnode.devId = .i2c) (hcount : count.toNat < 2 ^ 31) :
    (∀ fuel r, devWrite board fuel vnode ptr count s = some r →
        Reports (devWriteTraced board peer fuel vnode ptr count s).events r.1) ↔
      ((∃ t, SentUpTo board vnode ptr s count.toNat t) →
        PeerTakes board peer vnode ptr count.toNat s) := by
  rw [← i2c_returns_iff hdev hcount]
  constructor
  · rintro h ⟨r, fuel, hrun⟩
    exact (i2c_run_reports_iff hdev hcount hrun).mp (h fuel r hrun)
  · intro h fuel r hrun
    exact (i2c_run_reports_iff hdev hcount hrun).mpr (h ⟨r, fuel, hrun⟩)

end I2c

section Mmc

variable {σ : Type*} {board : Board σ} {peer : I2cPeer σ} {fuel : Nat} {vnode : Vnode}
  {ptr : Nat → UInt8} {count : UInt32} {s : σ} {r : Int32 × σ} {info : MmcInfo} {sector : Int32}

/-- The card when it was asked, after the sector was read, to store it. -/
def askedToStore (board : Board σ) (info : MmcInfo) (sector : Int32) (s : σ) (m n k : Nat) : σ :=
  mmcSendCmd board.spi mmcCmd24 (sector.toUInt32 * info.writeBlockSize)
    (grantedBlock board.spi info (board.stack s) (askedFor board.spi info sector s) m n k).2

/-- Its answer to that, `l` bytes later. -/
def Answers (board : Board σ) (info : MmcInfo) (sector : Int32) (s : σ) (m n k l : Nat)
    (status : UInt8) : Prop :=
  FirstByte board.spi (· ≠ 0xFF) (askedToStore board info sector s m n k) l ∧
    byteAt board.spi (askedToStore board info sector s m n k) l = status

theorem writeStatus_ok {b : UInt8} {t u : σ} :
    (if b ≠ 0 then (mmcError, t) else (mmcOk, u)).1 = mmcOk ↔ b = 0 := by
  have hne : mmcError ≠ mmcOk := by decide
  by_cases h : b = 0
  · simp [h]
  · simp [h, hne]

theorem writeResult_drained {uio : Uio} {written : Int32 × σ} {r : Int32 × Uio × σ}
    (h : writeResult info uio written = some r) : r.2.1 = drained uio := by
  rw [writeResult] at h
  split at h
  · rw [← Option.some.inj h]
  · split at h
    · cases h
    · rw [← Option.some.inj h]

theorem writeResult_returns (uio : Uio) {written : Int32 × σ}
    (h : written.1 = mmcOk → info.writeBlockSize.toNat ≤ maxBlockLength) :
    ∃ r, writeResult info uio written = some r := by
  rw [writeResult]
  by_cases hok : written.1 = mmcOk
  · rw [if_neg (not_not.mpr hok), if_neg (Nat.not_lt.mpr (h hok))]
    exact ⟨_, rfl⟩
  · rw [if_pos hok]
    exact ⟨_, rfl⟩

/-- What a card that grants the sector makes of a request. The buffer holds both
blocks, the one to be written at least where the card asks for it; and where
there is anything to write, the card accepts a block with all of it. -/
structure Stores (board : Board σ) (info : MmcInfo) (offset : Int32) (count : Nat) (s : σ)
    (m n k : Nat) : Prop where
  reads : info.readBlockSize.toNat ≤ maxBlockLength
  sends : ∀ l, Answers board info (sectorOf info offset) s m n k l 0 →
    info.writeBlockSize.toNat ≤ maxBlockLength
  stores : ∀ l status, Answers board info (sectorOf info offset) s m n k l status → 0 < count →
    status = 0 ∧ placeOf info offset + count ≤ info.writeBlockSize.toNat

/-- The card grants the sector of the request. -/
def Granted (board : Board σ) (info : MmcInfo) (offset : Int32) (s : σ) (m n k : Nat) : Prop :=
  GrantsRead board.spi (askedFor board.spi info (sectorOf info offset) s) m n k

/-- The sizes that matter to a request that gets that far. -/
theorem mmc_inside_iff {offset : Int32} {uio : Uio} (haccepted : Accepted info offset uio .write) :
    (∀ fuel, (mmcSpiWriteTraced board.spi fuel (some info) offset uio (board.stack s) s).All
        BufAccess.Inside) ↔
      ∀ m n k, Granted board info offset s m n k →
        info.readBlockSize.toNat ≤ maxBlockLength ∧
          ∀ l, Answers board info (sectorOf info offset) s m n k l 0 →
            info.writeBlockSize.toNat ≤ maxBlockLength := by
  rw [write_inside_iff haccepted]
  constructor
  · intro h m n k hgrants
    obtain ⟨hread, hwrite⟩ := h _ (mmcReadSector_ends.mpr (.inl ⟨m, n, k, hgrants, rfl⟩)) rfl
    refine ⟨hread, ?_⟩
    rintro l ⟨hfirst, hstatus⟩
    exact hwrite _ (mmcWriteSector_ends.mpr ⟨l, hfirst, rfl⟩) (writeStatus_ok.mpr hstatus)
  · intro h sector hsector hok
    obtain ⟨m, n, k, hgrants, rfl⟩ := mmcReadSector_ok.mp ⟨hsector, hok⟩
    obtain ⟨hread, hwrite⟩ := h m n k hgrants
    refine ⟨hread, ?_⟩
    intro written hwritten hsent
    obtain ⟨l, hfirst, rfl⟩ := mmcWriteSector_ends.mp hwritten
    exact hwrite l ⟨hfirst, writeStatus_ok.mp hsent⟩

/-- A refused request is as it was. -/
theorem mmc_refused_reports (hdev : vnode.devId = .mmc)
    (hrefused : ∀ info, vnode.data = some info →
      Refused info vnode.offset ⟨ptr, count.toInt32, .write⟩ .write)
    (hrun : devWrite board fuel vnode ptr count s = some r) :
    Reports (devWriteTraced board peer fuel vnode ptr count s).events r.1 := by
  have hcall : dWriteTraced board peer fuel vnode ⟨ptr, count.toInt32, .write⟩ s =
      .pure (-1, ⟨ptr, count.toInt32, .write⟩, s) := by
    cases hdata : vnode.data with
    | none =>
        rw [dWriteTraced, hdev, hdata]
        rfl
    | some info =>
        simp only [dWriteTraced, hdev, hdata, mmcSpiWriteTraced_refused (hrefused info hdata)]
        rfl
  rw [← devWriteTraced_result board peer, devWriteTraced, hcall, Trace.result_map,
    Trace.result_pure, Option.map_some, Option.some.injEq] at hrun
  rw [devWriteTraced, hcall, ← hrun]
  exact reports_nil returned_none

/-- An accepted one whose blocks the buffer holds is refused by the card, or is
granted and answered. -/
theorem mmc_accepted_written (hdev : vnode.devId = .mmc) (hdata : vnode.data = some info)
    (haccepted : Accepted info vnode.offset ⟨ptr, count.toInt32, .write⟩ .write)
    (hcount : count.toNat < 2 ^ 31)
    (hrun : devWrite board fuel vnode ptr count s = some r) :
    ((∃ t, RefusesRead board.spi (askedFor board.spi info (sectorOf info vnode.offset) s) t) ∧
        Reports (devWriteTraced board peer fuel vnode ptr count s).events r.1) ∨
      ∃ m n k l status, Granted board info vnode.offset s m n k ∧
        Answers board info (sectorOf info vnode.offset) s m n k l status ∧
        (devWriteTraced board peer fuel vnode ptr count s).events =
          (if status = 0 then List.range
              (min count.toNat (info.writeBlockSize.toNat - placeOf info vnode.offset))
            else []) ∧
        r.1.toInt = count.toNat := by
  have hne : mmcError ≠ mmcOk := by decide
  simp only [devWrite, dWrite, hdev, hdata, mmcSpiWrite_accepted haccepted] at hrun
  obtain ⟨called, hcall, rfl⟩ := Option.map_eq_some_iff.mp hrun
  obtain ⟨sector, hsector, hcall⟩ := Option.bind_eq_some_iff.mp hcall
  have htraced : (devWriteTraced board peer fuel vnode ptr count s).events =
      sentElements (fun _ => none) (mmcSpiWriteTraced board.spi fuel (some info) vnode.offset
        ⟨ptr, count.toInt32, .write⟩ (board.stack s) s).events := by
    simp only [devWriteTraced, dWriteTraced, hdev, hdata, Trace.events_map, Trace.events_observe,
      Trace.events_check]
  rw [htraced]
  rcases mmcReadSector_ends.mp ⟨fuel, hsector⟩ with
    ⟨m, n, k, hgrants, rfl⟩ | ⟨t, hrefuses, rfl⟩
  · right
    simp only [ne_eq, not_true_eq_false, if_false] at hcall
    split at hcall
    · cases hcall
    · obtain ⟨written, hwritten, hresult⟩ := Option.bind_eq_some_iff.mp hcall
      obtain ⟨l, hfirst, hsent⟩ := mmcWriteSector_ends.mp ⟨fuel, hwritten⟩
      have hstored : written.1 = mmcOk ↔ byteAt board.spi
          (askedToStore board info (sectorOf info vnode.offset) s m n k) l = 0 := by
        rw [hsent]
        exact writeStatus_ok
      refine ⟨m, n, k, l, _, hgrants, ⟨hfirst, rfl⟩, ?_, ?_⟩
      · rw [mmcSpiWriteTraced_read haccepted rfl hsector hwritten, sentElements_write,
          request_count hcount]
        simp only [hstored]
      · rw [writeResult_drained hresult, drained_request hcount]
        exact returned_all hcount
  · left
    simp only [ne_eq, hne, not_false_eq_true, if_true, Option.some.injEq] at hcall
    refine ⟨⟨t, hrefuses⟩, ?_⟩
    rw [mmcSpiWriteTraced_unread haccepted hne hsector, ← hcall]
    exact reports_nil returned_none

theorem storing_returns {uio : Uio} {buf : Nat → UInt8} {t : σ} {l : Nat}
    (hfirst : FirstByte board.spi (· ≠ 0xFF)
      (mmcSendCmd board.spi mmcCmd24 (sector.toUInt32 * info.writeBlockSize) t) l)
    (hwrite : byteAt board.spi
      (mmcSendCmd board.spi mmcCmd24 (sector.toUInt32 * info.writeBlockSize) t) l = 0 →
        info.writeBlockSize.toNat ≤ maxBlockLength) :
    Returns (fun fuel => (mmcWriteSector board.spi fuel info buf sector t).bind
      (writeResult info uio)) := by
  have hwritten : Ends (fun fuel => mmcWriteSector board.spi fuel info buf sector t) _ :=
    mmcWriteSector_ends.mpr ⟨l, hfirst, rfl⟩
  obtain ⟨r, hr⟩ := writeResult_returns uio fun hok => hwrite (writeStatus_ok.mp hok)
  exact ⟨r, ends_bind_const.mpr ⟨_, hwritten, hr⟩⟩

/-- Where the buffer holds the blocks, a card that answers makes the call
return. -/
theorem mmc_returns (hdev : vnode.devId = .mmc) (hdata : vnode.data = some info)
    (haccepted : Accepted info vnode.offset ⟨ptr, count.toInt32, .write⟩ .write)
    {m n k l : Nat} {status : UInt8} (hgrants : Granted board info vnode.offset s m n k)
    (hread : info.readBlockSize.toNat ≤ maxBlockLength)
    (hanswers : Answers board info (sectorOf info vnode.offset) s m n k l status)
    (hwrite : status = 0 → info.writeBlockSize.toNat ≤ maxBlockLength) :
    Returns (fun fuel => devWrite board fuel vnode ptr count s) := by
  obtain ⟨hfirst, rfl⟩ := hanswers
  simp only [devWrite, dWrite, hdev, hdata, mmcSpiWrite_accepted haccepted, returns_map]
  rw [returns_bind (mmcReadSector_stable _ _ _ _) (fun _ => acceptedWrite_stable _ _ _ _)]
  refine ⟨_, mmcReadSector_ends.mpr (.inl ⟨m, n, k, hgrants, rfl⟩), ?_⟩
  simp only [ne_eq, not_true_eq_false, if_false, if_neg (Nat.not_lt.mpr hread)]
  exact storing_returns hfirst hwrite

end Mmc

section Report

variable {σ : Type*} {board : Board σ} {peer : I2cPeer σ} {vnode : Vnode}
  {ptr : Nat → UInt8} {count : UInt32} {s : σ} {info : MmcInfo}

/-- `dev_write` does what it should: it does not divide by zero, keeps to the
buffer of the MMC driver, also in a run that hangs, and returns the number of the
elements that were transferred. -/
structure WriteReports (board : Board σ) (peer : I2cPeer σ) (vnode : Vnode) (ptr : Nat → UInt8)
    (count : UInt32) (s : σ) : Prop where
  divides : vnode.devId = .mmc → ∀ info, vnode.data = some info → info.readBlockSize ≠ 0
  inside : vnode.devId = .mmc → ∀ fuel,
    (mmcSpiWriteTraced board.spi fuel vnode.data vnode.offset ⟨ptr, count.toInt32, .write⟩
      (board.stack s) s).All BufAccess.Inside
  reports : ∀ fuel r, devWrite board fuel vnode ptr count s = some r →
    Reports (devWriteTraced board peer fuel vnode ptr count s).events r.1

/-- What that takes. Nothing where all that is sent counts; an I2C peer takes
everything, if everything can be sent; and a card that is asked for a sector and
grants it stores the request. -/
def WriteGetsThrough (board : Board σ) (peer : I2cPeer σ) (vnode : Vnode)
    (ptr : Nat → UInt8) (count : UInt32) (s : σ) : Prop :=
  match vnode.devId with
  | .spi | .uart | .pwm | .lcd | .rtc => True
  | .i2c =>
      (∃ t, SentUpTo board vnode ptr s count.toNat t) →
        PeerTakes board peer vnode ptr count.toNat s
  | .mmc =>
      ∀ info, vnode.data = some info →
        info.readBlockSize ≠ 0 ∧
          (¬ crossesSector info vnode.offset ⟨ptr, count.toInt32, .write⟩ →
            ∀ m n k, Granted board info vnode.offset s m n k →
              Stores board info vnode.offset count.toNat s m n k)

theorem writeReports_iff (hdev : vnode.devId ≠ .mmc) :
    WriteReports board peer vnode ptr count s ↔
      ∀ fuel r, devWrite board fuel vnode ptr count s = some r →
        Reports (devWriteTraced board peer fuel vnode ptr count s).events r.1 := by
  constructor
  · exact WriteReports.reports
  · exact fun h => ⟨fun hmmc => absurd hmmc hdev, fun hmmc => absurd hmmc hdev, h⟩

/-- A request that the MMC driver refuses does no harm. -/
theorem refused_writeReports (hdev : vnode.devId = .mmc)
    (hrefused : ∀ info, vnode.data = some info →
      info.readBlockSize ≠ 0 ∧ crossesSector info vnode.offset ⟨ptr, count.toInt32, .write⟩) :
    WriteReports board peer vnode ptr count s := by
  refine ⟨fun _ info hdata => (hrefused info hdata).1, ?_, ?_⟩
  · intro _ fuel
    cases hdata : vnode.data with
    | none => exact .pure _
    | some info =>
        rw [mmcSpiWriteTraced_refused (.inr (hrefused info hdata))]
        exact .pure _
  · intro fuel r hrun
    exact mmc_refused_reports hdev (fun info hdata => .inr (hrefused info hdata)) hrun

/-- What was transferred in a run that stored the request. -/
theorem stored_reports_iff {returned : Int32} {status : UInt8} {place size n : Nat}
    (h : returned.toInt = n) :
    Reports (if status = 0 then List.range (min n (size - place)) else []) returned ↔
      (0 < n → status = 0 ∧ place + n ≤ size) := by
  rw [reports_iff h]
  by_cases hstatus : status = 0
  · rw [if_pos hstatus]
    constructor
    · intro hrange hpos
      have hlength := congrArg List.length hrange
      rw [List.length_range, List.length_range] at hlength
      exact ⟨hstatus, by omega⟩
    · intro hfits
      congr 1
      rcases Nat.eq_zero_or_pos n with rfl | hpos
      · exact Nat.zero_min _
      · have hinside := (hfits hpos).2
        omega
  · rw [if_neg hstatus, eq_comm, List.range_eq_nil]
    constructor
    · intro hzero hpos
      omega
    · intro hfits
      by_contra hne
      exact hstatus (hfits (Nat.pos_of_ne_zero hne)).1

theorem mmc_reports_of_stores (hdev : vnode.devId = .mmc) (hdata : vnode.data = some info)
    (haccepted : Accepted info vnode.offset ⟨ptr, count.toInt32, .write⟩ .write)
    (hcount : count.toNat < 2 ^ 31)
    (hstores : ∀ m n k, Granted board info vnode.offset s m n k →
      Stores board info vnode.offset count.toNat s m n k) {fuel : Nat} {r : Int32 × σ}
    (hrun : devWrite board fuel vnode ptr count s = some r) :
    Reports (devWriteTraced board peer fuel vnode ptr count s).events r.1 := by
  rcases mmc_accepted_written hdev hdata haccepted hcount hrun with
    ⟨_, hreports⟩ | ⟨m, n, k, l, status, hgrants, hanswers, hevents, hreturned⟩
  · exact hreports
  · rw [hevents, stored_reports_iff hreturned]
    exact (hstores m n k hgrants).stores l status hanswers

/-- A card that answers shows what the answer of `dev_write` depends on. -/
theorem stores_of_mmc_reports (hdev : vnode.devId = .mmc) (hdata : vnode.data = some info)
    (haccepted : Accepted info vnode.offset ⟨ptr, count.toInt32, .write⟩ .write)
    (hcount : count.toNat < 2 ^ 31) (hreports : WriteReports board peer vnode ptr count s)
    {m n k : Nat} (hgrants : Granted board info vnode.offset s m n k) :
    Stores board info vnode.offset count.toNat s m n k := by
  have hinside := hreports.inside hdev
  rw [hdata] at hinside
  obtain ⟨hread, hwrite⟩ := (mmc_inside_iff haccepted).mp hinside m n k hgrants
  refine ⟨hread, hwrite, ?_⟩
  intro l status hanswers
  have hfits : status = 0 → info.writeBlockSize.toNat ≤ maxBlockLength := by
    rintro rfl
    exact hwrite l hanswers
  obtain ⟨r, fuel, hrun⟩ := mmc_returns hdev hdata haccepted hgrants hread hanswers hfits
  rcases mmc_accepted_written hdev hdata haccepted hcount hrun with
    ⟨⟨t, hrefuses⟩, _⟩ | ⟨m', n', k', l', status', hgrants', hanswers', hevents, hreturned⟩
  · exact absurd hgrants hrefuses.not_grants
  · obtain ⟨rfl, rfl, rfl⟩ := GrantsRead.unique hgrants hgrants'
    obtain rfl := hanswers.1.unique hanswers'.1
    obtain rfl := hanswers.2.symm.trans hanswers'.2
    have hreport := hreports.reports fuel r hrun
    rw [hevents, stored_reports_iff hreturned] at hreport
    exact hreport

theorem mmc_reports_iff (hdev : vnode.devId = .mmc) (hcount : count.toNat < 2 ^ 31) :
    WriteReports board peer vnode ptr count s ↔
      WriteGetsThrough board peer vnode ptr count s := by
  rw [WriteGetsThrough, hdev]
  constructor
  · intro hreports info hdata
    have hsize := hreports.divides hdev info hdata
    refine ⟨hsize, ?_⟩
    intro hinside m n k hgrants
    exact stores_of_mmc_reports hdev hdata ⟨rfl, hsize, hinside⟩ hcount hreports hgrants
  · intro hthrough
    cases hdata : vnode.data with
    | none =>
        apply refused_writeReports hdev
        rw [hdata]
        rintro info' ⟨⟩
    | some info =>
        obtain ⟨hsize, hstores⟩ := hthrough info hdata
        by_cases hcrosses : crossesSector info vnode.offset ⟨ptr, count.toInt32, .write⟩
        · apply refused_writeReports hdev
          rw [hdata]
          rintro info' ⟨⟩
          exact ⟨hsize, hcrosses⟩
        · have haccepted : Accepted info vnode.offset ⟨ptr, count.toInt32, .write⟩ .write :=
            ⟨rfl, hsize, hcrosses⟩
          refine ⟨?_, ?_, ?_⟩
          · rw [hdata]
            rintro _ info' ⟨⟩
            exact hsize
          · intro _
            rw [hdata, mmc_inside_iff haccepted]
            intro m n k hgrants
            exact ⟨(hstores hcrosses m n k hgrants).reads, (hstores hcrosses m n k hgrants).sends⟩
          · intro fuel r hrun
            exact mmc_reports_of_stores hdev hdata haccepted hcount (hstores hcrosses) hrun

/-- For every driver, `dev_write` does what it should exactly when the driver gets
the elements through. -/
theorem dev_write_reports_iff (board : Board σ) (peer : I2cPeer σ) (vnode : Vnode)
    (ptr : Nat → UInt8) (count : UInt32) (s : σ) (hcount : count.toNat < 2 ^ 31) :
    WriteReports board peer vnode ptr count s ↔
      WriteGetsThrough board peer vnode ptr count s := by
  by_cases hmmc : vnode.devId = .mmc
  · exact mmc_reports_iff hmmc hcount
  · rw [writeReports_iff hmmc, WriteGetsThrough]
    cases hdev : vnode.devId with
    | i2c => exact i2c_reports_iff hdev hcount
    | spi => exact iff_true_intro fun _ _ hrun => spi_reports peer hdev hcount hrun
    | uart => exact iff_true_intro fun _ _ hrun => uart_reports peer hdev hcount hrun
    | mmc => exact absurd hdev hmmc
    | pwm => exact iff_true_intro fun _ _ hrun => idle_reports peer (.inl hdev) hrun
    | lcd => exact iff_true_intro fun _ _ hrun => idle_reports peer (.inr (.inl hdev)) hrun
    | rtc => exact iff_true_intro fun _ _ hrun => idle_reports peer (.inr (.inr hdev)) hrun

/-- The sector is granted, and what follows is an error status. -/
def refusingBytes (n : Nat) : UInt8 :=
  if n < 8 then 0 else if n = 8 then 0xFE else 5

def cardNode : Vnode where
  devId := .mmc
  endpt := 0
  offset := 0
  data := some ⟨512, 512⟩

/-- A peer that acknowledges everything. -/
def attentivePeer : I2cPeer σ where
  takesAddress _ := true
  takesByte _ _ := true

/-- The card refuses the block, and `dev_write` reports its one element. -/
theorem dev_write_misreports :
    devWrite (readyBoard (streamDevice refusingBytes)) 2 cardNode (fun _ => 0x41) 1 0 =
        some (1, 529) ∧
      (devWriteTraced (readyBoard (streamDevice refusingBytes)) attentivePeer 2 cardNode
        (fun _ => 0x41) 1 0).events = [] ∧
      ¬ WriteReports (readyBoard (streamDevice refusingBytes)) attentivePeer cardNode
        (fun _ => 0x41) 1 0 := by
  have hrun : devWrite (readyBoard (streamDevice refusingBytes)) 2 cardNode (fun _ => 0x41) 1 0 =
      some (1, 529) := by decide +kernel
  have hevents : (devWriteTraced (readyBoard (streamDevice refusingBytes)) attentivePeer 2 cardNode
      (fun _ => 0x41) 1 0).events = [] := by decide +kernel
  refine ⟨hrun, hevents, ?_⟩
  intro h
  have hreport := h.reports 2 (1, 529) hrun
  rw [hevents, reports_iff (n := 1) rfl] at hreport
  exact List.cons_ne_nil _ _ hreport.symm

/-- On a card that grants everything the answer to CMD24 is a status of zero. -/
theorem granting_answers {sector : Int32} {m n k l : Nat} {status : UInt8}
    (h : Answers (readyBoard (streamDevice grantingBytes)) info sector 0 m n k l status) :
    status = 0 := by
  have hstream := streamDevice_streams grantingBytes
  have hblock : 2 ≤ (grantedBlock (streamDevice grantingBytes) info (fun _ => 0)
      (askedFor (streamDevice grantingBytes) info sector 0) m n k).2 := by
    rw [grantedBlock, devRead_eq, ← afterReads_add]
    have hreads := hstream.afterReads (m + 1 + (n + 1) + (k + 1) + (info.readBlockSize.toNat - 1))
      (askedFor (streamDevice grantingBytes) info sector 0)
    simp only at hreads ⊢
    omega
  have hlate : 9 ≤ askedToStore (readyBoard (streamDevice grantingBytes)) info sector 0 m n k := by
    have hcmd := hstream.mmcSendCmd mmcCmd24 (sector.toUInt32 * info.writeBlockSize)
      (grantedBlock (streamDevice grantingBytes) info (fun _ => 0)
        (askedFor (streamDevice grantingBytes) info sector 0) m n k).2
    exact (Nat.add_le_add_right hblock 7).trans_eq hcmd.symm
  have hbyte := hstream.byteAt
    (askedToStore (readyBoard (streamDevice grantingBytes)) info sector 0 m n k) l
  rw [← h.2]
  refine hbyte.trans ?_
  rw [grantingBytes, if_neg (by omega)]

/-- Three elements to the serial line and to an I2C peer, and one to a card. -/
theorem dev_write_reports_iff_nodes :
    (devWrite (readyBoard (streamDevice grantingBytes)) 1 (nodeOf .uart) (fun _ => 0x41) 3 0 =
        some (3, 0) ∧
      WriteReports (readyBoard (streamDevice grantingBytes)) attentivePeer (nodeOf .uart)
        (fun _ => 0x41) 3 0) ∧
      (devWrite (readyBoard (streamDevice grantingBytes)) 1 (nodeOf .i2c) (fun _ => 0x41) 3 0 =
        some (3, 0) ∧
      WriteReports (readyBoard (streamDevice grantingBytes)) attentivePeer (nodeOf .i2c)
        (fun _ => 0x41) 3 0) ∧
      devWrite (readyBoard (streamDevice grantingBytes)) 2 cardNode (fun _ => 0x41) 1 0 =
        some (1, 1043) ∧
      WriteReports (readyBoard (streamDevice grantingBytes)) attentivePeer cardNode
        (fun _ => 0x41) 1 0 := by
  refine ⟨⟨by decide +kernel, ?_⟩, ⟨by decide +kernel, ?_⟩, by decide +kernel, ?_⟩
  · exact (dev_write_reports_iff _ _ _ _ 3 0 (by decide)).mpr trivial
  · exact (dev_write_reports_iff _ _ _ _ 3 0 (by decide)).mpr fun _ =>
      ⟨fun _ => rfl, fun _ _ _ _ => rfl⟩
  · apply (dev_write_reports_iff _ _ _ _ 1 0 (by decide)).mpr
    rintro info ⟨⟩
    refine ⟨by decide, ?_⟩
    intro _ m n k _
    refine ⟨by decide, fun _ _ => by decide, ?_⟩
    intro l status hanswers _
    exact ⟨granting_answers hanswers, by decide⟩

end Report

end PascalScheduler.Sys
