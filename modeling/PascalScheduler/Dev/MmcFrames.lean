import PascalScheduler.Dev.MmcCrc
import PascalScheduler.Dev.MmcOpen
import PascalScheduler.Dev.MmcWire
import PascalScheduler.Library.BitSlice
import Mathlib.Data.List.DropRight

/-!
The frames that the two senders of `mmc_spi.c` put together, each in an array of
its own: `mmc_send_cmd` behind a filler byte, `mmc_send_acmd` from the start of
the array that its two other transmissions left behind. The masks for the bytes
of the argument are signed and reach into the sign bit.
-/

namespace PascalScheduler

open BitSlice Polynomial

/-- The assignments `array[at] = ...; array[at + 1] = ...` in a row. -/
def assign (array : Nat → UInt8) : Nat → List UInt8 → Nat → UInt8
  | _, [] => array
  | i, b :: rest => assign (Function.update array i b) (i + 1) rest

/-- `(arg & (0xFF << n*8)) >> n*8`, with the mask an `int`. -/
def maskedByte (arg : UInt32) (n : Int32) : UInt8 :=
  ((arg &&& ((0xFF : Int32) <<< (n * 8)).toUInt32) >>> (n * 8).toUInt32).toUInt8

/-- The bytes of the argument as both senders extract them. -/
def maskedBytes (arg : UInt32) : List UInt8 :=
  [maskedByte arg 3, maskedByte arg 2, maskedByte arg 1, (arg &&& 0xFF).toUInt8]

/-- `mmc_crc7(array + first, length)` -/
def mmcCrc7At (array : Nat → UInt8) (first length : Nat) : UInt8 :=
  mmcCrc7 ((List.range' first length).map array)

/-- The array of `mmc_send_cmd`. -/
def cmdArray (array : Nat → UInt8) (cmd : UInt8) (arg : UInt32) : Nat → UInt8 :=
  let array := assign array 0 (0xFF :: cmd :: maskedBytes arg)
  Function.update array 6 (mmcCrc7At array 1 5)

/-- The array of `mmc_send_acmd` at its last transmission. -/
def acmdArray (array : Nat → UInt8) (cmd : UInt8) (arg : UInt32) : Nat → UInt8 :=
  let array := assign array 0 (cmd :: maskedBytes arg)
  Function.update array 5 (mmcCrc7At array 0 5)

section Senders

variable {σ : Type*} (dev : SpiDevice σ) (array : Nat → UInt8)

/-- `mmc_send_cmd` with the array it finds on the stack. -/
def sendCmdFrom (cmd : UInt8) (arg : UInt32) (s : σ) : σ :=
  mmcSend dev (cmdArray array cmd arg) 7 s

/-- `mmc_send_acmd` with the array it finds on the stack. -/
def sendAcmdFrom (cmd : UInt8) (arg : UInt32) (s : σ) : σ :=
  let array := assign array 0 [0xFF, 0x77, 0, 0, 0, 0, 0x01]
  let s := mmcSend dev array 7 s
  let array := assign array 0 [0xFF, 0xFF, 0xFF, 0xFF]
  let s := mmcSend dev array 4 s
  mmcSend dev (acmdArray array cmd arg) 6 s

end Senders

/-- A frame with its CRC. -/
def checkedFrame (cmd : UInt8) (arg : UInt32) : List UInt8 :=
  commandFrame cmd arg ++ [mmcCrc7 (commandFrame cmd arg)]

/-- What a receiver checks: the last byte is the remainder of the first five by
the CRC-7 polynomial, with the stop bit. -/
def ValidCrc (frame : List UInt8) : Prop :=
  ((frame.getD 5 0).toNat : Nat) = 2 * Crc.number 7
    ((Crc.ofBits (messageBits (frame.take 5)) * X ^ 7) %ₘ (X ^ 7 + X ^ 3 + 1)) + 1

theorem maskedBytes_eq (arg : UInt32) :
    maskedBytes arg = argumentBytes arg := by
  have hlow : (arg &&& 0xFF).toUInt8 = argumentByte arg 0 := by
    rw [argumentByte]
    simp
  rw [maskedBytes, argumentBytes, hlow]
  rfl

section Arrays

variable (array : Nat → UInt8) (cmd : UInt8) (arg : UInt32)

theorem assign_below (bytes : List UInt8) {i j : Nat} (h : j < i) :
    assign array i bytes j = array j := by
  induction bytes generalizing array i with
  | nil => rfl
  | cons b bytes ih =>
      rw [assign, ih _ (by omega), Function.update_of_ne (by omega)]

theorem assign_map (bytes : List UInt8) (i : Nat) :
    (List.range' i bytes.length).map (assign array i bytes) = bytes := by
  induction bytes generalizing array i with
  | nil => rfl
  | cons b bytes ih =>
      rw [List.length_cons, List.range'_succ, List.map_cons, assign, assign_below _ _ (by omega),
        Function.update_self, ih]

/-- An array that is filled from its start, and then at one more place. -/
theorem filled_map (bytes : List UInt8) (b : UInt8) :
    (List.range (bytes.length + 1)).map
        (Function.update (assign array 0 bytes) bytes.length b) = bytes ++ [b] := by
  have hfirst : (List.range bytes.length).map
      (Function.update (assign array 0 bytes) bytes.length b) = bytes := by
    have hsame := assign_map array bytes 0
    rw [← List.range_eq_range'] at hsame
    rw [← List.map_congr_left, hsame]
    intro i hi
    rw [Function.update_of_ne (List.mem_range.mp hi).ne]
  rw [List.range_succ, List.map_append, hfirst, List.map_singleton, Function.update_self]

/-- `mmc_send_cmd` sends the frame behind one filler byte. -/
theorem cmdArray_map :
    (List.range 7).map (cmdArray array cmd arg) = 0xFF :: checkedFrame cmd arg := by
  have hcovered := assign_map array (0xFF :: cmd :: maskedBytes arg) 0
  have hcrc : mmcCrc7At (assign array 0 (0xFF :: cmd :: maskedBytes arg)) 1 5 =
      mmcCrc7 (commandFrame cmd arg) := by
    rw [mmcCrc7At, commandFrame, ← maskedBytes_eq]
    exact congrArg mmcCrc7 (List.cons.inj hcovered).2
  have hfilled := filled_map array (0xFF :: cmd :: maskedBytes arg) (mmcCrc7 (commandFrame cmd arg))
  rw [maskedBytes_eq] at hfilled
  rw [cmdArray, hcrc, maskedBytes_eq]
  exact hfilled

/-- `mmc_send_acmd` sends it from the start of its array. -/
theorem acmdArray_map :
    (List.range 6).map (acmdArray array cmd arg) = checkedFrame cmd arg := by
  have hcovered := assign_map array (cmd :: maskedBytes arg) 0
  have hcrc : mmcCrc7At (assign array 0 (cmd :: maskedBytes arg)) 0 5 =
      mmcCrc7 (commandFrame cmd arg) := by
    rw [mmcCrc7At, commandFrame, ← maskedBytes_eq]
    exact congrArg mmcCrc7 hcovered
  have hfilled := filled_map array (cmd :: maskedBytes arg) (mmcCrc7 (commandFrame cmd arg))
  rw [maskedBytes_eq] at hfilled
  rw [acmdArray, hcrc, maskedBytes_eq]
  exact hfilled

end Arrays

section Frame

variable {σ : Type*} {dev : SpiDevice σ} (array : Nat → UInt8) (cmd : UInt8) (arg : UInt32)

theorem devWrite_foldl (buf : Nat → UInt8) (size i : Nat) (s : σ) :
    devWrite dev buf size i s =
      ((List.range' i size).map buf).foldl (fun s b => usicSpiSend dev b s) s := by
  induction size generalizing i s with
  | zero => rfl
  | succ size ih =>
      rw [devWrite, ih, List.range'_succ, List.map_cons, List.foldl_cons]

/-- Only the bytes that are sent matter. -/
theorem mmcSend_congr {buf buf' : Nat → UInt8} {size : Nat}
    (h : (List.range size).map buf = (List.range size).map buf') (s : σ) :
    mmcSend dev buf size s = mmcSend dev buf' size s := by
  rw [mmcSend, mmcSend, devWrite_foldl, devWrite_foldl, ← List.range_eq_range', h]

theorem sendCmdFrom_eq (s : σ) : sendCmdFrom dev array cmd arg s = mmcSendCmd dev cmd arg s := by
  apply mmcSend_congr
  rw [cmdArray_map]
  rfl

theorem sendAcmdFrom_eq (s : σ) :
    sendAcmdFrom dev array cmd arg s = mmcSendAcmd dev cmd arg s := by
  let announced := assign array 0 [0xFF, 0x77, 0, 0, 0, 0, 0x01]
  let cleared := assign announced 0 [0xFF, 0xFF, 0xFF, 0xFF]
  have hannounced : (List.range 7).map announced =
      (List.range 7).map (arrayOf [0xFF, 0x77, 0, 0, 0, 0, 0x01]) :=
    assign_map array [0xFF, 0x77, 0, 0, 0, 0, 0x01] 0
  have hcleared : (List.range 4).map cleared =
      (List.range 4).map (arrayOf [0xFF, 0xFF, 0xFF, 0xFF]) :=
    assign_map announced [0xFF, 0xFF, 0xFF, 0xFF] 0
  have hframe : (List.range 6).map (acmdArray cleared cmd arg) =
      (List.range 6).map (arrayOf (checkedFrame cmd arg)) := acmdArray_map cleared cmd arg
  rw [sendAcmdFrom, mmcSend_congr hframe, mmcSend_congr hcleared, mmcSend_congr hannounced]
  rfl

theorem sendCmdFrom_frame (p : σ × List UInt8) :
    (sendCmdFrom (tap dev) array cmd arg p).2.rtake 6 = checkedFrame cmd arg := by
  have hbytes : commandBytes cmd arg = [0xFF] ++ checkedFrame cmd arg := rfl
  rw [sendCmdFrom_eq, mmcSendCmd_tap, hbytes, ← List.append_assoc, List.rtake]
  exact List.drop_left' (by simp [checkedFrame, commandFrame, argumentBytes])

theorem sendAcmdFrom_frame (p : σ × List UInt8) :
    (sendAcmdFrom (tap dev) array cmd arg p).2.rtake 6 = checkedFrame cmd arg := by
  have hbytes : (List.range 6).map (arrayOf (checkedFrame cmd arg)) = checkedFrame cmd arg := rfl
  rw [sendAcmdFrom_eq, mmcSendAcmd, mmcSend_tap, ← checkedFrame, hbytes, List.rtake]
  exact List.drop_left' (by simp [checkedFrame, commandFrame, argumentBytes])

theorem argument_bigEndian :
    bigEndian (arrayOf ((checkedFrame cmd arg).drop 1)) 4 = arg.toNat := by
  have hargument := congrArg UInt32.toNat (argument_bytes arg)
  have h₃ := (argumentByte arg 3).toNat_lt
  have h₂ := (argumentByte arg 2).toNat_lt
  have h₁ := (argumentByte arg 1).toNat_lt
  have h₀ := (argumentByte arg 0).toNat_lt
  rw [Card.argument, UInt32.toNat_ofNat_of_lt' (by rw [UInt32.size]; omega)] at hargument
  have hvalue : bigEndian (arrayOf ((checkedFrame cmd arg).drop 1)) 4 =
      2 ^ 8 * (2 ^ 8 * (2 ^ 8 * (2 ^ 8 * 0 + (argumentByte arg 3).toNat) +
        (argumentByte arg 2).toNat) + (argumentByte arg 1).toNat) +
          (argumentByte arg 0).toNat := rfl
  omega

theorem checkedFrame_crc : ValidCrc (checkedFrame cmd arg) := by
  have hlast : (checkedFrame cmd arg).getD 5 0 = mmcCrc7 (commandFrame cmd arg) := rfl
  have hfirst : (checkedFrame cmd arg).take 5 = commandFrame cmd arg := rfl
  rw [ValidCrc, hlast, hfirst, mmcCrc7_toNat, ← crc_generator, ← Crc.remainder_mod,
    Crc.number_ofWord]

theorem checkedFrame_inj {cmd cmd' : UInt8} {arg arg' : UInt32}
    (h : checkedFrame cmd arg = checkedFrame cmd' arg') : cmd = cmd' ∧ arg = arg' := by
  have hcommand : cmd = cmd' := (List.cons.inj h).1
  have hbytes := congrArg (fun frame => bigEndian (arrayOf (frame.drop 1)) 4) h
  simp only [argument_bigEndian] at hbytes
  exact ⟨hcommand, UInt32.toNat_inj.mp hbytes⟩

end Frame

/-- For every command and argument, whatever the arrays held and whatever was
sent before: the last six bytes of both senders are one frame. It starts with
the command, its next four bytes are the argument, most significant first, its
last byte is the CRC-7 of the others, and no other command or argument has the
same frame. -/
theorem frames_round_trip {σ : Type*} (dev : SpiDevice σ) (array array' : Nat → UInt8)
    (cmd : UInt8) (arg : UInt32) (p p' : σ × List UInt8) :
    let frame := (sendCmdFrom (tap dev) array cmd arg p).2.rtake 6
    (sendAcmdFrom (tap dev) array' cmd arg p').2.rtake 6 = frame ∧
      frame.length = 6 ∧ frame.head? = some cmd ∧
      bigEndian (arrayOf (frame.drop 1)) 4 = arg.toNat ∧ ValidCrc frame ∧
      ∀ (array'' : Nat → UInt8) (cmd' : UInt8) (arg' : UInt32) (p'' : σ × List UInt8),
        (sendCmdFrom (tap dev) array'' cmd' arg' p'').2.rtake 6 = frame ↔
          cmd' = cmd ∧ arg' = arg := by
  simp only [sendCmdFrom_frame, sendAcmdFrom_frame]
  refine ⟨trivial, rfl, rfl, argument_bigEndian cmd arg, checkedFrame_crc cmd arg, ?_⟩
  intro _ cmd' arg' _
  constructor
  · exact checkedFrame_inj
  · rintro ⟨rfl, rfl⟩
    rfl

end PascalScheduler
