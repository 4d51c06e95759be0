import PascalScheduler.Dev.Mmc

/-!
A memory card on the SPI bus, byte by byte: standard capacity (addresses count
bytes), blocks of 512 bytes, every command answered with success. How long the
card lets the host wait before a status or a block, and the two CRC bytes behind
a block that it sends, are its own. A block that it receives it stores at once.
-/

namespace PascalScheduler

def blockLength : Nat := 512

/-- What the card makes of the bytes it receives: a command frame, then for a
write the start token and the data of the block. -/
inductive CardInput where
  | command (frame : List UInt8)
  | token (address : UInt32)
  | block (address : UInt32) (bytes : List UInt8)

structure Card where
  content : Nat → UInt8
  statusDelay : UInt8 → UInt32 → Nat
  tokenDelay : UInt32 → Nat
  crc : UInt32 → UInt8 × UInt8
  /-- What the card has still to send; `0xFF` from then on. -/
  output : List UInt8
  input : CardInput

namespace Card

def filler (n : Nat) : List UInt8 :=
  List.replicate n 0xFF

def sectorData (card : Card) (address : UInt32) : List UInt8 :=
  (List.range blockLength).map fun i => card.content (address.toNat + i)

/-- The block and its CRC, as they follow the start token of a read. -/
def answer (card : Card) (address : UInt32) : List UInt8 :=
  card.sectorData address ++ [(card.crc address).1, (card.crc address).2]

/-- A complete command. -/
def execute (card : Card) (cmd : UInt8) (arg : UInt32) : Card :=
  let status := filler (card.statusDelay cmd arg) ++ [0]
  if cmd = mmcCmd17 then
    { card with
      output := status ++ filler (card.tokenDelay arg) ++ 0xFE :: card.answer arg
      input := .command [] }
  else if cmd = mmcCmd24 then { card with output := status, input := .token arg }
  else { card with output := status, input := .command [] }

def argument (a₃ a₂ a₁ a₀ : UInt8) : UInt32 :=
  UInt32.ofNat (a₃.toNat * 2 ^ 24 + a₂.toNat * 2 ^ 16 + a₁.toNat * 2 ^ 8 + a₀.toNat)

/-- A stored block. -/
def store (card : Card) (address : UInt32) (bytes : List UInt8) : Card :=
  { card with
    content := fun a =>
      if address.toNat ≤ a ∧ a < address.toNat + bytes.length then
        bytes.getD (a - address.toNat) 0
      else card.content a
    input := .command [] }

/-- The last byte of a block stores it: no CRC bytes are waited for, no data
response is sent, and the card is not busy afterwards. -/
def receive (b : UInt8) (card : Card) : Card :=
  match card.input with
  | .command [] =>
      if b &&& 0xC0 = 0x40 then { card with input := .command [b] } else card
  | .command [cmd, a₃, a₂, a₁, a₀] => card.execute cmd (argument a₃ a₂ a₁ a₀)
  | .command frame => { card with input := .command (frame ++ [b]) }
  | .token address => if b = 0xFE then { card with input := .block address [] } else card
  | .block address bytes =>
      if bytes.length + 1 < blockLength then
        { card with input := .block address (bytes ++ [b]) }
      else card.store address (bytes ++ [b])

/-- The card with `output` still to send. -/
def sending (card : Card) (output : List UInt8) : Card :=
  { card with output := output }

@[simp] theorem sending_content (card : Card) (output : List UInt8) :
    (card.sending output).content = card.content := rfl

@[simp] theorem sending_output (card : Card) (output : List UInt8) :
    (card.sending output).output = output := rfl

@[simp] theorem sending_sending (card : Card) (output output' : List UInt8) :
    (card.sending output).sending output' = card.sending output' := rfl

@[simp] theorem sending_input (card : Card) (output : List UInt8) :
    (card.sending output).input = card.input := rfl

@[simp] theorem sending_statusDelay (card : Card) (output : List UInt8) :
    (card.sending output).statusDelay = card.statusDelay := rfl

end Card

def cardDevice : SpiDevice Card where
  exchange b card := (card.output.headD 0xFF, (card.sending card.output.tail).receive b)

section Command

variable {card : Card} {arg : UInt32} {cmd : UInt8}

/-- The mask and the shift cut out one byte. -/
theorem argumentByte_eq (arg n : UInt32) (hn : n = 0 ∨ n = 1 ∨ n = 2 ∨ n = 3) :
    argumentByte arg n = (arg >>> (n * 8)).toUInt8 := by
  rw [argumentByte]
  apply UInt8.eq_of_toBitVec_eq
  ext i hi
  rcases hn with rfl | rfl | rfl | rfl <;>
    simp [UInt32.toBitVec_and, UInt32.toBitVec_shiftRight] <;> interval_cases i <;> simp

/-- The card reads the argument that the driver meant. -/
theorem argument_bytes (arg : UInt32) :
    Card.argument (argumentByte arg 3) (argumentByte arg 2) (argumentByte arg 1)
      (argumentByte arg 0) = arg := by
  apply UInt32.toNat_inj.mp
  have hlt := arg.toNat_lt
  rw [argumentByte_eq arg 3 (by simp), argumentByte_eq arg 2 (by simp),
    argumentByte_eq arg 1 (by simp), argumentByte_eq arg 0 (by simp), Card.argument,
    UInt32.toNat_ofNat_of_lt']
  · simp [Nat.shiftRight_eq_div_pow]
    omega
  · simp [Nat.shiftRight_eq_div_pow, UInt32.size]
    omega

theorem Card.execute_frame (card : Card) (output : List UInt8) (input : CardInput) :
    { card with output := output, input := input }.execute cmd arg = card.execute cmd arg := by
  unfold Card.execute
  split_ifs <;> rfl

/-- A command frame sent to a card that waits for one. -/
theorem mmcSendCmd_card (hready : card.input = .command []) (hstart : cmd &&& 0xC0 = 0x40) :
    mmcSendCmd cardDevice cmd arg card = card.execute cmd arg := by
  obtain ⟨content, statusDelay, tokenDelay, crc, output, input⟩ := card
  obtain rfl : input = .command [] := hready
  have hfiller : ¬ (0xFF : UInt8) &&& 0xC0 = 0x40 := by decide
  simp only [mmcSendCmd, mmcSend, devWrite, arrayOf, commandFrame, argumentBytes,
    usicSpiSend, cardDevice, Card.sending, Card.receive, List.cons_append, List.nil_append,
    List.getD_cons_zero, List.getD_cons_succ, if_neg hfiller, if_pos hstart, Nat.zero_add,
    Nat.reduceAdd, argument_bytes]
  exact Card.execute_frame ⟨content, statusDelay, tokenDelay, crc, output, .command []⟩ _ _

end Command

section Receive

/-- The card takes the ones that clock out an answer for filler. -/
def Card.Waits (card : Card) : Prop :=
  card.input = .command [] ∨ ∃ address, card.input = .token address

variable {card : Card}

theorem Card.Waits.sending (hwaits : card.Waits) (output : List UInt8) :
    (card.sending output).Waits := hwaits

theorem receive_card (hwaits : card.Waits) :
    usicSpiReceive cardDevice card =
      (card.output.headD 0xFF, card.sending card.output.tail) := by
  have hfiller : ¬ (0xFF : UInt8) &&& 0xC0 = 0x40 := by decide
  have htoken : ¬ (0xFF : UInt8) = 0xFE := by decide
  rcases hwaits with hinput | ⟨address, hinput⟩
  · simp only [usicSpiReceive, cardDevice, Card.receive, Card.sending_input, hinput,
      if_neg hfiller]
  · simp only [usicSpiReceive, cardDevice, Card.receive, Card.sending_input, hinput,
      if_neg htoken]

/-- Polling skips the leading `0xFF` of what the card sends. -/
theorem pollByte_card (hwaits : card.Waits) (fuel n : Nat) {b : UInt8} (hb : b ≠ 0xFF)
    (rest : List UInt8) :
    pollByte cardDevice fuel (card.sending (Card.filler n ++ b :: rest)) =
      if n < fuel then some (b, card.sending rest) else none := by
  induction fuel generalizing n with
  | zero => rfl
  | succ fuel ih =>
      rw [pollByte, mmcReadByte, receive_card (hwaits.sending _)]
      cases n with
      | zero => simp [Card.filler, hb]
      | succ n =>
          have hnext := ih n
          simpa [Card.filler, List.replicate_succ] using hnext

/-- Polling never ends when the card has nothing else to send. -/
theorem pollByte_filler (hwaits : card.Waits) (fuel n : Nat) :
    pollByte cardDevice fuel (card.sending (Card.filler n)) = none := by
  induction fuel generalizing n with
  | zero => rfl
  | succ fuel ih =>
      have hnext := ih (n - 1)
      rw [pollByte, mmcReadByte, receive_card (hwaits.sending _)]
      cases n with
      | zero => simpa [Card.filler] using hnext
      | succ n => simpa [Card.filler, List.replicate_succ] using hnext

/-- The search for the start token of an answer. -/
theorem waitStartBlock_card (hwaits : card.Waits) (fuel n : Nat) (rest : List UInt8) :
    mmcSpiWaitStartBlock cardDevice 0 fuel (card.sending (Card.filler n ++ 0xFE :: rest)) =
      if n < fuel then some (mmcOk, card.sending rest) else none := by
  have hfiller : ¬ (0xFF : UInt8) &&& 0xF0 = 0 := by decide
  have htoken : ¬ (0xFE : UInt8) &&& 0xF0 = 0 := by decide
  induction fuel generalizing n with
  | zero => rfl
  | succ fuel ih =>
      rw [mmcSpiWaitStartBlock, mmcReadByte, receive_card (hwaits.sending _)]
      cases n with
      | zero => simp [Card.filler, htoken]
      | succ n =>
          have hnext := ih n
          simpa [Card.filler, List.replicate_succ, hfiller] using hnext

/-- A read into a buffer takes the next bytes of the card, then filler. -/
theorem devRead_card (hwaits : card.Waits) (size i : Nat) (buf : Nat → UInt8)
    (output : List UInt8) :
    (devRead cardDevice size i buf (card.sending output)).2 = card.sending (output.drop size) ∧
      ∀ k, (devRead cardDevice size i buf (card.sending output)).1 k =
        if i ≤ k ∧ k < i + size then output.getD (k - i) 0xFF else buf k := by
  induction size generalizing i buf output with
  | zero =>
      refine ⟨rfl, fun k => ?_⟩
      rw [if_neg (by omega)]
      rfl
  | succ size ih =>
      rw [devRead, receive_card (hwaits.sending _)]
      obtain ⟨hcard, hbuf⟩ := ih (i + 1) (Function.update buf i (output.headD 0xFF)) output.tail
      refine ⟨?_, fun k => ?_⟩
      · refine hcard.trans ?_
        rw [← List.drop_one, List.drop_drop, Nat.add_comm]
      · refine (hbuf k).trans ?_
        by_cases hfirst : k = i
        · rw [if_neg (by omega), if_pos (by omega), hfirst, Function.update_self, Nat.sub_self]
          cases output <;> rfl
        · by_cases hin : i + 1 ≤ k ∧ k < i + 1 + size
          · rw [if_pos hin, if_pos (by omega), show k - i = k - (i + 1) + 1 by omega]
            cases output <;> rfl
          · rw [if_neg hin, if_neg (by omega), Function.update_of_ne hfirst]

theorem send_block {address : UInt32} {bytes : List UInt8} (b : UInt8)
    (hinput : card.input = .block address bytes) :
    usicSpiSend cardDevice b card =
      if bytes.length + 1 < blockLength then
        { card.sending card.output.tail with input := .block address (bytes ++ [b]) }
      else (card.sending card.output.tail).store address (bytes ++ [b]) := by
  simp only [usicSpiSend, cardDevice, Card.receive, Card.sending_input, hinput]

/-- A block sent to a card that collects one is stored. -/
theorem devWrite_block (buf : Nat → UInt8) (address : UInt32) (size i : Nat)
    (bytes : List UInt8) (hsize : bytes.length + (size + 1) = blockLength)
    (hinput : card.input = .block address bytes) :
    (devWrite cardDevice buf (size + 1) i card).content =
      (card.store address (bytes ++ (List.range' i (size + 1)).map buf)).content := by
  induction size generalizing i bytes card with
  | zero =>
      rw [devWrite, send_block (buf i) hinput, if_neg (by omega)]
      rfl
  | succ size ih =>
      rw [devWrite, send_block (buf i) hinput, if_pos (by omega)]
      refine (ih (i + 1) (bytes ++ [buf i]) ?_ rfl).trans ?_
      · rw [List.length_append, List.length_singleton]
        omega
      · rw [List.append_assoc, List.range'_succ]
        rfl

theorem store_content (card : Card) (address : UInt32) (buf : Nat → UInt8) (n a : Nat) :
    (card.store address ((List.range' 0 n).map buf)).content a =
      if address.toNat ≤ a ∧ a < address.toNat + n then buf (a - address.toNat)
      else card.content a := by
  simp only [Card.store, List.length_map, List.length_range']
  by_cases hin : address.toNat ≤ a ∧ a < address.toNat + n
  · rw [if_pos hin, if_pos hin, List.getD_eq_getElem?_getD, List.getElem?_map,
      List.getElem?_range' (by omega), Option.map_some, Option.getD_some, Nat.zero_add, Nat.one_mul]
  · rw [if_neg hin, if_neg hin]

end Receive

end PascalScheduler
