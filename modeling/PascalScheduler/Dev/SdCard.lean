import PascalScheduler.Dev.MmcStore
import PascalScheduler.Dev.MmcOpened

/-!
A memory card from the reset on: it answers the commands of the initialisation,
sends its registers, and behaves as the card of `Dev.Card` once it has left the
idle state. It has standard capacity; whether it knows CMD8, how long its
initialisation goes on, its delays and what its registers hold are its own.
-/

namespace PascalScheduler

open Fuel

structure SdCard extends Card where
  selected : Bool
  version2 : Bool
  voltages : UInt32
  resetDelay : Nat
  /-- The 16 bytes of the register, and the two of the CRC behind them. -/
  csd : Nat → UInt8
  cid : Nat → UInt8
  /-- How often it answers that the initialisation goes on, from the reset on and
  from now on. -/
  attempts : Nat
  busy : Nat
  idle : Bool
  /-- The last command was CMD55. -/
  app : Bool

namespace SdCard

def status (c : SdCard) : UInt8 :=
  if c.idle then 0x01 else 0x00

def reply (c : SdCard) (cmd : UInt8) (arg : UInt32) (answer : List UInt8) : SdCard :=
  { c with
    output := Card.filler (c.statusDelay cmd arg) ++ answer
    input := .command []
    app := false }

/-- ACMD41, or CMD1. -/
def initialise (c : SdCard) (cmd : UInt8) (arg : UInt32) : SdCard :=
  match c.busy with
  | 0 => { c with idle := false }.reply cmd arg [0x00]
  | busy + 1 => { c with busy := busy }.reply cmd arg [0x01]

/-- A register behind its status, as a block. -/
def registerBlock (c : SdCard) (register : Nat → UInt8) : List UInt8 :=
  c.status :: (Card.filler (c.tokenDelay 0) ++ 0xFE :: (List.range 18).map register)

def execute (cmd : UInt8) (arg : UInt32) (c : SdCard) : SdCard :=
  if cmd = 0x40 then
    { c with
      idle := true
      busy := c.attempts
      app := false
      output := Card.filler c.resetDelay ++ [0x01]
      input := .command [] }
  else if cmd = mmcCmd08 then
    c.reply cmd arg
      (if c.version2 then [c.status, 0, 0, argumentByte arg 1, argumentByte arg 0]
      else [c.status ||| statusIllegalCmd])
  else if cmd = 0x77 then { c.reply cmd arg [c.status] with app := true }
  else if cmd = mmcCmd01 ∨ cmd = mmcCmd41 ∧ c.app = true then c.initialise cmd arg
  else if cmd = mmcCmd58 then
    c.reply cmd arg [c.status, if c.idle then 0 else 0x80, argumentByte c.voltages 2,
      argumentByte c.voltages 1, 0]
  else if cmd = mmcCmd09 then c.reply cmd arg (c.registerBlock c.csd)
  else if cmd = mmcCmd10 then c.reply cmd arg (c.registerBlock c.cid)
  else if c.idle then c.reply cmd arg [c.status ||| statusIllegalCmd]
  else { c with toCard := c.toCard.execute cmd arg, app := false }

def receive (b : UInt8) (c : SdCard) : SdCard :=
  match c.input with
  | .command [cmd, a₃, a₂, a₁, a₀] => c.execute cmd (Card.argument a₃ a₂ a₁ a₀)
  | _ => { c with toCard := c.toCard.receive b }

/-- The card with `output` still to send. -/
def sending (c : SdCard) (output : List UInt8) : SdCard :=
  { c with output := output }

/-- Selected and between two commands, in this part of the initialisation. -/
def waiting (c : SdCard) (idle : Bool) (busy : Nat) (app : Bool) (output : List UInt8) : SdCard :=
  { c with
    selected := true
    idle := idle
    busy := busy
    app := app
    output := output
    input := .command [] }

end SdCard

/-- A card that is not selected neither listens nor answers. A block that is
written is stored as by the card of `Dev.Card`, without CRC bytes, data response
or time in which the card is busy. -/
def sdDevice : SpiDevice SdCard where
  exchange b c :=
    if c.selected then (c.output.headD 0xFF, (c.sending c.output.tail).receive b) else (0xFF, c)

/-- The select line; without it a card forgets what it was sending or receiving. -/
def sdSelect : SpiSelect SdCard where
  enable _ c := { c with selected := true }
  disable c := { c with selected := false, output := [], input := .command [] }

section Output

variable {c : SdCard} {idle app : Bool} {busy : Nat} {output : List UInt8}

theorem waiting_receive :
    usicSpiReceive sdDevice (c.waiting idle busy app output) =
      (output.headD 0xFF, c.waiting idle busy app output.tail) := rfl

theorem waiting_afterReads (n : Nat) :
    afterReads sdDevice n (c.waiting idle busy app output) =
      c.waiting idle busy app (output.drop n) := by
  induction n generalizing output with
  | zero => rfl
  | succ n ih =>
      rw [afterReads, waiting_receive]
      refine ih.trans ?_
      rw [List.drop_tail]

theorem waiting_byteAt (n : Nat) :
    byteAt sdDevice (c.waiting idle busy app output) n = output.getD n 0xFF := by
  rw [byteAt, waiting_afterReads, waiting_receive]
  simp only [List.headD_eq_head?_getD, List.head?_drop, List.getD_eq_getElem?_getD]

/-- The first byte that will do, behind those that do not. -/
theorem waiting_firstByte (c : SdCard) (idle : Bool) (busy : Nat) (app : Bool) {p : UInt8 → Prop}
    {before : List UInt8} {b : UInt8} (rest : List UInt8) (hbefore : ∀ x ∈ before, ¬ p x)
    (hb : p b) :
    FirstByte sdDevice p (c.waiting idle busy app (before ++ b :: rest)) before.length := by
  constructor
  · rw [waiting_byteAt, List.getD_eq_getElem?_getD, List.getElem?_append_right (Nat.le_refl _),
      Nat.sub_self]
    exact hb
  · intro k hk
    rw [waiting_byteAt, List.getD_eq_getElem?_getD, List.getElem?_append_left hk,
      List.getElem?_eq_getElem hk]
    exact hbefore _ (List.getElem_mem hk)

theorem filler_not {p : UInt8 → Prop} (h : ¬ p 0xFF) (n : Nat) : ∀ x ∈ Card.filler n, ¬ p x := by
  intro x hx
  rw [List.eq_of_mem_replicate hx]
  exact h

theorem Sends.unique {σ : Type*} {dev : SpiDevice σ} {size : Nat} {s t t' : σ}
    {buf buf' : Nat → UInt8} (h : Sends dev size s buf t) (h' : Sends dev size s buf' t') :
    buf' = buf ∧ t' = t := by
  obtain ⟨m, hm, rfl, rfl⟩ := h
  obtain ⟨n, hn, rfl, rfl⟩ := h'
  rw [hn.unique hm]
  exact ⟨rfl, rfl⟩

/-- An answer is read from its first byte on, past the filler. -/
theorem waiting_sends (c : SdCard) (idle : Bool) (busy : Nat) (app : Bool) (size n : Nat)
    {b : UInt8} (hb : b ≠ 0xFF) (rest : List UInt8) :
    Sends sdDevice size (c.waiting idle busy app (Card.filler n ++ b :: rest))
      (fun k => if k < size then (b :: rest).getD k 0xFF else 0)
      (c.waiting idle busy app ((b :: rest).drop size)) := by
  have hfirst : FirstByte sdDevice (· ≠ 0xFF)
      (c.waiting idle busy app (Card.filler n ++ b :: rest)) n := by
    have h := waiting_firstByte c idle busy app rest
      (filler_not (p := (· ≠ 0xFF)) (not_not.mpr rfl) n) hb
    rwa [Card.filler, List.length_replicate] at h
  refine ⟨n, hfirst, ?_, ?_⟩
  · funext k
    rw [received, waiting_byteAt, filler_getD]
  · rw [waiting_afterReads, Card.filler, ← List.drop_drop, List.drop_left' (by simp)]

/-- What `mmc_read` takes for a register: its bytes from the first one on that is
not `0xFF`. -/
def ReadAs (register buf : Nat → UInt8) : Prop :=
  ∃ m, m < 18 ∧ register m ≠ 0xFF ∧ (∀ k, k < m → register k = 0xFF) ∧
    buf = fun k => if k < 18 then if m + k < 18 then register (m + k) else 0xFF else 0

theorem registerBytes_getD (register : Nat → UInt8) (k : Nat) :
    ((List.range 18).map register).getD k 0xFF = if k < 18 then register k else 0xFF := by
  rw [List.getD_eq_getElem?_getD, List.getElem?_map]
  by_cases hk : k < 18
  · rw [List.getElem?_range hk, if_pos hk]
    rfl
  · rw [List.getElem?_eq_none (by rw [List.length_range]; omega), if_neg hk]
    rfl

theorem waiting_register {register buf : Nat → UInt8} {t : SdCard} :
    Sends sdDevice 18 (c.waiting idle busy app ((List.range 18).map register)) buf t ↔
      ReadAs register buf ∧ t = c.waiting idle busy app [] := by
  have hnone : ∀ m, ((List.range 18).map register).drop (m + 18) = [] := by
    intro m
    apply List.drop_eq_nil_of_le
    rw [List.length_map, List.length_range]
    omega
  have hreceived : ∀ m,
      received sdDevice (c.waiting idle busy app ((List.range 18).map register)) m 18 =
        fun k => if k < 18 then if m + k < 18 then register (m + k) else 0xFF else 0 := by
    intro m
    funext k
    rw [received, waiting_byteAt, registerBytes_getD]
  simp only [Sends, FirstByte, hreceived, waiting_byteAt, waiting_afterReads, registerBytes_getD,
    hnone]
  constructor
  · rintro ⟨m, ⟨hm, hbefore⟩, rfl, rfl⟩
    have hlt : m < 18 := by
      by_contra hge
      rw [if_neg hge] at hm
      exact hm rfl
    rw [if_pos hlt] at hm
    refine ⟨⟨m, hlt, hm, ?_, rfl⟩, rfl⟩
    intro k hk
    have hfiller := hbefore k hk
    rwa [if_pos (by omega), not_not] at hfiller
  · rintro ⟨⟨m, hlt, hm, hbefore, rfl⟩, rfl⟩
    refine ⟨m, ⟨?_, ?_⟩, rfl, rfl⟩
    · rwa [if_pos hlt]
    · intro k hk
      rw [if_pos (by omega), not_not]
      exact hbefore k hk

/-- The status and the start token of a register are skipped. -/
theorem waiting_sendsRegister (n k : Nat) {register buf : Nat → UInt8} {t : SdCard} :
    SendsRegister sdDevice
        (c.waiting idle busy app (Card.filler n ++
          0x00 :: (Card.filler k ++ 0xFE :: (List.range 18).map register))) buf t ↔
      ReadAs register buf ∧ t = c.waiting idle busy app [] := by
  have hsplit : Card.filler n ++ 0x00 :: (Card.filler k ++ 0xFE :: (List.range 18).map register) =
      (Card.filler n ++ 0x00 :: Card.filler k) ++ 0xFE :: (List.range 18).map register := by
    simp only [List.append_assoc, List.cons_append]
  have hbefore : ∀ x ∈ Card.filler n ++ 0x00 :: Card.filler k, ¬ x = 0xFE := by
    have hfiller : ¬ (0xFF : UInt8) = 0xFE := by decide
    have hstatus : ¬ (0x00 : UInt8) = 0xFE := by decide
    intro x hx
    rcases List.mem_append.mp hx with hx | hx
    · exact filler_not (p := (· = 0xFE)) hfiller n x hx
    · rcases List.mem_cons.mp hx with rfl | hx
      · exact hstatus
      · exact filler_not (p := (· = 0xFE)) hfiller k x hx
  rw [hsplit]
  have hfirst := waiting_firstByte c idle busy app ((List.range 18).map register)
    (p := (· = 0xFE)) hbefore rfl
  have hafter : afterReads sdDevice ((Card.filler n ++ 0x00 :: Card.filler k).length + 1)
      (c.waiting idle busy app
        ((Card.filler n ++ 0x00 :: Card.filler k) ++ 0xFE :: (List.range 18).map register)) =
      c.waiting idle busy app ((List.range 18).map register) := by
    rw [waiting_afterReads, ← List.drop_drop, List.drop_left]
    rfl
  constructor
  · rintro ⟨m, hm, hsends⟩
    rw [hm.unique hfirst, hafter] at hsends
    exact waiting_register.mp hsends
  · intro h
    refine ⟨_, hfirst, ?_⟩
    rw [hafter]
    exact waiting_register.mpr h

end Output

section Commands

variable {c : SdCard} {idle app : Bool} {busy : Nat} {output : List UInt8} {cmd : UInt8}
  {arg : UInt32}

/-- What the card was sending, and the frame itself, do not matter to a command. -/
theorem execute_frame (output : List UInt8) (input : CardInput) :
    ({ c with output := output, input := input } : SdCard).execute cmd arg = c.execute cmd arg := by
  unfold SdCard.execute SdCard.initialise
  split_ifs <;> rfl

theorem devWrite_shift {σ : Type*} (dev : SpiDevice σ) (buf : Nat → UInt8) (n i : Nat) (s : σ) :
    devWrite dev buf n (i + 1) s = devWrite dev (fun k => buf (k + 1)) n i s := by
  induction n generalizing i s with
  | zero => rfl
  | succ n ih =>
      rw [devWrite, devWrite]
      exact ih (i + 1) _

theorem mmcSend_cons {σ : Type*} (dev : SpiDevice σ) (b : UInt8) (bytes : List UInt8) (n : Nat)
    (s : σ) :
    mmcSend dev (arrayOf (b :: bytes)) (n + 1) s =
      mmcSend dev (arrayOf bytes) n (usicSpiSend dev b s) := by
  rw [mmcSend, devWrite, devWrite_shift]
  rfl

theorem send_start (hstart : cmd &&& 0xC0 = 0x40) :
    usicSpiSend sdDevice cmd (c.waiting idle busy app output) =
      { c.waiting idle busy app output.tail with input := .command [cmd] } := by
  simp only [usicSpiSend, sdDevice, SdCard.waiting, SdCard.sending, SdCard.receive, Card.receive,
    if_pos hstart, if_true]

/-- A byte within a frame. -/
theorem send_part (b x : UInt8) (frame : List UInt8) (hframe : frame.length < 4) :
    usicSpiSend sdDevice b
        { c.waiting idle busy app output with input := .command (x :: frame) } =
      { c.waiting idle busy app output.tail with input := .command (x :: (frame ++ [b])) } := by
  rcases frame with _ | ⟨y, _ | ⟨z, _ | ⟨w, _ | ⟨v, rest⟩⟩⟩⟩
  · rfl
  · rfl
  · rfl
  · rfl
  · simp only [List.length_cons] at hframe
    omega

/-- A frame of six bytes is a command, whatever its last byte is. -/
theorem mmcSend_frame (hstart : cmd &&& 0xC0 = 0x40) (a₃ a₂ a₁ a₀ crc : UInt8) :
    mmcSend sdDevice (arrayOf [cmd, a₃, a₂, a₁, a₀, crc]) 6 (c.waiting idle busy app output) =
      (c.waiting idle busy app []).execute cmd (Card.argument a₃ a₂ a₁ a₀) := by
  simp only [mmcSend, devWrite, arrayOf, List.getD_cons_zero, List.getD_cons_succ, Nat.zero_add,
    Nat.reduceAdd, send_start hstart, send_part, List.length_nil, List.length_cons,
    Nat.reduceLT, List.nil_append, List.cons_append]
  exact execute_frame (c := c.waiting idle busy app []) _ _

/-- The frame of a command, as both senders end with it. -/
theorem mmcSend_command (hstart : cmd &&& 0xC0 = 0x40) (crc : UInt8) :
    mmcSend sdDevice (arrayOf (commandFrame cmd arg ++ [crc])) 6
        (c.waiting idle busy app output) =
      (c.waiting idle busy app []).execute cmd arg := by
  rw [commandFrame, argumentBytes, List.cons_append, List.cons_append, List.cons_append,
    List.cons_append, List.cons_append, List.nil_append, mmcSend_frame hstart, argument_bytes]

theorem mmcSendCmd_waiting (hstart : cmd &&& 0xC0 = 0x40) :
    mmcSendCmd sdDevice cmd arg (c.waiting idle busy app output) =
      (c.waiting idle busy app []).execute cmd arg := by
  have hfiller : usicSpiSend sdDevice 0xFF (c.waiting idle busy app output) =
      c.waiting idle busy app output.tail := rfl
  rw [mmcSendCmd, List.cons_append, mmcSend_cons, hfiller, mmcSend_command hstart]

theorem execute_reset :
    (c.waiting idle busy app []).execute 0x40 arg =
      c.waiting true c.attempts false (Card.filler c.resetDelay ++ [0x01]) := rfl

/-- The first byte of the answer to CMD8. -/
def SdCard.probeAnswer (c : SdCard) : UInt8 :=
  if c.version2 then 0x01 else 0x05

theorem execute_probe (c : SdCard) (busy : Nat) (app : Bool) (arg : UInt32) :
    ∃ rest : List UInt8, rest.length ≤ 4 ∧ (c.waiting true busy app []).execute mmcCmd08 arg =
      c.waiting true busy false
        (Card.filler (c.statusDelay mmcCmd08 arg) ++ c.probeAnswer :: rest) := by
  cases hversion : c.version2 with
  | true =>
      refine ⟨[0, 0, argumentByte arg 1, argumentByte arg 0], Nat.le_refl _, ?_⟩
      rw [SdCard.probeAnswer, hversion]
      change (c.waiting true busy app []).reply mmcCmd08 arg
        (if c.version2 = true then _ else _) = _
      rw [hversion]
      rfl
  | false =>
      refine ⟨[], Nat.zero_le _, ?_⟩
      have hstatus : (0x01 : UInt8) ||| statusIllegalCmd = 0x05 := by decide
      rw [SdCard.probeAnswer, hversion]
      change (c.waiting true busy app []).reply mmcCmd08 arg
        (if c.version2 = true then _ else [0x01 ||| statusIllegalCmd]) = _
      rw [hversion, hstatus]
      rfl

theorem execute_app :
    (c.waiting true busy app []).execute 0x77 arg =
      c.waiting true busy true (Card.filler (c.statusDelay 0x77 arg) ++ [0x01]) := rfl

theorem execute_ocr :
    (c.waiting false busy app []).execute mmcCmd58 arg =
      c.waiting false busy false (Card.filler (c.statusDelay mmcCmd58 arg) ++
        0x00 :: [0x80, argumentByte c.voltages 2, argumentByte c.voltages 1, 0]) := rfl

theorem execute_csd :
    (c.waiting false busy app []).execute mmcCmd09 arg =
      c.waiting false busy false (Card.filler (c.statusDelay mmcCmd09 arg) ++
        0x00 :: (Card.filler (c.tokenDelay 0) ++ 0xFE :: (List.range 18).map c.csd)) := rfl

theorem execute_cid :
    (c.waiting false busy app []).execute mmcCmd10 arg =
      c.waiting false busy false (Card.filler (c.statusDelay mmcCmd10 arg) ++
        0x00 :: (Card.filler (c.tokenDelay 0) ++ 0xFE :: (List.range 18).map c.cid)) := rfl

/-- What CMD1 and ACMD41 are answered, in turn. -/
structure Retries (c : SdCard) (command : SdCard → SdCard) (delay : Nat) : Prop where
  ready : ∀ output, command (c.waiting true 0 false output) =
    c.waiting false 0 false (Card.filler delay ++ [0x00])
  again : ∀ busy output, command (c.waiting true (busy + 1) false output) =
    c.waiting true busy false (Card.filler delay ++ [0x01])

theorem retries_cmd01 :
    Retries c (mmcSendCmd sdDevice mmcCmd01 0) (c.statusDelay mmcCmd01 0) where
  ready output := (mmcSendCmd_waiting (by decide)).trans rfl
  again busy output := (mmcSendCmd_waiting (by decide)).trans rfl

/-- CMD55 and four bytes more come before ACMD41. -/
theorem retries_acmd41 (arg : UInt32) :
    Retries c (mmcSendAcmd sdDevice mmcCmd41 arg) (c.statusDelay mmcCmd41 arg) := by
  have hsend : ∀ busy output, mmcSendAcmd sdDevice mmcCmd41 arg (c.waiting true busy false output) =
      (c.waiting true busy true []).execute mmcCmd41 arg := by
    intro busy output
    have hfiller : usicSpiSend sdDevice 0xFF (c.waiting true busy false output) =
        c.waiting true busy false output.tail := rfl
    have hzero : Card.argument 0 0 0 0 = 0 := rfl
    have hpause : ∀ s, mmcSend sdDevice (arrayOf [0xFF, 0xFF, 0xFF, 0xFF]) 4 s =
        afterReads sdDevice 4 s := fun _ => rfl
    rw [mmcSendAcmd, hpause, mmcSend_cons, hfiller, mmcSend_frame (by decide), hzero, execute_app,
      waiting_afterReads]
    exact mmcSend_command (by decide) _
  exact ⟨fun output => (hsend 0 output).trans rfl, fun busy output => (hsend _ output).trans rfl⟩

/-- After its attempts the card has left the idle state. -/
theorem Retries.leavesIdle {command : SdCard → SdCard} {delay : Nat} (h : Retries c command delay)
    (busy : Nat) (output : List UInt8) :
    LeavesIdle sdDevice command (c.waiting true busy false output)
      (c.waiting false 0 false []) := by
  induction busy generalizing output with
  | zero =>
      have hsends := waiting_sends c false 0 false 1 delay (b := 0x00) (by decide) []
      rw [← h.ready output] at hsends
      exact .ready hsends rfl
  | succ busy ih =>
      have hsends := waiting_sends c true busy false 1 delay (b := 0x01) (by decide) []
      rw [← h.again busy output] at hsends
      exact .again hsends (by decide) (ih _)

end Commands

section Opening

variable {c t : SdCard} {card info : MmcCard} {idle app : Bool} {busy : Nat} {output : List UInt8}

/-- The OCR of a card of standard capacity that is powered up. -/
theorem ocrOf_power (buf : Nat → UInt8) (hpower : buf 1 = 0x80) :
    (ocrOf buf >>> 31) &&& 0x01 = 1 := by
  rw [ocrOf, hpower]
  apply UInt32.eq_of_toBitVec_eq
  ext i hi
  simp
  interval_cases i <;> simp

theorem ocrOf_capacity (buf : Nat → UInt8) (hpower : buf 1 = 0x80) :
    (ocrOf buf >>> 30) &&& 0x01 = 0 := by
  rw [ocrOf, hpower]
  apply UInt32.eq_of_toBitVec_eq
  ext i hi
  simp
  interval_cases i <;> simp

theorem LeavesIdle.unique {σ : Type*} {dev : SpiDevice σ} {command : σ → σ} {s t t' : σ}
    (h : LeavesIdle dev command s t) (h' : LeavesIdle dev command s t') : t' = t :=
  ((untilReady_ends command).mpr h').unique (untilReady_stable command s)
    ((untilReady_ends command).mpr h)

/-- The card has registers that are accepted, and `info` is what they add. -/
def SdCard.Informs (c : SdCard) (card info : MmcCard) : Prop :=
  ∃ csd cid, ReadAs c.csd csd ∧ CsdAccepted csd ∧ ReadAs c.cid cid ∧ registerValid cid ∧
    info = (decodeCid cid (decodeCsd csd card).2).2

theorem waiting_sendsRegisters :
    SendsRegisters sdDevice card (c.waiting false busy app []) info t ↔
      c.Informs card info ∧ t = c.waiting false busy false [] := by
  have hcsd : mmcSendCmd sdDevice mmcCmd09 0 (c.waiting false busy app []) = _ :=
    (mmcSendCmd_waiting (by decide)).trans execute_csd
  have hcid : mmcSendCmd sdDevice mmcCmd10 0 (c.waiting false busy false []) = _ :=
    (mmcSendCmd_waiting (by decide)).trans execute_cid
  rw [SendsRegisters, hcsd]
  simp only [waiting_sendsRegister]
  constructor
  · rintro ⟨csd, _, cid, ⟨hread, rfl⟩, haccepted, hsends, hvalid, hinfo⟩
    rw [hcid, waiting_sendsRegister] at hsends
    exact ⟨⟨csd, cid, hread, haccepted, hsends.1, hvalid, hinfo⟩, hsends.2⟩
  · rintro ⟨⟨csd, cid, hread, haccepted, hread', hvalid, hinfo⟩, rfl⟩
    refine ⟨csd, _, cid, ⟨hread, rfl⟩, haccepted, ?_, hvalid, hinfo⟩
    rw [hcid, waiting_sendsRegister]
    exact ⟨hread', rfl⟩

theorem waiting_sendsInfo :
    SendsInfo sdDevice card (c.waiting false busy app []) info t ↔
      c.Informs card info ∧ t = c.waiting false busy false [] := by
  have hocr : mmcSendCmd sdDevice mmcCmd58 0 (c.waiting false busy app []) = _ :=
    (mmcSendCmd_waiting (by decide)).trans execute_ocr
  have hsends := waiting_sends c false busy false 5
    (c.statusDelay mmcCmd58 0) (b := 0x00) (by decide)
    [0x80, argumentByte c.voltages 2, argumentByte c.voltages 1, 0]
  rw [← hocr] at hsends
  have hmark : ∀ ocr card, ocr 1 = 0x80 → markSdhc ocr card = card := by
    intro ocr card hocr
    rw [markSdhc, ocrOf_capacity ocr hocr, if_neg (not_not.mpr rfl)]
  constructor
  · rintro ⟨ocr, u, hsends', _, _, hregisters⟩
    obtain ⟨rfl, rfl⟩ := hsends.unique hsends'
    rw [hmark _ _ rfl] at hregisters
    exact waiting_sendsRegisters.mp hregisters
  · intro h
    refine ⟨_, _, hsends, rfl, ?_, ?_⟩
    · rw [ocrOf_power _ rfl]
      decide
    · rw [hmark _ _ rfl]
      exact waiting_sendsRegisters.mpr h

theorem probeAnswer_flag :
    versionFlag c.probeAnswer = if c.version2 then mmcV2 else mmcV1 := by
  rw [SdCard.probeAnswer]
  cases c.version2 <;> decide

/-- The command that the driver repeats is the right one for the card. -/
theorem retriedCommand_retries :
    ∃ delay, Retries c (retriedCommand sdDevice c.probeAnswer) delay := by
  have hknown : ¬ (0x01 : UInt8) &&& statusIllegalCmd ≠ 0 := by decide
  have hillegal : (0x05 : UInt8) &&& statusIllegalCmd ≠ 0 := by decide
  rw [retriedCommand, SdCard.probeAnswer]
  cases c.version2 with
  | true =>
      rw [if_pos rfl, if_neg hknown]
      exact ⟨_, retries_acmd41 _⟩
  | false =>
      rw [if_neg Bool.false_ne_true, if_pos hillegal]
      exact ⟨_, retries_cmd01⟩

theorem waiting_initialises :
    Initialises sdDevice card (c.waiting true busy false []) info t ↔
      c.Informs { card with flags := card.flags ||| versionFlag c.probeAnswer } info ∧
        t = c.waiting false 0 false [] := by
  have hpause : mmcSend sdDevice (arrayOf [0xFF, 0xFF]) 2 (c.waiting true busy false []) =
      c.waiting true busy false [] := rfl
  obtain ⟨rest, hlength, hexecute⟩ := execute_probe c busy false (mmcVoltage2736 ||| 0xAA)
  have hprobe : mmcSendCmd sdDevice mmcCmd08 (mmcVoltage2736 ||| 0xAA)
      (c.waiting true busy false []) = _ := (mmcSendCmd_waiting (by decide)).trans hexecute
  have hanswer : c.probeAnswer ≠ 0xFF := by
    rw [SdCard.probeAnswer]
    cases c.version2 <;> decide
  have hsends := waiting_sends c true busy false 5
    (c.statusDelay mmcCmd08 (mmcVoltage2736 ||| 0xAA)) hanswer rest
  have hnone : (c.probeAnswer :: rest).drop 5 = [] := by
    apply List.drop_eq_nil_of_le
    rw [List.length_cons]
    omega
  rw [← hprobe, hnone] at hsends
  obtain ⟨delay, hretries⟩ := retriedCommand_retries (c := c)
  have hleaves := hretries.leavesIdle busy []
  rw [Initialises, hpause]
  constructor
  · rintro ⟨r7, u, v, hsends', hleaves', hinfo⟩
    obtain ⟨rfl, rfl⟩ := hsends.unique hsends'
    obtain rfl := hleaves.unique hleaves'
    exact waiting_sendsInfo.mp hinfo
  · intro h
    exact ⟨_, _, _, hsends, hleaves, waiting_sendsInfo.mpr h⟩

/-- The reset is answered behind the filler. -/
theorem reset_answered :
    FirstByte sdDevice (· = 0x01)
        (c.waiting true busy app (Card.filler c.resetDelay ++ [0x01])) c.resetDelay ∧
      afterReads sdDevice (c.resetDelay + 1)
        (c.waiting true busy app (Card.filler c.resetDelay ++ [0x01])) =
        c.waiting true busy app [] := by
  have hother : ¬ (0xFF : UInt8) = 0x01 := by decide
  have hfirst := waiting_firstByte c true busy app [] (p := (· = 0x01))
    (filler_not (p := (· = 0x01)) hother c.resetDelay) rfl
  have hlength : (Card.filler c.resetDelay).length = c.resetDelay := by
    rw [Card.filler, List.length_replicate]
  rw [hlength] at hfirst
  refine ⟨hfirst, ?_⟩
  rw [waiting_afterReads, List.drop_eq_nil_of_le]
  rw [List.length_append, hlength, List.length_singleton]

theorem mmcSend_reset :
    mmcSend sdDevice (arrayOf [0x40, 0, 0, 0, 0, 0x95]) 6 (c.waiting idle busy app output) =
      c.waiting true c.attempts false (Card.filler c.resetDelay ++ [0x01]) := by
  have hzero : Card.argument 0 0 0 0 = 0 := rfl
  rw [mmcSend_frame (by decide), hzero, execute_reset]

/-- A close resets the card, wherever it is between two commands. -/
theorem mmcSpiClose_waiting (h : c.resetDelay ≤ mmcTimeout) :
    mmcSpiClose sdDevice (some card) (c.waiting idle busy app output) =
      (0, c.waiting true c.attempts false []) := by
  rw [mmcSpiClose, mmcToIdle, mmcSend_reset,
    idleLoop_found (Nat.lt_succ_of_le h) reset_answered.1, reset_answered.2]

/-- However the card was left, it is reset. -/
theorem resetCard_waiting :
    resetCard sdDevice sdSelect card c =
      c.waiting true c.attempts false (Card.filler c.resetDelay ++ [0x01]) := by
  have hdeaf : ∀ s : SdCard, s.selected = false →
      (List.range 10).foldl (fun s _ => mmcSend sdDevice (arrayOf [0xFF]) 1 s) s = s := by
    intro s hs
    apply List.foldl_fixed'
    intro _
    change (sdDevice.exchange _ s).2 = s
    simp only [sdDevice, hs, Bool.false_eq_true, if_false]
  have hselected : sdSelect.enable card.spiChannel (sdSelect.disable c) =
      c.waiting c.idle c.busy c.app [] := rfl
  rw [resetCard, wokenCard, hdeaf _ rfl, hselected, mmcSend_reset]

/-- The card goes through the whole of the initialisation. -/
theorem sdCard_opens :
    Opens sdDevice sdSelect card c info t ↔
      c.resetDelay ≤ mmcTimeout ∧
        c.Informs { card with flags := if c.version2 then mmcV2 else mmcV1 } info ∧
        t = c.waiting false 0 false [] := by
  have hflags : (0 : UInt8) ||| versionFlag c.probeAnswer =
      if c.version2 then mmcV2 else mmcV1 := by
    rw [UInt8.zero_or, probeAnswer_flag]
  rw [Opens, resetCard_waiting, ← hflags]
  constructor
  · rintro ⟨i, hle, hfirst, hinitialises⟩
    rw [hfirst.unique reset_answered.1] at hle hinitialises
    rw [reset_answered.2] at hinitialises
    exact ⟨hle, waiting_initialises.mp hinitialises⟩
  · rintro ⟨hle, h⟩
    refine ⟨_, hle, reset_answered.1, ?_⟩
    rw [reset_answered.2]
    exact waiting_initialises.mpr h

/-- `mmc_spi_open` succeeds on a card in any state if and only if the card
answers the reset in time and the driver accepts its registers; it then knows what
they say, and leaves the card ready for transfers. -/
theorem sd_card_opens_iff (card info : MmcCard) (c t : SdCard) :
    Ends (fun fuel => mmcSpiOpen sdDevice sdSelect fuel (some card) c) (0, some info, t) ↔
      c.resetDelay ≤ mmcTimeout ∧
        c.Informs { card with flags := if c.version2 then mmcV2 else mmcV1 } info ∧
        t = c.waiting false 0 false [] :=
  (mmc_open_succeeds_iff sdDevice sdSelect card info c t).trans sdCard_opens

end Opening

end PascalScheduler
