import PascalScheduler.Dev.SdCard
import PascalScheduler.Sys.CardFile

/-!
Opening a card and then using its node as a file, again and again. An open works
in whatever state the card is found, and once it has left the idle state the
driver's transfers do to the card what they do to the card of `Dev.Card`.
-/

namespace PascalScheduler.Sys

open Fuel

section Receiving

variable {σ τ : Type*} {dev : SpiDevice σ} {dev' : SpiDevice τ} {lift : σ → τ} {P : σ → Prop}
  {s : σ}

/-- One device receives as another one does, from the states with `P` on. -/
structure ReceivesAs (dev : SpiDevice σ) (dev' : SpiDevice τ) (lift : σ → τ) (P : σ → Prop) :
    Prop where
  receive : ∀ s, P s → usicSpiReceive dev' (lift s) =
    ((usicSpiReceive dev s).1, lift (usicSpiReceive dev s).2)
  keeps : ∀ s, P s → P (usicSpiReceive dev s).2

namespace ReceivesAs

variable (h : ReceivesAs dev dev' lift P)

include h

theorem pollByte (hs : P s) (fuel : Nat) :
    pollByte dev' fuel (lift s) = (pollByte dev fuel s).map fun r => (r.1, lift r.2) := by
  induction fuel generalizing s with
  | zero => rfl
  | succ fuel ih =>
      rw [PascalScheduler.pollByte, PascalScheduler.pollByte, mmcReadByte, mmcReadByte,
        h.receive s hs]
      dsimp only
      split
      · exact ih (h.keeps s hs)
      · rfl

theorem pollByte_keeps (hs : P s) {fuel : Nat} {r : UInt8 × σ}
    (hr : PascalScheduler.pollByte dev fuel s = some r) : P r.2 := by
  induction fuel generalizing s with
  | zero => cases hr
  | succ fuel ih =>
      rw [PascalScheduler.pollByte, mmcReadByte] at hr
      split at hr
      · exact ih (h.keeps s hs) hr
      · rw [← Option.some.inj hr]
        exact h.keeps s hs

theorem waitStartBlock (ignoreStatus : UInt8) (hs : P s) (fuel : Nat) :
    mmcSpiWaitStartBlock dev' ignoreStatus fuel (lift s) =
      (mmcSpiWaitStartBlock dev ignoreStatus fuel s).map fun r => (r.1, lift r.2) := by
  induction fuel generalizing s with
  | zero => rfl
  | succ fuel ih =>
      rw [mmcSpiWaitStartBlock, mmcSpiWaitStartBlock, mmcReadByte, mmcReadByte, h.receive s hs]
      dsimp only
      split
      · rfl
      · split
        · exact ih (h.keeps s hs)
        · rfl

theorem waitStartBlock_keeps {ignoreStatus : UInt8} (hs : P s) {fuel : Nat} {r : Int32 × σ}
    (hr : mmcSpiWaitStartBlock dev ignoreStatus fuel s = some r) : P r.2 := by
  induction fuel generalizing s with
  | zero => cases hr
  | succ fuel ih =>
      rw [mmcSpiWaitStartBlock, mmcReadByte] at hr
      split at hr
      · rw [← Option.some.inj hr]
        exact h.keeps s hs
      · split at hr
        · exact ih (h.keeps s hs) hr
        · rw [← Option.some.inj hr]
          exact h.keeps s hs

theorem devRead (hs : P s) (size i : Nat) (buf : Nat → UInt8) :
    PascalScheduler.devRead dev' size i buf (lift s) =
      ((PascalScheduler.devRead dev size i buf s).1,
        lift (PascalScheduler.devRead dev size i buf s).2) := by
  induction size generalizing i buf s with
  | zero => rfl
  | succ size ih =>
      rw [PascalScheduler.devRead, PascalScheduler.devRead, h.receive s hs]
      exact ih (h.keeps s hs) _ _

theorem mmcRead (hs : P s) (fuel size : Nat) (buf : Nat → UInt8) :
    mmcRead dev' fuel buf size (lift s) =
      (mmcRead dev fuel buf size s).map fun r => (r.1, lift r.2) := by
  rw [PascalScheduler.mmcRead, PascalScheduler.mmcRead, mmcSpiWaitUnbusy, mmcSpiWaitUnbusy,
    h.pollByte hs, Option.map_map, Option.map_map]
  cases hpoll : PascalScheduler.pollByte dev fuel s with
  | none => rfl
  | some r =>
      rw [Option.map_some, Option.map_some]
      exact congrArg some (h.devRead (h.pollByte_keeps hs hpoll) _ _ _)

/-- The reading of a sector, from the state behind the command on. -/
theorem mmcReadSector {info : MmcInfo} {sector : Int32}
    (hcommand : mmcSendCmd dev' mmcCmd17 (sector.toUInt32 * info.readBlockSize) (lift s) =
      lift (mmcSendCmd dev mmcCmd17 (sector.toUInt32 * info.readBlockSize) s))
    (hs : P (mmcSendCmd dev mmcCmd17 (sector.toUInt32 * info.readBlockSize) s)) (fuel : Nat)
    (buf : Nat → UInt8) :
    mmcReadSector dev' fuel info buf sector (lift s) =
      (mmcReadSector dev fuel info buf sector s).map fun r => (r.1, r.2.1, lift r.2.2) := by
  rw [PascalScheduler.mmcReadSector, PascalScheduler.mmcReadSector, hcommand, mmcSpiReadStatus,
    mmcSpiReadStatus, h.pollByte hs]
  cases hstatus : PascalScheduler.pollByte dev fuel
      (mmcSendCmd dev mmcCmd17 (sector.toUInt32 * info.readBlockSize) s) with
  | none => rfl
  | some status =>
      have hs' := h.pollByte_keeps hs hstatus
      rw [Option.map_some, Option.bind_some, Option.bind_some]
      split
      · rfl
      · rw [h.waitStartBlock 0 hs']
        cases hstart : mmcSpiWaitStartBlock dev 0 fuel status.2 with
        | none => rfl
        | some start =>
            rw [Option.map_some, Option.bind_some, Option.bind_some]
            split
            · rfl
            · rw [h.mmcRead (h.waitStartBlock_keeps hs' hstart), Option.map_map, Option.map_map]
              rfl

/-- The writing of a sector, from the state behind the command on. -/
theorem mmcWriteSector {info : MmcInfo} {sector : Int32} {buf : Nat → UInt8}
    (hcommand : mmcSendCmd dev' mmcCmd24 (sector.toUInt32 * info.writeBlockSize) (lift s) =
      lift (mmcSendCmd dev mmcCmd24 (sector.toUInt32 * info.writeBlockSize) s))
    (hs : P (mmcSendCmd dev mmcCmd24 (sector.toUInt32 * info.writeBlockSize) s))
    (hblock : ∀ u, P u →
      mmcSend dev' buf info.writeBlockSize.toNat (mmcSend dev' (arrayOf [0xFF, 0xFE]) 2 (lift u)) =
        lift (mmcSend dev buf info.writeBlockSize.toNat (mmcSend dev (arrayOf [0xFF, 0xFE]) 2 u)))
    (fuel : Nat) :
    mmcWriteSector dev' fuel info buf sector (lift s) =
      (mmcWriteSector dev fuel info buf sector s).map fun r => (r.1, lift r.2) := by
  rw [PascalScheduler.mmcWriteSector, PascalScheduler.mmcWriteSector, hcommand, mmcSpiReadStatus,
    mmcSpiReadStatus, h.pollByte hs]
  cases hstatus : PascalScheduler.pollByte dev fuel
      (mmcSendCmd dev mmcCmd24 (sector.toUInt32 * info.writeBlockSize) s) with
  | none => rfl
  | some status =>
      simp only [Option.map_some]
      split
      · rfl
      · rw [hblock _ (h.pollByte_keeps hs hstatus)]

end ReceivesAs

end Receiving

section SdCard

variable {c : SdCard} {k : Card}

/-- Selected, out of the idle state, and not behind a CMD55. -/
structure Ready (c : SdCard) : Prop where
  selected : c.selected = true
  idle : c.idle = false
  app : c.app = false

def withCard (c : SdCard) (k : Card) : SdCard :=
  { c with toCard := k }

/-- A byte that does not complete a command. -/
theorem exchange_card (hready : Ready c) (b : UInt8)
    (hinput : ∀ cmd a₃ a₂ a₁ a₀, k.input ≠ .command [cmd, a₃, a₂, a₁, a₀]) :
    sdDevice.exchange b (withCard c k) =
      ((cardDevice.exchange b k).1, withCard c (cardDevice.exchange b k).2) := by
  have hselected : (withCard c k).selected = true := hready.selected
  simp only [sdDevice, hselected, if_true]
  refine Prod.ext rfl ?_
  simp only
  rw [SdCard.receive]
  split
  · rename_i cmd a₃ a₂ a₁ a₀ hcommand
    exact absurd hcommand (hinput cmd a₃ a₂ a₁ a₀)
  · rfl

theorem receivesAs_waits (hready : Ready c) :
    ReceivesAs cardDevice sdDevice (withCard c) Card.Waits where
  receive k hk := by
    apply exchange_card hready
    rintro cmd a₃ a₂ a₁ a₀ hcommand
    rcases hk with hk | ⟨address, hk⟩
    · rw [hk] at hcommand
      cases hcommand
    · rw [hk] at hcommand
      cases hcommand
  keeps k hk := by
    rw [receive_card hk]
    exact hk.sending _

theorem Ready.waiting (hready : Ready c) (hidle : k.input = .command []) :
    withCard c k = (withCard c k).waiting false c.busy false k.output := by
  obtain ⟨card, selected, version2, voltages, resetDelay, csd, cid, attempts, busy, idle, app⟩ := c
  obtain ⟨content, statusDelay, tokenDelay, crc, output, input⟩ := k
  obtain ⟨hselected, hout, happ⟩ := hready
  dsimp only at hselected hout happ hidle
  subst hselected hout happ hidle
  rfl

/-- A command for a transfer, which the card itself executes. -/
theorem mmcSendCmd_transfer (hready : Ready c) (hidle : k.input = .command []) {cmd : UInt8}
    (htransfer : cmd = mmcCmd17 ∨ cmd = mmcCmd24) (arg : UInt32) :
    mmcSendCmd sdDevice cmd arg (withCard c k) = withCard c (mmcSendCmd cardDevice cmd arg k) := by
  have hstart : cmd &&& 0xC0 = 0x40 := by
    rcases htransfer with rfl | rfl <;> decide
  have hexecute : ((withCard c k).waiting false c.busy false []).execute cmd arg =
      { (withCard c k).waiting false c.busy false k.output with
        toCard := { k with output := [], input := .command [] }.execute cmd arg } := by
    rcases htransfer with rfl | rfl <;> rfl
  rw [mmcSendCmd_card hidle hstart, hready.waiting hidle, mmcSendCmd_waiting hstart, hexecute,
    ← hready.waiting hidle, Card.execute_frame]
  rfl

/-- The card behind the command of a write. -/
def Awaits (k : Card) : Prop :=
  ∃ address, k.input = .token address

theorem receivesAs_awaits (hready : Ready c) :
    ReceivesAs cardDevice sdDevice (withCard c) Awaits where
  receive k hk := (receivesAs_waits hready).receive k (.inr hk)
  keeps k hk := by
    rw [receive_card (.inr hk)]
    exact hk

theorem devWrite_transfer (hready : Ready c) (buf : Nat → UInt8) (address : UInt32) (size i : Nat)
    (bytes : List UInt8) (hsize : bytes.length + size ≤ blockLength)
    (hinput : k.input = .block address bytes ∨ size = 0) :
    PascalScheduler.devWrite sdDevice buf size i (withCard c k) =
      withCard c (PascalScheduler.devWrite cardDevice buf size i k) := by
  induction size generalizing i bytes k with
  | zero => rfl
  | succ size ih =>
      have hblock := hinput.resolve_right (Nat.succ_ne_zero size)
      have hsend : usicSpiSend sdDevice (buf i) (withCard c k) =
          withCard c (usicSpiSend cardDevice (buf i) k) := by
        rw [usicSpiSend, exchange_card hready]
        · rfl
        · intro cmd a₃ a₂ a₁ a₀ hcommand
          rw [hblock] at hcommand
          cases hcommand
      rw [PascalScheduler.devWrite, PascalScheduler.devWrite, hsend]
      apply ih (i + 1) (bytes ++ [buf i])
      · rw [List.length_append, List.length_singleton]
        omega
      · rw [send_block (buf i) hblock]
        split
        · exact .inl rfl
        · right
          omega

/-- The start token and the block. -/
theorem mmcSend_transfer (hready : Ready c) (buf : Nat → UInt8) (hk : Awaits k) :
    mmcSend sdDevice buf 512 (mmcSend sdDevice (arrayOf [0xFF, 0xFE]) 2 (withCard c k)) =
      withCard c (mmcSend cardDevice buf 512 (mmcSend cardDevice (arrayOf [0xFF, 0xFE]) 2 k)) := by
  have hsend : ∀ b k, Awaits k →
      usicSpiSend sdDevice b (withCard c k) = withCard c (usicSpiSend cardDevice b k) := by
    rintro b k ⟨address, hk⟩
    rw [usicSpiSend, exchange_card hready]
    · rfl
    · intro cmd a₃ a₂ a₁ a₀ hcommand
      rw [hk] at hcommand
      cases hcommand
  have hfiller : Awaits (usicSpiSend cardDevice 0xFF k) := (receivesAs_awaits hready).keeps k hk
  have hhead : mmcSend sdDevice (arrayOf [0xFF, 0xFE]) 2 (withCard c k) =
      withCard c (mmcSend cardDevice (arrayOf [0xFF, 0xFE]) 2 k) := by
    rw [mmcSend_cons, hsend _ _ hk, mmcSend_cons, hsend _ _ hfiller]
    rfl
  obtain ⟨address, hk⟩ := hk
  have hblock : (mmcSend cardDevice (arrayOf [0xFF, 0xFE]) 2 k).input = .block address [] := by
    obtain ⟨content, statusDelay, tokenDelay, crc, output, input⟩ := k
    obtain rfl : input = .token address := hk
    rfl
  rw [hhead]
  exact devWrite_transfer hready buf address 512 0 [] (Nat.le_refl _) (.inl hblock)

theorem mmcReadSector_transfer (hready : Ready c) (hidle : k.input = .command []) (sector : Int32)
    (fuel : Nat) (buf : Nat → UInt8) :
    mmcReadSector sdDevice fuel blockInfo buf sector (withCard c k) =
      (mmcReadSector cardDevice fuel blockInfo buf sector k).map
        fun r => (r.1, r.2.1, withCard c r.2.2) := by
  apply (receivesAs_waits hready).mmcReadSector (mmcSendCmd_transfer hready hidle (.inl rfl) _)
  rw [mmcSendCmd_card hidle (by decide), execute_read hidle]
  exact .inl hidle

theorem mmcWriteSector_transfer (hready : Ready c) (hidle : k.input = .command []) (sector : Int32)
    (fuel : Nat) (buf : Nat → UInt8) :
    mmcWriteSector sdDevice fuel blockInfo buf sector (withCard c k) =
      (mmcWriteSector cardDevice fuel blockInfo buf sector k).map
        fun r => (r.1, withCard c r.2) := by
  apply (receivesAs_awaits hready).mmcWriteSector (mmcSendCmd_transfer hready hidle (.inr rfl) _)
  · rw [mmcSendCmd_card hidle (by decide)]
    exact ⟨_, rfl⟩
  · exact fun u hu => mmcSend_transfer hready buf hu

/-- Reading a sector leaves the card idle. -/
theorem mmcReadSector_idle (hidle : k.input = .command []) {sector : Int32} {fuel : Nat}
    {buf : Nat → UInt8} {r : Int32 × (Nat → UInt8) × Card}
    (hr : mmcReadSector cardDevice fuel blockInfo buf sector k = some r) :
    r.2.2.input = .command [] := by
  by_cases hsome : ∃ b ∈ k.answer (sector.toUInt32 * 512), b ≠ 0xFF
  · obtain ⟨buf', output, bound, _, hsector⟩ := mmcReadSector_card hidle rfl buf hsome
    rw [hsector] at hr
    split at hr
    · rw [← Option.some.inj hr]
      exact hidle
    · cases hr
  · rw [mmcReadSector_stuck hidle rfl buf hsome] at hr
    cases hr

/-- The driver's transfers, once the card is ready. -/
theorem sdDevice_carries (board : Board SdCard) (hspi : board.spi = sdDevice) :
    CarriesCard board Ready SdCard.toCard withCard where
  card_put _ _ := rfl
  ready_put _ _ hready := ⟨hready.selected, hready.idle, hready.app⟩
  read c hready hidle fuel offset uio junk := by
    rw [hspi]
    change mmcSpiRead sdDevice fuel _ offset uio junk (withCard c c.toCard) = _
    simp only [mmcSpiRead, if_neg blockInfo_divides, if_neg blockInfo_fits.1,
      mmcReadSector_transfer hready hidle]
    split_ifs
    · rfl
    · rfl
    · rw [Option.bind_map, Option.map_bind]
      apply Option.bind_congr
      intro r _
      simp only [Function.comp_apply]
      split_ifs <;> rfl
  write c hready hidle fuel offset uio junk := by
    rw [hspi]
    change mmcSpiWrite sdDevice fuel _ offset uio junk (withCard c c.toCard) = _
    simp only [mmcSpiWrite, if_neg blockInfo_divides, if_neg blockInfo_fits.1,
      if_neg blockInfo_fits.2, mmcReadSector_transfer hready hidle]
    split_ifs
    · rfl
    · rfl
    · cases hsector : mmcReadSector cardDevice fuel blockInfo junk
          (offset.toUInt32 / blockInfo.readBlockSize).toInt32 c.toCard with
      | none => rfl
      | some sector =>
          simp only [Option.map_some, Option.bind_some]
          split_ifs
          · rfl
          · rw [mmcWriteSector_transfer hready (mmcReadSector_idle hidle hsector),
              Option.bind_map, Option.map_bind]
            apply Option.bind_congr
            intro r _
            simp only [Function.comp_apply]
            split_ifs <;> rfl

end SdCard

section Mounting

/-- What the driver has of a register that it reads from its first byte on. -/
def registerImage (register : Nat → UInt8) (k : Nat) : UInt8 :=
  if k < 18 then register k else 0

/-- The reset is answered in time, the registers are accepted, and the blocks
have 512 bytes. -/
structure Mountable (c : SdCard) : Prop where
  reset : c.resetDelay ≤ mmcTimeout
  csdFirst : c.csd 0 ≠ 0xFF
  csd : CsdAccepted (registerImage c.csd)
  cidFirst : c.cid 0 ≠ 0xFF
  cid : registerValid (registerImage c.cid)
  readLength : unstuffBits (wordAt (swapRegister (registerImage c.csd))) 80 4 = 9
  writeLength : unstuffBits (wordAt (swapRegister (registerImage c.csd))) 22 4 = 9

variable {c : SdCard} {card : MmcCard}

theorem registerImage_readAs {register : Nat → UInt8} (hfirst : register 0 ≠ 0xFF) :
    ReadAs register (registerImage register) := by
  refine ⟨0, by decide, hfirst, fun k hk => absurd hk (Nat.not_lt_zero k), ?_⟩
  funext k
  rw [registerImage, Nat.zero_add]
  split
  · rfl
  · rfl

/-- The block sizes that an accepted CSD leaves. -/
theorem decodeCsd_sizes {bytes : Nat → UInt8} (haccepted : CsdAccepted bytes)
    (hread : unstuffBits (wordAt (swapRegister bytes)) 80 4 = 9)
    (hwrite : unstuffBits (wordAt (swapRegister bytes)) 22 4 = 9) (card : MmcCard) :
    (decodeCsd bytes card).2.toMmcInfo = blockInfo := by
  have hsizes : (decodeBlockSizes (wordAt (swapRegister bytes)) card).toMmcInfo = blockInfo := by
    simp only [decodeBlockSizes, hread, hwrite]
    rfl
  rw [decodeCsd, if_neg (not_not.mpr haccepted.1)]
  dsimp only
  split
  · rw [sdDecodeCsd]
    dsimp only
    split
    · exact hsizes
    · split
      · exact hsizes
      · exact hsizes
  · exact hsizes

theorem decodeCid_sizes (bytes : Nat → UInt8) (card : MmcCard) :
    (decodeCid bytes card).2.toMmcInfo = card.toMmcInfo := by
  rw [decodeCid]
  split
  · rfl
  · rfl

theorem Mountable.informs (h : Mountable c) (card : MmcCard) :
    ∃ info, c.Informs card info ∧ info.toMmcInfo = blockInfo := by
  have hsizes := decodeCsd_sizes h.csd h.readLength h.writeLength card
  refine ⟨(decodeCid (registerImage c.cid) (decodeCsd (registerImage c.csd) card).2).2,
    ⟨registerImage c.csd, registerImage c.cid, registerImage_readAs h.csdFirst, h.csd,
      registerImage_readAs h.cidFirst, h.cid, rfl⟩, ?_⟩
  rw [decodeCid_sizes, hsizes]

theorem Mountable.withCard (h : Mountable c) (k : Card) : Mountable (withCard c k) :=
  ⟨h.reset, h.csdFirst, h.csd, h.cidFirst, h.cid, h.readLength, h.writeLength⟩

/-- A node, the `struct mmc_info` it points to, and the hardware. -/
structure Mount (σ : Type*) where
  info : MmcCard
  vnode : Vnode
  hardware : σ

/-- An open, the calls behind it, and perhaps a close. -/
structure Session where
  ops : List FileOp
  closed : Bool

section Sessions

variable {σ : Type*} (board : Board σ) (select : SpiSelect σ)

/-- Nothing is called behind an open that fails. -/
def session (fuel : Nat) (session : Session) (m : Mount σ) :
    Option (Option (List FileAnswer) × Mount σ) :=
  (mmcSpiOpen board.spi select fuel (some m.info) m.hardware).bind fun opened =>
    let info := opened.2.1.getD m.info
    let vnode := { m.vnode with data := some info.toMmcInfo }
    if opened.1 ≠ 0 then some (none, ⟨info, vnode, opened.2.2⟩)
    else
      (fileCalls board fuel session.ops vnode opened.2.2).map fun r =>
        (some r.1, ⟨info, r.2.1,
          if session.closed then (mmcSpiClose board.spi (some info) r.2.2).2 else r.2.2⟩)

def sessions (fuel : Nat) : List Session → Mount σ →
    Option (List (Option (List FileAnswer)) × Mount σ)
  | [], m => some ([], m)
  | first :: rest, m =>
      (session board select fuel first m).bind fun r =>
        (sessions fuel rest r.2).map fun last => (r.1 :: last.1, last.2)

theorem session_stable (first : Session) (m : Mount σ) :
    Stable fun fuel => session board select fuel first m :=
  (mmcSpiOpen_stable select m.info m.hardware).bind fun _ =>
    (stable_const _).ite _ ((fileCalls_stable board first.ops _ _).map _)

theorem sessions_stable (rest : List Session) (m : Mount σ) :
    Stable fun fuel => sessions board select fuel rest m := by
  induction rest generalizing m with
  | nil => exact stable_const _
  | cons first rest ih => exact (session_stable board select first m).bind fun r => (ih _).map _

end Sessions

namespace ByteFile

/-- The file stays as the last session left it. -/
def sessions (file : ByteFile) : List Session → List (Option (List FileAnswer)) × ByteFile
  | [] => ([], file)
  | first :: rest =>
      let answers := file.calls first.ops
      let last := answers.2.sessions rest
      (some answers.1 :: last.1, last.2)

def SessionsAllowed (file : ByteFile) : List Session → Prop
  | [] => True
  | first :: rest =>
      file.AllAllowed first.ops ∧ (file.calls first.ops).2.SessionsAllowed rest

end ByteFile

/-- A card that can be mounted, in any state, and its node, with what the file
says. -/
structure Attached (m : Mount SdCard) (file : ByteFile) : Prop where
  device : m.vnode.devId = .mmc
  offset : m.vnode.offset.toInt = file.position
  content : m.hardware.content = file.bytes
  mountable : Mountable m.hardware

variable {board : Board SdCard} {m : Mount SdCard} {file : ByteFile}

/-- What the initialisation changes of the card does not matter to the next one. -/
theorem Mountable.waiting (h : Mountable c) (idle : Bool) (busy : Nat) (app : Bool)
    (output : List UInt8) : Mountable (c.waiting idle busy app output) :=
  ⟨h.reset, h.csdFirst, h.csd, h.cidFirst, h.cid, h.readLength, h.writeLength⟩

/-- A close behind the calls, if there is one. -/
theorem close_keeps (card : MmcCard) (hready : Ready c) (hmountable : Mountable c)
    (hidle : c.input = .command []) (closed : Bool) :
    let c' := if closed then (mmcSpiClose sdDevice (some card) c).2 else c
    c'.content = c.content ∧ Mountable c' := by
  cases closed with
  | false => exact ⟨rfl, hmountable⟩
  | true =>
      have hwaiting : c = c.waiting false c.busy false c.output :=
        hready.waiting (k := c.toCard) hidle
      have hclose : mmcSpiClose sdDevice (some card) c =
          (0, c.waiting true c.attempts false []) := by
        nth_rewrite 1 [hwaiting]
        exact mmcSpiClose_waiting hmountable.reset
      simp only [if_true, hclose]
      exact ⟨rfl, hmountable.waiting true c.attempts false []⟩

theorem session_attached (hspi : board.spi = sdDevice) (h : Attached m file) {first : Session}
    (hallowed : file.AllAllowed first.ops) :
    ∃ m', Ends (fun fuel => session board sdSelect fuel first m)
        (some (file.calls first.ops).1, m') ∧ Attached m' (file.calls first.ops).2 := by
  obtain ⟨info, hinforms, hinfo⟩ := h.mountable.informs
    { m.info with flags := if m.hardware.version2 then mmcV2 else mmcV1 }
  have hopen := (mmc_open_succeeds_iff sdDevice sdSelect m.info info m.hardware _).mpr
    (sdCard_opens.mpr ⟨h.mountable.reset, hinforms, rfl⟩)
  have hready : Ready (m.hardware.waiting false 0 false []) := ⟨rfl, rfl, rfl⟩
  have hholds : Holds { m.vnode with data := some info.toMmcInfo }
      (m.hardware.waiting false 0 false []).toCard file :=
    ⟨h.device, congrArg some hinfo, h.offset, rfl, h.content⟩
  have hcarries : CarriesCard board (fun s => Ready s ∧ Mountable s) SdCard.toCard withCard :=
    (sdDevice_carries board hspi).and fun _ k hc => hc.withCard k
  obtain ⟨vnode, s, hcalls, ⟨hready', hmountable⟩, hholds'⟩ := fileCalls_hold hcarries first.ops
    ⟨hready, h.mountable.waiting false 0 false []⟩ hholds hallowed
  obtain ⟨hcontent, hmountable'⟩ := close_keeps info hready' hmountable hholds'.idle first.closed
  refine ⟨⟨info, vnode, _⟩, ?_,
    ⟨hholds'.device, hholds'.offset, hcontent.trans hholds'.content, hmountable'⟩⟩
  simp only [session, hspi]
  apply (ends_bind (mmcSpiOpen_stable sdSelect m.info m.hardware) _).mpr
  · refine ⟨_, hopen, ?_⟩
    simp only [ne_eq, not_true_eq_false, if_false, Option.getD_some]
    exact ends_map.mpr ⟨_, hcalls, rfl⟩
  · exact fun opened => (stable_const _).ite _ ((fileCalls_stable board first.ops _ _).map _)

/-- The card is one file over any number of sessions: every `mmc_spi_open`
succeeds, however the card was left, and every call behind it answers as the file
does, which stays as the session before has left it. -/
theorem card_sessions (board : Board SdCard) (hspi : board.spi = sdDevice) (rest : List Session)
    (m : Mount SdCard) (file : ByteFile) (h : Attached m file)
    (hallowed : file.SessionsAllowed rest) :
    ∃ m', Ends (fun fuel => sessions board sdSelect fuel rest m) ((file.sessions rest).1, m') ∧
      Attached m' (file.sessions rest).2 := by
  induction rest generalizing m file with
  | nil => exact ⟨m, ends_some.mpr rfl, h⟩
  | cons first rest ih =>
      obtain ⟨m₁, hfirst, hattached⟩ := session_attached hspi h hallowed.1
      obtain ⟨m₂, hrest, hlast⟩ := ih m₁ _ hattached hallowed.2
      refine ⟨m₂, ?_, hlast⟩
      apply (ends_bind (session_stable board sdSelect first m) _).mpr
      · exact ⟨_, hfirst, ends_map.mpr ⟨_, hrest, rfl⟩⟩
      · exact fun r => (sessions_stable board sdSelect rest _).map _

/-- A card that was left in the middle of a block, not selected and sending. -/
def sampleSdCard : SdCard where
  content := UInt8.ofNat
  statusDelay _ _ := 1
  tokenDelay _ := 2
  crc _ := (0, 0)
  output := [0x55]
  input := .block 512 [1]
  selected := false
  version2 := true
  voltages := 0x00FF8000
  resetDelay := 2
  csd k :=
    [0x00, 0x2E, 0x00, 0x32, 0x5B, 0x59, 0x83, 0xA9, 0xFF, 0xFF, 0xFF, 0x80, 0x0A, 0x40, 0x00,
      151].getD k 0
  cid k := sampleCid.getD k 0
  attempts := 3
  busy := 1
  idle := true
  app := true

/-- Two bytes written in one session are read back in the next. -/
theorem card_sessions_two :
    ∃ m' memory, Ends (fun fuel => sessions (spiBoard sdDevice) sdSelect fuel
        [⟨[.seek 514 .seekSet, .write (fun _ => 7) 2], true⟩,
          ⟨[.seek (-1) .seekCur, .read (fun _ => 0) 4], false⟩]
        ⟨MmcCard.zero, ⟨.mmc, 0, 0, none⟩, sampleSdCard⟩)
        ([some [⟨514, none⟩, ⟨2, none⟩], some [⟨513, none⟩, ⟨4, some memory⟩]], m') ∧
      (List.range 4).map memory = [1, 7, 7, 4] := by
  have hmountable : Mountable sampleSdCard :=
    ⟨by decide, by decide, ⟨by decide +kernel, by decide +kernel⟩, by decide, by decide +kernel,
      by decide +kernel, by decide +kernel⟩
  obtain ⟨m', hsessions, _⟩ := card_sessions (spiBoard sdDevice) rfl
    [⟨[.seek 514 .seekSet, .write (fun _ => 7) 2], true⟩,
      ⟨[.seek (-1) .seekCur, .read (fun _ => 0) 4], false⟩]
    ⟨MmcCard.zero, ⟨.mmc, 0, 0, none⟩, sampleSdCard⟩ ⟨UInt8.ofNat, 0⟩ ⟨rfl, rfl, rfl, hmountable⟩
    ⟨⟨trivial, ⟨by decide, by decide⟩, trivial⟩,
      ⟨⟨by decide, by decide⟩, ⟨by decide, by decide⟩, trivial⟩, trivial⟩
  exact ⟨m', _, hsessions, rfl⟩

end Mounting

end PascalScheduler.Sys
