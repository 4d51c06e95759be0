import PascalScheduler.Dev.MmcStore
import PascalScheduler.Sys.Console
import PascalScheduler.Sys.DevSeek

/-!
The node of a memory card as a file: `dev_seek`, `dev_read` and `dev_write` in any
order. Neither transfer moves the offset. The abstract file is an array of bytes
with a position; the calls do to the card what they do to it, as long as no
transfer touches a sector that starts with `0xFF`.
-/

namespace PascalScheduler.Sys

open Fuel

/-- A call on the node. -/
inductive FileOp where
  | seek (offset : Int32) (whence : SeekWhence)
  | read (ptr : Nat → UInt8) (count : UInt32)
  | write (ptr : Nat → UInt8) (count : UInt32)

/-- What a call returns, and what a read leaves at `ptr`. -/
structure FileAnswer where
  result : Int
  memory : Option (Nat → UInt8)

section Calls

variable {σ : Type*} (board : Board σ)

def fileCall (fuel : Nat) (op : FileOp) (vnode : Vnode) (s : σ) :
    Option (FileAnswer × Vnode × σ) :=
  match op with
  | .seek offset whence =>
      let answer := devSeek offset whence vnode
      some (⟨answer.2.toInt, none⟩, answer.1, s)
  | .read ptr count =>
      (devRead board fuel vnode ptr count s).map fun r => (⟨r.1.toInt, some r.2.1⟩, vnode, r.2.2)
  | .write ptr count =>
      (devWrite board fuel vnode ptr count s).map fun r => (⟨r.1.toInt, none⟩, vnode, r.2)

def fileCalls (fuel : Nat) : List FileOp → Vnode → σ → Option (List FileAnswer × Vnode × σ)
  | [], vnode, s => some ([], vnode, s)
  | op :: ops, vnode, s =>
      (fileCall board fuel op vnode s).bind fun r =>
        (fileCalls fuel ops r.2.1 r.2.2).map fun rest => (r.1 :: rest.1, rest.2)

theorem fileCall_stable (op : FileOp) (vnode : Vnode) (s : σ) :
    Stable fun fuel => fileCall board fuel op vnode s := by
  cases op with
  | seek => exact stable_const _
  | read => exact (devRead_stable board _ _ _ _).map _
  | write => exact (devWrite_stable board _ _ _ _).map _

theorem fileCalls_stable (ops : List FileOp) (vnode : Vnode) (s : σ) :
    Stable fun fuel => fileCalls board fuel ops vnode s := by
  induction ops generalizing vnode s with
  | nil => exact stable_const _
  | cons op ops ih => exact (fileCall_stable board op vnode s).bind fun r => (ih _ _).map _

end Calls

/-- An array of bytes with a position. -/
structure ByteFile where
  bytes : Nat → UInt8
  position : Nat

namespace ByteFile

/-- To a position, which is refused below the start. -/
def goTo (file : ByteFile) (target : Int) : FileAnswer × ByteFile :=
  if target < 0 then (⟨-1, none⟩, file)
  else (⟨target, none⟩, { file with position := target.toNat })

def call (file : ByteFile) : FileOp → FileAnswer × ByteFile
  | .seek offset .seekSet => file.goTo offset.toInt
  | .seek offset .seekCur => file.goTo (file.position + offset.toInt)
  | .seek _ .seekEnd => (⟨-1, none⟩, file)
  | .read ptr count =>
      (⟨count.toNat, some fun k =>
        if k < count.toNat then file.bytes (file.position + k) else ptr k⟩, file)
  | .write ptr count =>
      (⟨count.toNat, none⟩,
        { file with
          bytes := fun a =>
            if file.position ≤ a ∧ a < file.position + count.toNat then ptr (a - file.position)
            else file.bytes a })

def calls (file : ByteFile) : List FileOp → List FileAnswer × ByteFile
  | [] => ([], file)
  | op :: ops =>
      let answer := file.call op
      let rest := answer.2.calls ops
      (answer.1 :: rest.1, rest.2)

/-- The sector of the position does not start with `0xFF`, and `count` bytes fit
behind the position. -/
def Accessible (file : ByteFile) (count : UInt32) : Prop :=
  file.position % blockLength + count.toNat ≤ blockLength ∧
    file.bytes (file.position / blockLength * blockLength) ≠ 0xFF

/-- What a caller has to see to: transfers stay in a sector that can be read, and
relative seeks in the range of the offset. -/
def Allowed (file : ByteFile) : FileOp → Prop
  | .seek offset .seekCur =>
      offset ≠ Int32.minValue ∧ file.position + offset.toInt ≤ Int32.maxValue.toInt
  | .seek _ _ => True
  | .read _ count => file.Accessible count
  | .write _ count => file.Accessible count

def AllAllowed (file : ByteFile) : List FileOp → Prop
  | [] => True
  | op :: ops => file.Allowed op ∧ (file.call op).2.AllAllowed ops

end ByteFile

/-- The node and an idle card hold the file. -/
structure Holds (vnode : Vnode) (card : Card) (file : ByteFile) : Prop where
  device : vnode.devId = .mmc
  info : vnode.data = some blockInfo
  offset : vnode.offset.toInt = file.position
  idle : card.input = .command []
  content : card.content = file.bytes

/-- A board whose MMC driver does with a part of its state what it does with a
card that is all of it. -/
structure CarriesCard {σ : Type*} (board : Board σ) (ready : σ → Prop) (card : σ → Card)
    (put : σ → Card → σ) : Prop where
  card_put : ∀ s k, card (put s k) = k
  ready_put : ∀ s k, ready s → ready (put s k)
  read : ∀ s, ready s → (card s).input = .command [] → ∀ fuel offset uio junk,
    mmcSpiRead board.spi fuel (some blockInfo) offset uio junk s =
      (mmcSpiRead cardDevice fuel (some blockInfo) offset uio junk (card s)).map
        fun r => (r.1, r.2.1, put s r.2.2)
  write : ∀ s, ready s → (card s).input = .command [] → ∀ fuel offset uio junk,
    mmcSpiWrite board.spi fuel (some blockInfo) offset uio junk s =
      (mmcSpiWrite cardDevice fuel (some blockInfo) offset uio junk (card s)).map
        fun r => (r.1, r.2.1, put s r.2.2)

section Card

variable {card : Card} {vnode : Vnode} {file : ByteFile} {offset : Int32} {uio : Uio}

/-- The last byte of a block leaves the card idle. -/
theorem devWrite_idle (buf : Nat → UInt8) (address : UInt32) (size i : Nat) (bytes : List UInt8)
    (hsize : bytes.length + (size + 1) = blockLength) (hinput : card.input = .block address bytes) :
    (PascalScheduler.devWrite cardDevice buf (size + 1) i card).input = .command [] := by
  induction size generalizing i bytes card with
  | zero =>
      rw [PascalScheduler.devWrite, send_block (buf i) hinput, if_neg (by omega)]
      rfl
  | succ size ih =>
      rw [PascalScheduler.devWrite, send_block (buf i) hinput, if_pos (by omega)]
      apply ih (i + 1) (bytes ++ [buf i]) _ rfl
      rw [List.length_append, List.length_singleton]
      omega

theorem mmcSend_idle (buf : Nat → UInt8) {address : UInt32}
    (hinput : card.input = .block address []) :
    (mmcSend cardDevice buf 512 card).input = .command [] :=
  devWrite_idle buf address 511 0 [] rfl hinput

theorem mmcWriteSector_idle {sector : Int32} {address : UInt32} (hready : card.input = .command [])
    (haddress : sector.toUInt32 * 512 = address) (buf : Nat → UInt8) {fuel : Nat}
    {r : Int32 × Card}
    (hwrite : mmcWriteSector cardDevice fuel blockInfo buf sector card = some r) :
    r.2.input = .command [] := by
  let waiting : Card := { card with input := .token address }
  have hsend : mmcSendCmd cardDevice mmcCmd24 address card =
      waiting.sending (Card.filler (card.statusDelay mmcCmd24 address) ++ 0 :: []) :=
    mmcSendCmd_card hready (by decide)
  have hstatus := pollByte_card (.inr ⟨address, rfl⟩ : waiting.Waits) fuel
    (card.statusDelay mmcCmd24 address) (b := 0) (by decide) []
  have htoken : mmcSend cardDevice (arrayOf [0xFF, 0xFE]) 2 (waiting.sending []) =
      { card with output := [], input := .block address [] } :=
    mmcSend_token rfl
  rw [mmcWriteSector] at hwrite
  change (mmcSpiReadStatus cardDevice fuel
    (mmcSendCmd cardDevice mmcCmd24 (sector.toUInt32 * 512) card)).map _ = _ at hwrite
  rw [haddress, hsend, mmcSpiReadStatus, hstatus] at hwrite
  split at hwrite
  · rw [Option.map_some, if_neg (by simp), htoken] at hwrite
    rw [← Option.some.inj hwrite]
    have hsize : blockInfo.writeBlockSize.toNat = 512 := rfl
    dsimp only
    rw [hsize]
    exact mmcSend_idle buf rfl
  · cases hwrite

theorem mmcSpiWrite_idle (hready : card.input = .command []) (hrw : uio.rw = .write)
    (hfits : ¬ crossesSector blockInfo offset uio) (junk : Nat → UInt8)
    (hsome : ∃ b ∈ card.answer (sectorAddress offset), b ≠ 0xFF) {fuel : Nat}
    {r : Int32 × Uio × Card}
    (hwrite : mmcSpiWrite cardDevice fuel (some blockInfo) offset uio junk card = some r) :
    r.2.2.input = .command [] := by
  obtain ⟨buf, output, bound, _, hsector⟩ :=
    mmcReadSector_card hready (sector_address offset) junk hsome
  rw [mmcSpiWrite_sector card hrw hfits, hsector] at hwrite
  split at hwrite
  · rw [Option.bind_some, if_neg (by simp)] at hwrite
    obtain ⟨written, hwritten, hr⟩ := Option.map_eq_some_iff.mp hwrite
    have hidle := mmcWriteSector_idle (show (card.sending output).input = .command [] from hready)
      (sector_address offset) _ hwritten
    rw [← hr]
    split <;> exact hidle
  · cases hwrite

/-- The place of the position in its sector, and the first byte of the sector. -/
theorem Holds.sector (h : Holds vnode card file) :
    sectorOffset vnode.offset = file.position % blockLength ∧
      (sectorAddress vnode.offset).toNat = file.position / blockLength * blockLength := by
  have hnonneg : 0 ≤ vnode.offset.toInt := by
    rw [h.offset]
    exact Int.natCast_nonneg _
  have hplace : sectorOffset vnode.offset = file.position % blockLength := by
    rw [sectorOffset, h.offset]
    rfl
  have hadd := sectorAddress_add hnonneg
  rw [hplace, h.offset] at hadd
  refine ⟨hplace, ?_⟩
  rw [blockLength] at hadd ⊢
  omega

/-- Nothing of an accessible sector is skipped. -/
theorem Holds.aligned (h : Holds vnode card file) {count : UInt32} (haccess : file.Accessible count)
    (wanted : Nat → Prop) : Aligned card (sectorAddress vnode.offset) wanted := by
  apply aligned_of_first
  rw [h.content, h.sector.2]
  exact haccess.2

/-- What the driver needs of a request for `count` bytes. -/
theorem Holds.request (h : Holds vnode card file) {count : UInt32} (haccess : file.Accessible count)
    (ptr : Nat → UInt8) (rw : UioRw) :
    let uio : Uio := ⟨ptr, count.toInt32, rw⟩
    count.toNat < 2 ^ 31 ∧ uio.count = count.toNat ∧ 0 ≤ vnode.offset.toInt ∧
      0 ≤ uio.resid.toInt ∧ sectorOffset vnode.offset + uio.count ≤ blockLength := by
  intro uio
  have hcount : count.toNat < 2 ^ 31 := by
    have hfits := haccess.1
    rw [blockLength] at hfits
    omega
  have hrequest : uio.count = count.toNat := request_count hcount
  refine ⟨hcount, hrequest, ?_, ?_, ?_⟩
  · rw [h.offset]
    exact Int.natCast_nonneg _
  · change 0 ≤ count.toInt32.toInt
    rw [count_toInt hcount]
    exact Int.natCast_nonneg _
  · rw [hrequest, h.sector.1]
    exact haccess.1

theorem seek_file (h : Holds vnode card file) {offset : Int32} {whence : SeekWhence}
    (hallowed : file.Allowed (.seek offset whence)) :
    (devSeek offset whence vnode).2.toInt = (file.call (.seek offset whence)).1.result ∧
      Holds (devSeek offset whence vnode).1 card (file.call (.seek offset whence)).2 := by
  have hminus : (-1 : Int32).toInt = -1 := rfl
  cases whence with
  | seekEnd => exact ⟨rfl, h⟩
  | seekSet =>
      by_cases hneg : offset < 0
      · have hbelow : offset.toInt < 0 := Int32.lt_iff_toInt_lt.mp hneg
        simp only [devSeek, if_pos hneg, ByteFile.call, ByteFile.goTo, if_pos hbelow]
        exact ⟨hminus, h⟩
      · have hfrom : ¬ offset.toInt < 0 := fun hlt => hneg (Int32.lt_iff_toInt_lt.mpr hlt)
        simp only [devSeek, if_neg hneg, ByteFile.call, ByteFile.goTo, if_neg hfrom]
        exact ⟨trivial, h.device, h.info, by simp only; omega, h.idle, h.content⟩
  | seekCur =>
      obtain ⟨hmin, hmax⟩ := hallowed
      have hoffset := h.offset
      have hneg := neg_toInt hmin
      by_cases hrefused : offset < 0 ∧ -offset > vnode.offset
      · have hbelow : file.position + offset.toInt < 0 := by
          have hlt : vnode.offset.toInt < (-offset).toInt := Int32.lt_iff_toInt_lt.mp hrefused.2
          omega
        simp only [devSeek, if_pos hrefused, ByteFile.call, ByteFile.goTo, if_pos hbelow]
        exact ⟨hminus, h⟩
      · have hfrom : ¬ (file.position + offset.toInt < 0) := by
          intro hlt
          apply hrefused
          refine ⟨Int32.lt_iff_toInt_lt.mpr ?_, Int32.lt_iff_toInt_lt.mpr ?_⟩
          · change offset.toInt < 0
            omega
          · omega
        have hsum : (vnode.offset + offset).toInt = file.position + offset.toInt := by
          rw [← hoffset]
          change _ ≤ (2 ^ 31 - 1 : Int) at hmax
          exact Wrapping.toInt_add_of_le (by omega) (by omega)
        simp only [devSeek, if_neg hrefused, ByteFile.call, ByteFile.goTo, if_neg hfrom]
        exact ⟨hsum, h.device, h.info, by simp only; omega, h.idle, h.content⟩

end Card

section Calls

variable {σ : Type*} {board : Board σ} {ready : σ → Prop} {part : σ → Card} {put : σ → Card → σ}
  {s : σ} {vnode : Vnode} {file : ByteFile}

/-- The driver's read, as `dev_read` calls it. -/
theorem dRead_file (hboard : CarriesCard board ready part put) (hready : ready s)
    (h : Holds vnode (part s) file) {count : UInt32} (haccess : file.Accessible count)
    (ptr : Nat → UInt8) :
    ∃ base output, Ends (fun fuel => dRead board fuel vnode ⟨ptr, count.toInt32, .read⟩ s)
        (0, ⟨base, 0, .read⟩, put s ((part s).sending output)) ∧
      base = fun k => if k < count.toNat then file.bytes (file.position + k) else ptr k := by
  obtain ⟨_, hrequest, hoffset, hresid, hfits⟩ := h.request haccess ptr .read
  obtain ⟨hsome, haligned⟩ := h.aligned haccess fun _ => True
  obtain ⟨base, output, bound, hrun, hin, hout⟩ :=
    mmcSpiRead_card h.idle hoffset hresid hfits rfl (board.stack s) hsome
  have haddress := sectorAddress_add hoffset
  rw [h.offset] at haddress
  refine ⟨base, output, ⟨bound + 1, ?_⟩, ?_⟩
  · simp only [dRead, h.device, h.info, hboard.read s hready h.idle, hrun, Nat.lt_succ_self,
      if_true, Option.map_some]
  · funext k
    by_cases hk : k < count.toNat
    · rw [if_pos hk, hin k (hrequest.symm ▸ hk), haligned _ (by omega) trivial, h.content]
      congr 1
      omega
    · rw [if_neg hk, hout k (hrequest.symm ▸ Nat.not_lt.mp hk)]

/-- The driver's write, as `dev_write` calls it. -/
theorem dWrite_file (hboard : CarriesCard board ready part put) (hready : ready s)
    (h : Holds vnode (part s) file) {count : UInt32} (haccess : file.Accessible count)
    (ptr : Nat → UInt8) :
    ∃ card : Card, Ends (fun fuel => dWrite board fuel vnode ⟨ptr, count.toInt32, .write⟩ s)
        (0, ⟨ptr, 0, .write⟩, put s card) ∧ card.input = .command [] ∧
      card.content = fun a =>
        if file.position ≤ a ∧ a < file.position + count.toNat then ptr (a - file.position)
        else file.bytes a := by
  obtain ⟨_, hrequest, hoffset, hresid, hfits⟩ := h.request haccess ptr .write
  have haligned := h.aligned haccess
    fun j => ¬ Requested vnode.offset ⟨ptr, count.toInt32, .write⟩ j
  obtain ⟨_, bound, hrun, _⟩ :=
    mmcSpiWrite_card h.idle hoffset hresid hfits rfl (board.stack s) haligned.1
  obtain ⟨fuel, uio, card, hwrite, hbytes⟩ :=
    (stores_iff h.idle hoffset hresid hfits rfl (board.stack s)).mpr haligned
  have hidle := mmcSpiWrite_idle h.idle rfl (not_crossesSector hoffset hresid hfits) _ haligned.1
    hwrite
  have huio : uio = ⟨ptr, 0, .write⟩ := by
    rw [hrun fuel] at hwrite
    split at hwrite
    · cases hwrite
      rfl
    · cases hwrite
  subst huio
  refine ⟨card, ⟨fuel, ?_⟩, hidle, ?_⟩
  · simp only [dWrite, h.device, h.info, hboard.write s hready h.idle]
    rw [hwrite, Option.map_some]
  · have hposition : vnode.offset.toInt.toNat = file.position := by
      rw [h.offset, Int.toNat_natCast]
    funext a
    rw [hbytes a, hrequest, hposition, h.content]

/-- One call does what the file does. -/
theorem fileCall_holds (hboard : CarriesCard board ready part put) (hready : ready s)
    (h : Holds vnode (part s) file) {op : FileOp} (hallowed : file.Allowed op) :
    ∃ vnode' t, Ends (fun fuel => fileCall board fuel op vnode s)
        ((file.call op).1, vnode', t) ∧ ready t ∧ Holds vnode' (part t) (file.call op).2 := by
  have hzero : (0 : Int32).toUInt32 = 0 := rfl
  cases op with
  | seek offset whence =>
      obtain ⟨hresult, hholds⟩ := seek_file h hallowed
      refine ⟨_, s, ends_some.mpr ?_, hready, hholds⟩
      have hanswer : (file.call (.seek offset whence)).1 =
          ⟨(file.call (.seek offset whence)).1.result, none⟩ := by
        cases whence <;> simp only [ByteFile.call, ByteFile.goTo] <;> split_ifs <;> rfl
      rw [hanswer, hresult]
  | read ptr count =>
      obtain ⟨hcount, _⟩ := h.request hallowed ptr .read
      obtain ⟨base, output, hdriver, hbase⟩ := dRead_file hboard hready h hallowed ptr
      by_cases hpos : 0 < count.toInt32
      · have hread := devRead_once hpos hdriver rfl
        refine ⟨vnode, put s ((part s).sending output), ends_map.mpr ⟨_, hread, ?_⟩,
          hboard.ready_put s _ hready, ?_⟩
        · simp only [count_toInt hcount, hbase]
          rfl
        · rw [hboard.card_put]
          exact ⟨h.device, h.info, h.offset, h.idle, h.content⟩
      · have hnone : count.toNat = 0 := by
          rw [Int32.lt_iff_toInt_lt, count_toInt hcount] at hpos
          change ¬ (0 : Int) < _ at hpos
          omega
        refine ⟨vnode, s, ends_map.mpr ⟨_, devRead_none hpos, ?_⟩, hready, h⟩
        simp only [ByteFile.call, hnone, Nat.not_lt_zero, if_false]
        rfl
  | write ptr count =>
      obtain ⟨hcount, _⟩ := h.request hallowed ptr .write
      obtain ⟨card, hdriver, hidle, hcontent⟩ := dWrite_file hboard hready h hallowed ptr
      refine ⟨vnode, put s card, ends_map.mpr ⟨_, ends_map.mpr ⟨_, hdriver, rfl⟩, ?_⟩,
        hboard.ready_put s _ hready, ?_⟩
      · simp only [hzero, UInt32.sub_zero, count_toInt hcount]
        rfl
      · rw [hboard.card_put]
        exact ⟨h.device, h.info, h.offset, hidle, hcontent⟩

/-- Calls in any order, as long as each is allowed when it is made. -/
theorem fileCalls_hold (hboard : CarriesCard board ready part put) (ops : List FileOp)
    (hready : ready s) (h : Holds vnode (part s) file) (hallowed : file.AllAllowed ops) :
    ∃ vnode' t, Ends (fun fuel => fileCalls board fuel ops vnode s)
        ((file.calls ops).1, vnode', t) ∧ ready t ∧ Holds vnode' (part t) (file.calls ops).2 := by
  induction ops generalizing vnode s file with
  | nil => exact ⟨vnode, s, ends_some.mpr rfl, hready, h⟩
  | cons op ops ih =>
      obtain ⟨vnode₁, s₁, hfirst, hready₁, hholds⟩ := fileCall_holds hboard hready h hallowed.1
      obtain ⟨vnode₂, s₂, hrest, hready₂, hlast⟩ := ih hready₁ hholds hallowed.2
      refine ⟨vnode₂, s₂, ?_, hready₂, hlast⟩
      apply (ends_bind (fileCall_stable board op vnode s) _).mpr
      · exact ⟨_, hfirst, ends_map.mpr ⟨_, hrest, rfl⟩⟩
      · exact fun r => (fileCalls_stable board ops _ _).map _

/-- Whatever else a card in the state does not change. -/
theorem CarriesCard.and (hboard : CarriesCard board ready part put) {Q : σ → Prop}
    (hput : ∀ s k, Q s → Q (put s k)) : CarriesCard board (fun s => ready s ∧ Q s) part put where
  card_put := hboard.card_put
  ready_put s k h := ⟨hboard.ready_put s k h.1, hput s k h.2⟩
  read s h := hboard.read s h.1
  write s h := hboard.write s h.1

theorem cardDevice_carries (board : Board Card) (hspi : board.spi = cardDevice) :
    CarriesCard board (fun _ => True) id (fun _ k => k) where
  card_put _ _ := rfl
  ready_put _ _ _ := trivial
  read s _ _ fuel offset uio junk := by
    rw [hspi]
    exact (Option.map_id' (x := mmcSpiRead cardDevice fuel _ offset uio junk s)).symm
  write s _ _ fuel offset uio junk := by
    rw [hspi]
    exact (Option.map_id' (x := mmcSpiWrite cardDevice fuel _ offset uio junk s)).symm

end Calls

/-- Any calls on the node, in any order, as long as each is allowed when it is
made: every one returns, answers as the file does, and leaves node and card
holding the file. -/
theorem card_file_calls (board : Board Card) (hspi : board.spi = cardDevice) (ops : List FileOp)
    (vnode : Vnode) (card : Card) (file : ByteFile) (h : Holds vnode card file)
    (hallowed : file.AllAllowed ops) :
    ∃ vnode' card', Ends (fun fuel => fileCalls board fuel ops vnode card)
        ((file.calls ops).1, vnode', card') ∧ Holds vnode' card' (file.calls ops).2 := by
  obtain ⟨vnode', card', hcalls, -, hholds⟩ :=
    fileCalls_hold (cardDevice_carries board hspi) ops trivial h hallowed
  exact ⟨vnode', card', hcalls, hholds⟩

/-- A board with nothing but this device on its buses. -/
def spiBoard {σ : Type*} (spi : SpiDevice σ) : Board σ where
  i2c :=
    { txfifoIsFull := fun s => (false, s)
      txfifoPutData := fun _ s => s
      rxfifoIsEmpty := fun s => (false, s)
      rxfifoGetData := fun s => (0, s)
      masterStart := fun _ _ s => s
      masterReceiveAck := id
      masterReceiveNack := id
      masterStop := id
      getStatusFlag := fun s => (3, s)
      clearStatusFlag := fun _ s => s
      ackReceived := 1
      receiveIndication := 2 }
  spi := spi
  uart := ⟨fun s => (false, s), fun _ s => s, fun s => (false, s), fun s => (0, s)⟩
  stack _ _ := 0

/-- Two bytes are written behind the start of the second sector, and read back
with the next one. -/
theorem card_file_calls_counting :
    ∃ vnode' card' memory, Ends (fun fuel => fileCalls (spiBoard cardDevice) fuel
        [.seek 514 .seekSet, .write (fun _ => 7) 2, .seek (-1) .seekCur, .read (fun _ => 0) 4]
        ⟨.mmc, 0, 0, some blockInfo⟩ (promptCard UInt8.ofNat))
        ([⟨514, none⟩, ⟨2, none⟩, ⟨513, none⟩, ⟨4, some memory⟩], vnode', card') ∧
      (List.range 4).map memory = [1, 7, 7, 4] := by
  have hholds : Holds ⟨.mmc, 0, 0, some blockInfo⟩ (promptCard UInt8.ofNat) ⟨UInt8.ofNat, 0⟩ :=
    ⟨rfl, rfl, rfl, rfl, rfl⟩
  obtain ⟨vnode', card', hcalls, _⟩ := card_file_calls (spiBoard cardDevice) rfl
    [.seek 514 .seekSet, .write (fun _ => 7) 2, .seek (-1) .seekCur, .read (fun _ => 0) 4]
    _ _ _ hholds ⟨trivial, ⟨by decide, by decide⟩, ⟨by decide, by decide⟩,
      ⟨by decide, by decide⟩, trivial⟩
  exact ⟨vnode', card', _, hcalls, rfl⟩

end PascalScheduler.Sys
