import PascalScheduler.Dev.Card

/-!
The MMC driver as a byte store. `mmc_read` takes the first byte of a block from
a loop that skips `0xFF`, so that a block which starts with `0xFF` is read from
its first other byte on. What a request then delivers, or writes back, is right
where the shifted block happens to agree with the block itself.
-/

namespace PascalScheduler

def blockInfo : MmcInfo where
  readBlockSize := 512
  writeBlockSize := 512

/-- How many bytes of an answer the polling loop skips. -/
def skipped (answer : List UInt8) : Nat :=
  (answer.takeWhile (· == 0xFF)).length

/-- The address of the sector of an offset, and the place of the offset in it. -/
def sectorAddress (offset : Int32) : UInt32 :=
  offset.toUInt32 / 512 * 512

def sectorOffset (offset : Int32) : Nat :=
  offset.toInt.toNat % 512

/-- The polling loop ends, and skips nothing that matters: behind it the bytes
of the sector that are `wanted` are where they belong. -/
def Aligned (card : Card) (address : UInt32) (wanted : Nat → Prop) : Prop :=
  (∃ b ∈ card.answer address, b ≠ 0xFF) ∧
    ∀ j, j < blockLength → wanted j →
      (card.answer address).getD (skipped (card.answer address) + j) 0xFF =
        card.content (address.toNat + j)

/-- The bytes of its sector that a request is about. -/
def Requested (offset : Int32) (uio : Uio) (j : Nat) : Prop :=
  sectorOffset offset ≤ j ∧ j < sectorOffset offset + uio.count

/-- A read returns with exactly the requested bytes of the card. -/
def Delivers (card : Card) (offset : Int32) (uio : Uio) (junk : Nat → UInt8) : Prop :=
  ∃ fuel uio' card',
    mmcSpiRead cardDevice fuel (some blockInfo) offset uio junk card = some (0, uio', card') ∧
      (∀ j, j < uio.count → uio'.base j = card.content (offset.toInt.toNat + j)) ∧
      (∀ j, uio.count ≤ j → uio'.base j = uio.base j) ∧ card'.content = card.content

/-- A write returns with exactly the requested bytes of the card replaced. -/
def Stores (card : Card) (offset : Int32) (uio : Uio) (junk : Nat → UInt8) : Prop :=
  ∃ fuel uio' card',
    mmcSpiWrite cardDevice fuel (some blockInfo) offset uio junk card = some (0, uio', card') ∧
      ∀ a, card'.content a =
        if offset.toInt.toNat ≤ a ∧ a < offset.toInt.toNat + uio.count then
          uio.base (a - offset.toInt.toNat)
        else card.content a

section Answer

/-- An answer is filler up to its first other byte, if there is one. -/
theorem answer_split (answer : List UInt8) (h : ∃ b ∈ answer, b ≠ 0xFF) :
    ∃ b rest, b ≠ 0xFF ∧ answer = Card.filler (skipped answer) ++ b :: rest := by
  induction answer with
  | nil =>
      obtain ⟨b, hb, _⟩ := h
      cases hb
  | cons a answer ih =>
      by_cases ha : a = 0xFF
      · have htail : ∃ b ∈ answer, b ≠ 0xFF := by
          obtain ⟨b, hb, hne⟩ := h
          rcases List.mem_cons.mp hb with rfl | hmem
          · exact absurd ha hne
          · exact ⟨b, hmem, hne⟩
        obtain ⟨b, rest, hb, heq⟩ := ih htail
        refine ⟨b, rest, hb, ?_⟩
        have hskip : skipped (a :: answer) = skipped answer + 1 := by
          simp [skipped, ha]
        rw [hskip, Card.filler, List.replicate_succ, List.cons_append, ha]
        exact congrArg _ heq
      · refine ⟨a, answer, ha, ?_⟩
        have hskip : skipped (a :: answer) = 0 := by
          simp [skipped, ha]
        rw [hskip]
        rfl

theorem answer_filler (answer : List UInt8) (h : ¬ ∃ b ∈ answer, b ≠ 0xFF) :
    answer = Card.filler answer.length := by
  rw [Card.filler, List.eq_replicate_iff]
  refine ⟨rfl, ?_⟩
  intro b hb
  by_contra hne
  exact h ⟨b, hb, hne⟩

end Answer

section Sector

variable {card : Card} {sector : Int32} {address : UInt32}

theorem execute_read (hready : card.input = .command []) (address : UInt32) :
    card.execute mmcCmd17 address =
      card.sending (Card.filler (card.statusDelay mmcCmd17 address) ++
        0 :: (Card.filler (card.tokenDelay address) ++ 0xFE :: card.answer address)) := by
  rw [Card.execute, if_pos rfl, Card.sending, ← hready]
  simp

theorem filler_getD (n j : Nat) (rest : List UInt8) :
    (Card.filler n ++ rest).getD (n + j) 0xFF = rest.getD j 0xFF := by
  rw [Card.filler, List.getD_eq_getElem?_getD, List.getElem?_append_right (by simp),
    List.length_replicate, Nat.add_sub_cancel_left, List.getD_eq_getElem?_getD]

/-- A block is read from the first byte that is not `0xFF` on. -/
theorem mmcRead_card (hwaits : card.Waits) (junk : Nat → UInt8) (n : Nat) {b : UInt8}
    (hb : b ≠ 0xFF) (rest : List UInt8) :
    ∃ buf output,
      (∀ j, j < blockLength →
        buf j = (Card.filler n ++ b :: rest).getD (n + j) 0xFF) ∧
      ∀ fuel, mmcRead cardDevice fuel junk 512 (card.sending (Card.filler n ++ b :: rest)) =
        if n < fuel then some (buf, card.sending output) else none := by
  obtain ⟨hcard, hbuf⟩ := devRead_card hwaits 511 1 (Function.update junk 0 b) rest
  refine ⟨(devRead cardDevice 511 1 (Function.update junk 0 b) (card.sending rest)).1,
    rest.drop 511, ?_, ?_⟩
  · intro j hj
    rw [blockLength] at hj
    rw [hbuf j, filler_getD]
    cases j with
    | zero => rfl
    | succ j =>
        rw [if_pos (by omega)]
        rfl
  · intro fuel
    rw [mmcRead, mmcSpiWaitUnbusy, pollByte_card hwaits fuel n hb rest]
    by_cases hn : n < fuel
    · rw [if_pos hn, if_pos hn, Option.map_some, ← hcard]
    · rw [if_neg hn, if_neg hn, Option.map_none]

/-- The command, the status and the start token of a read. -/
theorem mmcReadSector_block (hready : card.input = .command [])
    (haddress : sector.toUInt32 * 512 = address) (junk : Nat → UInt8) (fuel : Nat) :
    mmcReadSector cardDevice fuel blockInfo junk sector card =
      if card.statusDelay mmcCmd17 address < fuel ∧ card.tokenDelay address < fuel then
        (mmcRead cardDevice fuel junk 512 (card.sending (card.answer address))).map
          fun block => (mmcOk, block.1, block.2)
      else none := by
  have hwaits : card.Waits := .inl hready
  have hsend : mmcSendCmd cardDevice mmcCmd17 address card = _ :=
    (mmcSendCmd_card hready (by decide)).trans (execute_read hready address)
  have hstatus := pollByte_card hwaits fuel (card.statusDelay mmcCmd17 address) (b := 0)
    (by decide) (Card.filler (card.tokenDelay address) ++ 0xFE :: card.answer address)
  have hstart := waitStartBlock_card hwaits fuel (card.tokenDelay address) (card.answer address)
  have hok : mmcOk ≠ mmcError := by decide
  rw [mmcReadSector]
  change (mmcSpiReadStatus cardDevice fuel
    (mmcSendCmd cardDevice mmcCmd17 (sector.toUInt32 * 512) card)).bind _ = _
  rw [haddress, hsend, mmcSpiReadStatus, hstatus]
  by_cases h₁ : card.statusDelay mmcCmd17 address < fuel
  · rw [if_pos h₁, Option.bind_some, if_neg (by simp), hstart]
    by_cases h₂ : card.tokenDelay address < fuel
    · rw [if_pos h₂, Option.bind_some, if_neg hok, if_pos ⟨h₁, h₂⟩]
      rfl
    · rw [if_neg h₂, Option.bind_none, if_neg (fun h => h₂ h.2)]
  · rw [if_neg h₁, Option.bind_none, if_neg (fun h => h₁ h.1)]

/-- Reading a sector never ends when its answer is all `0xFF`. -/
theorem mmcReadSector_stuck (hready : card.input = .command [])
    (haddress : sector.toUInt32 * 512 = address) (junk : Nat → UInt8)
    (hall : ¬ ∃ b ∈ card.answer address, b ≠ 0xFF) (fuel : Nat) :
    mmcReadSector cardDevice fuel blockInfo junk sector card = none := by
  rw [mmcReadSector_block hready haddress, answer_filler _ hall, mmcRead, mmcSpiWaitUnbusy,
    pollByte_filler (.inl hready)]
  split_ifs <;> rfl

/-- Otherwise the buffer receives the answer from its first other byte on. -/
theorem mmcReadSector_card (hready : card.input = .command [])
    (haddress : sector.toUInt32 * 512 = address) (junk : Nat → UInt8)
    (hsome : ∃ b ∈ card.answer address, b ≠ 0xFF) :
    ∃ buf output bound,
      (∀ j, j < blockLength →
        buf j = (card.answer address).getD (skipped (card.answer address) + j) 0xFF) ∧
      ∀ fuel, mmcReadSector cardDevice fuel blockInfo junk sector card =
        if bound < fuel then some (mmcOk, buf, card.sending output) else none := by
  obtain ⟨b, rest, hb, heq⟩ := answer_split (card.answer address) hsome
  obtain ⟨buf, output, hbuf, hread⟩ :=
    mmcRead_card (.inl hready) junk (skipped (card.answer address)) hb rest
  rw [← heq] at hbuf hread
  refine ⟨buf, output, max (max (card.statusDelay mmcCmd17 address) (card.tokenDelay address))
    (skipped (card.answer address)), hbuf, ?_⟩
  intro fuel
  rw [mmcReadSector_block hready haddress, hread]
  simp only [max_lt_iff]
  by_cases h₁ : card.statusDelay mmcCmd17 address < fuel ∧ card.tokenDelay address < fuel
  · rw [if_pos h₁]
    by_cases h₂ : skipped (card.answer address) < fuel
    · rw [if_pos h₂, if_pos ⟨h₁, h₂⟩, Option.map_some]
    · rw [if_neg h₂, if_neg (fun h => h₂ h.2), Option.map_none]
  · rw [if_neg h₁, if_neg (fun h => h₁ h.1)]

/-- The start token of a write, sent to a card that waits for it. -/
theorem mmcSend_token (hinput : card.input = .token address) :
    mmcSend cardDevice (arrayOf [0xFF, 0xFE]) 2 (card.sending []) =
      { card with output := [], input := .block address [] } := by
  obtain ⟨content, statusDelay, tokenDelay, crc, output, input⟩ := card
  obtain rfl : input = .token address := hinput
  rfl

/-- A block of data, sent to a card that collects one. -/
theorem mmcSend_block (hinput : card.input = .block address []) (buf : Nat → UInt8) (a : Nat) :
    (mmcSend cardDevice buf 512 card).content a =
      if address.toNat ≤ a ∧ a < address.toNat + blockLength then buf (a - address.toNat)
      else card.content a := by
  rw [mmcSend, devWrite_block buf address 511 0 [] rfl hinput, List.nil_append]
  exact store_content card address buf 512 a

/-- Writing a sector stores the buffer. -/
theorem mmcWriteSector_card (hready : card.input = .command [])
    (haddress : sector.toUInt32 * 512 = address) (buf : Nat → UInt8) :
    ∃ card' : Card, (∀ fuel, mmcWriteSector cardDevice fuel blockInfo buf sector card =
        if card.statusDelay mmcCmd24 address < fuel then some (mmcOk, card') else none) ∧
      ∀ a, card'.content a =
        if address.toNat ≤ a ∧ a < address.toNat + blockLength then buf (a - address.toNat)
        else card.content a := by
  let waiting : Card := { card with input := .token address }
  let collecting : Card := { card with output := [], input := .block address [] }
  have hsend : mmcSendCmd cardDevice mmcCmd24 address card =
      waiting.sending (Card.filler (card.statusDelay mmcCmd24 address) ++ 0 :: []) :=
    mmcSendCmd_card hready (by decide)
  have htoken : mmcSend cardDevice (arrayOf [0xFF, 0xFE]) 2 (waiting.sending []) = collecting :=
    mmcSend_token rfl
  refine ⟨mmcSend cardDevice buf 512 collecting, ?_, mmcSend_block rfl buf⟩
  intro fuel
  have hstatus := pollByte_card (.inr ⟨address, rfl⟩ : waiting.Waits) fuel
    (card.statusDelay mmcCmd24 address) (b := 0) (by decide) []
  rw [mmcWriteSector]
  change (mmcSpiReadStatus cardDevice fuel
    (mmcSendCmd cardDevice mmcCmd24 (sector.toUInt32 * 512) card)).map _ = _
  rw [haddress, hsend, mmcSpiReadStatus, hstatus]
  by_cases h : card.statusDelay mmcCmd24 address < fuel
  · rw [if_pos h, if_pos h, Option.map_some, if_neg (by simp), htoken]
    rfl
  · rw [if_neg h, if_neg h, Option.map_none]

end Sector

section Transfer

variable {card : Card} {offset : Int32} {uio : Uio}

theorem offset_toNat (hoffset : 0 ≤ offset.toInt) :
    offset.toUInt32.toNat = offset.toInt.toNat :=
  Int32.toNat_toUInt32_of_le (Int32.le_iff_toInt_le.mpr hoffset)

theorem sectorOffset_eq (hoffset : 0 ≤ offset.toInt) :
    (offset.toUInt32 % 512).toNat = sectorOffset offset := by
  rw [UInt32.toNat_mod, offset_toNat hoffset]
  rfl

/-- An offset is a place in the sector that the driver addresses. -/
theorem sectorAddress_add (hoffset : 0 ≤ offset.toInt) :
    (sectorAddress offset).toNat + sectorOffset offset = offset.toInt.toNat := by
  have hlt := offset.toUInt32.toNat_lt
  rw [sectorAddress, UInt32.toNat_mul, UInt32.toNat_div, offset_toNat hoffset, sectorOffset]
  rw [offset_toNat hoffset] at hlt
  change offset.toInt.toNat / 512 * 512 % 2 ^ 32 + offset.toInt.toNat % 512 = _
  omega

theorem sector_address (offset : Int32) :
    (offset.toUInt32 / 512).toInt32.toUInt32 * 512 = sectorAddress offset := rfl

theorem not_crossesSector (hoffset : 0 ≤ offset.toInt) (hresid : 0 ≤ uio.resid.toInt)
    (hfits : sectorOffset offset + uio.count ≤ blockLength) :
    ¬ crossesSector blockInfo offset uio := by
  have hcount := offset_toNat hresid
  have hplace := sectorOffset_eq hoffset
  rw [Uio.count, blockLength] at hfits
  change ¬ uio.resid.toUInt32 + offset.toUInt32 % 512 > 512
  rw [gt_iff_lt, UInt32.not_lt, UInt32.le_iff_toNat_le, UInt32.toNat_add, hcount, hplace,
    Nat.mod_eq_of_lt (by omega)]
  change _ ≤ 512
  omega

theorem blockInfo_divides : ¬ blockInfo.readBlockSize = 0 := by
  decide

/-- The buffer holds a block of the card. -/
theorem blockInfo_fits : ¬ maxBlockLength < blockInfo.readBlockSize.toNat ∧
    ¬ maxBlockLength < blockInfo.writeBlockSize.toNat := by
  decide

/-- A read is the reading of its sector, then a copy. -/
theorem mmcSpiRead_sector (card : Card) (hrw : uio.rw = .read)
    (hfits : ¬ crossesSector blockInfo offset uio) (junk : Nat → UInt8) (fuel : Nat) :
    mmcSpiRead cardDevice fuel (some blockInfo) offset uio junk card =
      (mmcReadSector cardDevice fuel blockInfo junk (offset.toUInt32 / 512).toInt32 card).map
        fun sector =>
          if sector.1 ≠ mmcOk then (-1, uio, sector.2.2)
          else
            (0, { drained uio with
              base := copyBytes sector.2.1 uio.count (offset.toUInt32 % 512).toNat 0 uio.base },
              sector.2.2) := by
  simp only [mmcSpiRead, hrw, ne_eq, not_true_eq_false, if_false, if_neg hfits,
    if_neg blockInfo_divides, if_neg blockInfo_fits.1, Option.map_eq_bind]
  congr 1
  funext sector
  simp only [Function.comp_apply]
  split_ifs <;> rfl

/-- A write is the reading of its sector, a copy, and the writing of it. -/
theorem mmcSpiWrite_sector (card : Card) (hrw : uio.rw = .write)
    (hfits : ¬ crossesSector blockInfo offset uio) (junk : Nat → UInt8) (fuel : Nat) :
    mmcSpiWrite cardDevice fuel (some blockInfo) offset uio junk card =
      (mmcReadSector cardDevice fuel blockInfo junk (offset.toUInt32 / 512).toInt32 card).bind
        fun sector =>
          if sector.1 ≠ mmcOk then some (-1, uio, sector.2.2)
          else
            (mmcWriteSector cardDevice fuel blockInfo
              (copyBytes uio.base uio.count 0 (offset.toUInt32 % 512).toNat sector.2.1)
              (offset.toUInt32 / 512).toInt32 sector.2.2).map fun written =>
                if written.1 ≠ mmcOk then (-1, drained uio, written.2)
                else (0, drained uio, written.2) := by
  simp only [mmcSpiWrite, hrw, ne_eq, not_true_eq_false, if_false, if_neg hfits,
    if_neg blockInfo_divides, if_neg blockInfo_fits.1, if_neg blockInfo_fits.2,
    Option.map_eq_bind]
  congr 1
  funext sector
  split_ifs
  · congr 1
    funext written
    simp only [Function.comp_apply]
    split_ifs <;> rfl
  · rfl

/-- A read returns with the requested part of the shifted sector. -/
theorem mmcSpiRead_card (hready : card.input = .command []) (hoffset : 0 ≤ offset.toInt)
    (hresid : 0 ≤ uio.resid.toInt) (hfits : sectorOffset offset + uio.count ≤ blockLength)
    (hrw : uio.rw = .read) (junk : Nat → UInt8)
    (hsome : ∃ b ∈ card.answer (sectorAddress offset), b ≠ 0xFF) :
    ∃ base output bound,
      (∀ fuel, mmcSpiRead cardDevice fuel (some blockInfo) offset uio junk card =
        if bound < fuel then some (0, { uio with base := base, resid := 0 }, card.sending output)
        else none) ∧
      (∀ k, k < uio.count → base k = (card.answer (sectorAddress offset)).getD
        (skipped (card.answer (sectorAddress offset)) + (sectorOffset offset + k)) 0xFF) ∧
      ∀ k, uio.count ≤ k → base k = uio.base k := by
  obtain ⟨buf, output, bound, hbuf, hsector⟩ :=
    mmcReadSector_card hready (sector_address offset) junk hsome
  refine ⟨copyBytes buf uio.count (sectorOffset offset) 0 uio.base, output, bound, ?_, ?_, ?_⟩
  · intro fuel
    rw [mmcSpiRead_sector card hrw (not_crossesSector hoffset hresid hfits), hsector,
      sectorOffset_eq hoffset, drained_of_nonneg hresid]
    split_ifs <;> rfl
  · intro k hk
    have hin := copyBytes_in buf uio.count (sectorOffset offset) 0 uio.base hk
    rw [Nat.zero_add] at hin
    rw [hin]
    apply hbuf
    omega
  · intro k hk
    exact copyBytes_out _ _ _ _ _ (by omega)

/-- The requested bytes are the card's where the answer is aligned. -/
theorem delivers_iff (hready : card.input = .command []) (hoffset : 0 ≤ offset.toInt)
    (hresid : 0 ≤ uio.resid.toInt) (hfits : sectorOffset offset + uio.count ≤ blockLength)
    (hrw : uio.rw = .read) (junk : Nat → UInt8) :
    Delivers card offset uio junk ↔
      Aligned card (sectorAddress offset) (Requested offset uio) := by
  have haddress := sectorAddress_add hoffset
  by_cases hsome : ∃ b ∈ card.answer (sectorAddress offset), b ≠ 0xFF
  · obtain ⟨base, output, bound, hrun, hin, hout⟩ :=
      mmcSpiRead_card hready hoffset hresid hfits hrw junk hsome
    constructor
    · rintro ⟨fuel, uio', card', heq, hbytes, -, -⟩
      rw [hrun fuel, Option.ite_none_right_eq_some, Option.some.injEq, Prod.mk.injEq,
        Prod.mk.injEq] at heq
      obtain ⟨-, -, rfl, -⟩ := heq
      refine ⟨hsome, ?_⟩
      rintro j hj ⟨hle, hlt⟩
      obtain ⟨k, rfl⟩ := Nat.exists_eq_add_of_le hle
      rw [← hin k (by omega), ← Nat.add_assoc, haddress]
      exact hbytes k (by omega)
    · rintro ⟨-, haligned⟩
      refine ⟨bound + 1, _, _, (hrun _).trans (if_pos (Nat.lt_succ_self _)), ?_, hout, rfl⟩
      intro k hk
      have hget := haligned (sectorOffset offset + k) (by omega) ⟨by omega, by omega⟩
      rw [← hin k hk, ← Nat.add_assoc, haddress] at hget
      exact hget
  · refine iff_of_false ?_ (fun h => hsome h.1)
    rintro ⟨fuel, uio', card', heq, -⟩
    rw [mmcSpiRead_sector card hrw (not_crossesSector hoffset hresid hfits),
      mmcReadSector_stuck hready (sector_address offset) junk hsome, Option.map_none] at heq
    cases heq

/-- A write returns with the shifted sector stored, but for the bytes of the
request. -/
theorem mmcSpiWrite_card (hready : card.input = .command []) (hoffset : 0 ≤ offset.toInt)
    (hresid : 0 ≤ uio.resid.toInt) (hfits : sectorOffset offset + uio.count ≤ blockLength)
    (hrw : uio.rw = .write) (junk : Nat → UInt8)
    (hsome : ∃ b ∈ card.answer (sectorAddress offset), b ≠ 0xFF) :
    ∃ (card' : Card) (bound : Nat),
      (∀ fuel, mmcSpiWrite cardDevice fuel (some blockInfo) offset uio junk card =
        if bound < fuel then some (0, { uio with resid := 0 }, card') else none) ∧
      (∀ k, k < uio.count → card'.content (offset.toInt.toNat + k) = uio.base k) ∧
      (∀ j, j < blockLength → ¬ Requested offset uio j →
        card'.content ((sectorAddress offset).toNat + j) =
          (card.answer (sectorAddress offset)).getD
            (skipped (card.answer (sectorAddress offset)) + j) 0xFF) ∧
      ∀ a, a < (sectorAddress offset).toNat ∨ (sectorAddress offset).toNat + blockLength ≤ a →
        card'.content a = card.content a := by
  have haddress := sectorAddress_add hoffset
  obtain ⟨buf, output, bound, hbuf, hsector⟩ :=
    mmcReadSector_card hready (sector_address offset) junk hsome
  obtain ⟨card', hwrite, hcontent⟩ := mmcWriteSector_card
    (show (card.sending output).input = .command [] from hready) (sector_address offset)
    (copyBytes uio.base uio.count 0 (sectorOffset offset) buf)
  refine ⟨card', max bound (card.statusDelay mmcCmd24 (sectorAddress offset)), ?_, ?_, ?_, ?_⟩
  · intro fuel
    rw [mmcSpiWrite_sector card hrw (not_crossesSector hoffset hresid hfits), hsector,
      sectorOffset_eq hoffset, drained_of_nonneg hresid]
    simp only [max_lt_iff]
    by_cases h₁ : bound < fuel
    · rw [if_pos h₁, Option.bind_some, if_neg (by simp), hwrite, Card.sending_statusDelay]
      by_cases h₂ : card.statusDelay mmcCmd24 (sectorAddress offset) < fuel
      · rw [if_pos h₂, if_pos ⟨h₁, h₂⟩]
        rfl
      · rw [if_neg h₂, if_neg (fun h => h₂ h.2), Option.map_none]
    · rw [if_neg h₁, if_neg (fun h => h₁ h.1), Option.bind_none]
  · intro k hk
    have hin := copyBytes_in uio.base uio.count 0 (sectorOffset offset) buf hk
    rw [Nat.zero_add] at hin
    rw [hcontent, if_pos (by omega), ← hin]
    congr 1
    omega
  · intro j hj hout
    rw [Requested] at hout
    rw [hcontent, if_pos (by omega), Nat.add_sub_cancel_left,
      copyBytes_out _ _ _ _ _ (by omega)]
    exact hbuf j hj
  · intro a ha
    exact (hcontent a).trans (if_neg (by omega))

/-- The bytes around the request survive where the answer is aligned. -/
theorem stores_iff (hready : card.input = .command []) (hoffset : 0 ≤ offset.toInt)
    (hresid : 0 ≤ uio.resid.toInt) (hfits : sectorOffset offset + uio.count ≤ blockLength)
    (hrw : uio.rw = .write) (junk : Nat → UInt8) :
    Stores card offset uio junk ↔
      Aligned card (sectorAddress offset) (fun j => ¬ Requested offset uio j) := by
  have haddress := sectorAddress_add hoffset
  by_cases hsome : ∃ b ∈ card.answer (sectorAddress offset), b ≠ 0xFF
  · obtain ⟨stored, bound, hrun, hnew, hkept, houtside⟩ :=
      mmcSpiWrite_card hready hoffset hresid hfits hrw junk hsome
    constructor
    · rintro ⟨fuel, uio', card', heq, hbytes⟩
      rw [hrun fuel, Option.ite_none_right_eq_some, Option.some.injEq, Prod.mk.injEq,
        Prod.mk.injEq] at heq
      obtain ⟨-, -, -, rfl⟩ := heq
      refine ⟨hsome, ?_⟩
      intro j hj hout
      have hbyte := hbytes ((sectorAddress offset).toNat + j)
      rw [hkept j hj hout, if_neg (fun h => hout ⟨by omega, by omega⟩)] at hbyte
      exact hbyte
    · rintro ⟨-, haligned⟩
      refine ⟨bound + 1, _, _, (hrun _).trans (if_pos (Nat.lt_succ_self _)), ?_⟩
      intro a
      by_cases hin : offset.toInt.toNat ≤ a ∧ a < offset.toInt.toNat + uio.count
      · obtain ⟨k, rfl⟩ := Nat.exists_eq_add_of_le hin.1
        rw [if_pos hin, Nat.add_sub_cancel_left]
        exact hnew k (by omega)
      · rw [if_neg hin]
        by_cases hsec : (sectorAddress offset).toNat ≤ a ∧
            a < (sectorAddress offset).toNat + blockLength
        · obtain ⟨j, rfl⟩ := Nat.exists_eq_add_of_le hsec.1
          have hout : ¬ Requested offset uio j := by
            rintro ⟨hle, hlt⟩
            omega
          exact (hkept j (by omega) hout).trans (haligned j (by omega) hout)
        · exact houtside a (by omega)
  · refine iff_of_false ?_ (fun h => hsome h.1)
    rintro ⟨fuel, uio', card', heq, -⟩
    rw [mmcSpiWrite_sector card hrw (not_crossesSector hoffset hresid hfits),
      mmcReadSector_stuck hready (sector_address offset) junk hsome, Option.bind_none] at heq
    cases heq

/-- The driver is a byte store for exactly the requests that the skipping of
`0xFF` does no harm to: a read delivers the bytes of the card if and only if the
requested bytes are aligned, a write replaces just them if and only if the
others of the sector are. -/
theorem mmc_byte_store_iff (card : Card) (offset : Int32) (uio : Uio) (junk : Nat → UInt8)
    (hready : card.input = .command []) (hoffset : 0 ≤ offset.toInt)
    (hresid : 0 ≤ uio.resid.toInt) (hfits : sectorOffset offset + uio.count ≤ blockLength) :
    (uio.rw = .read →
      (Delivers card offset uio junk ↔
        Aligned card (sectorAddress offset) (Requested offset uio))) ∧
    (uio.rw = .write →
      (Stores card offset uio junk ↔
        Aligned card (sectorAddress offset) fun j => ¬ Requested offset uio j)) := by
  constructor
  · intro hrw
    exact delivers_iff hready hoffset hresid hfits hrw junk
  · intro hrw
    exact stores_iff hready hoffset hresid hfits hrw junk

end Transfer

section Contents

variable {card : Card} {address : UInt32}

theorem answer_getD (j : Nat) (hj : j < blockLength) :
    (card.answer address).getD j 0xFF = card.content (address.toNat + j) := by
  have hlength : j < (card.sectorData address).length := by
    rwa [Card.sectorData, List.length_map, List.length_range]
  rw [Card.answer, List.getD_eq_getElem?_getD, List.getElem?_append_left hlength,
    Card.sectorData, List.getElem?_map, List.getElem?_range hj]
  rfl

theorem answer_cons :
    ∃ rest, card.answer address = card.content address.toNat :: rest := by
  have hrange : List.range blockLength = 0 :: (List.range 511).map Nat.succ :=
    List.range_succ_eq_map
  rw [Card.answer, Card.sectorData, hrange, List.map_cons, List.cons_append, Nat.add_zero]
  exact ⟨_, rfl⟩

/-- A sector that does not start with `0xFF` is never harmed. -/
theorem aligned_of_first (hfirst : card.content address.toNat ≠ 0xFF) (wanted : Nat → Prop) :
    Aligned card address wanted := by
  obtain ⟨rest, hanswer⟩ := @answer_cons card address
  have hskip : skipped (card.answer address) = 0 := by
    rw [hanswer]
    simp [skipped, hfirst]
  constructor
  · exact ⟨_, hanswer ▸ List.mem_cons_self, hfirst⟩
  · intro j hj _
    rw [hskip, Nat.zero_add]
    exact answer_getD j hj

/-- A sector that starts with `0xFF` and goes on otherwise is shifted by one. -/
theorem not_aligned_of_second (hfirst : card.content address.toNat = 0xFF)
    (hsecond : card.content (address.toNat + 1) ≠ 0xFF) {wanted : Nat → Prop}
    (hwanted : wanted 0) : ¬ Aligned card address wanted := by
  rintro ⟨-, haligned⟩
  have hlate : (card.answer address).getD 1 0xFF ≠ 0xFF := by
    rwa [answer_getD 1 (by decide)]
  have hskip : skipped (card.answer address) = 1 := by
    obtain ⟨rest, hanswer⟩ := @answer_cons card address
    rw [hanswer] at hlate ⊢
    cases rest with
    | nil => exact absurd rfl hlate
    | cons b rest =>
        have hb : b ≠ 0xFF := hlate
        simp [skipped, hfirst, hb]
  have hbyte := haligned 0 (by decide) hwanted
  rw [hskip, Nat.add_zero, Nat.add_zero, hfirst] at hbyte
  exact hlate hbyte

end Contents

/-- An idle card that answers without delay. -/
def promptCard (content : Nat → UInt8) : Card where
  content := content
  statusDelay _ _ := 0
  tokenDelay _ := 0
  crc _ := (0, 0)
  output := []
  input := .command []

/-- A request of `n` bytes with a buffer of zeros. -/
def request (rw : UioRw) (n : Int32) : Uio where
  base _ := 0
  resid := n
  rw := rw

/-- The first byte of a sector `FF 00 00 …` is not what a read of it delivers. -/
theorem mmc_byte_store_fails :
    ¬ Delivers (promptCard fun a => if a = 0 then 0xFF else 0) 0 (request .read 1) fun _ => 0 := by
  rw [delivers_iff rfl (by decide) (by decide) (by decide) rfl]
  exact not_aligned_of_second rfl (by decide) ⟨by decide, by decide⟩

/-- With `a mod 256` at the address `a` every sector starts with 0. -/
theorem mmc_byte_store_iff_counting :
    Delivers (promptCard UInt8.ofNat) 515 (request .read 2) (fun _ => 0) ∧
      Stores (promptCard UInt8.ofNat) 515 (request .write 2) fun _ => 0 := by
  have hread := mmc_byte_store_iff (promptCard UInt8.ofNat) 515 (request .read 2) (fun _ => 0)
    rfl (by decide) (by decide) (by decide)
  have hwrite := mmc_byte_store_iff (promptCard UInt8.ofNat) 515 (request .write 2) (fun _ => 0)
    rfl (by decide) (by decide) (by decide)
  have hfirst : (promptCard UInt8.ofNat).content (sectorAddress 515).toNat ≠ 0xFF := by
    decide
  exact ⟨(hread.1 rfl).mpr (aligned_of_first hfirst _),
    (hwrite.2 rfl).mpr (aligned_of_first hfirst _)⟩

end PascalScheduler
