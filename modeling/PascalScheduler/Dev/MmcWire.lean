import PascalScheduler.Dev.Card
import PascalScheduler.Dev.MmcTransfers

/-!
What the MMC driver puts on the wire. A tapped device keeps a log of the bytes
it is sent; one lemma for each driver function gives the shape of the log, and
with it the commands and their arguments.
-/

namespace PascalScheduler

section Tap

variable {σ : Type*}

/-- A device with a log of the bytes it is sent. -/
def tap (dev : SpiDevice σ) : SpiDevice (σ × List UInt8) where
  exchange b p := ((dev.exchange b p.1).1, (dev.exchange b p.1).2, p.2 ++ [b])

/-- A tapped stream is a stream. -/
theorem tap_streams (bytes : Nat → UInt8) :
    Streams (tap (streamDevice bytes)) bytes Prod.fst where
  answer _ _ := rfl
  next _ _ := rfl

/-- The bytes of one command on the wire. -/
def commandBytes (cmd : UInt8) (arg : UInt32) : List UInt8 :=
  0xFF :: commandFrame cmd arg ++ [mmcCrc7 (commandFrame cmd arg)]

variable {dev : SpiDevice σ} {p : σ × List UInt8}

theorem devWrite_tap (buf : Nat → UInt8) (size i : Nat) (p : σ × List UInt8) :
    (devWrite (tap dev) buf size i p).2 = p.2 ++ (List.range' i size).map buf := by
  induction size generalizing i p with
  | zero => simp [devWrite]
  | succ size ih =>
      rw [devWrite, ih, usicSpiSend, tap, List.range'_succ, List.map_cons, List.append_assoc,
        List.singleton_append]

theorem mmcSend_tap (buf : Nat → UInt8) (size : Nat) (p : σ × List UInt8) :
    (mmcSend (tap dev) buf size p).2 = p.2 ++ (List.range size).map buf := by
  rw [mmcSend, devWrite_tap, List.range_eq_range']

theorem mmcSendCmd_tap (cmd : UInt8) (arg : UInt32) (p : σ × List UInt8) :
    (mmcSendCmd (tap dev) cmd arg p).2 = p.2 ++ commandBytes cmd arg := by
  rw [mmcSendCmd, mmcSend_tap]
  rfl

/-- Whatever is received, the wire carries ones. -/
def Fills (before after : List UInt8) : Prop :=
  ∃ n, after = before ++ Card.filler n

theorem Fills.refl (log : List UInt8) : Fills log log :=
  ⟨0, by simp [Card.filler]⟩

theorem Fills.trans {a b c : List UInt8} (h : Fills a b) (h' : Fills b c) : Fills a c := by
  obtain ⟨m, rfl⟩ := h
  obtain ⟨n, rfl⟩ := h'
  refine ⟨m + n, ?_⟩
  simp only [Card.filler, List.replicate_add, List.append_assoc]

theorem receive_fills (p : σ × List UInt8) : Fills p.2 (usicSpiReceive (tap dev) p).2.2 :=
  ⟨1, rfl⟩

theorem pollByte_fills {fuel : Nat} {r : UInt8 × σ × List UInt8}
    (h : pollByte (tap dev) fuel p = some r) : Fills p.2 r.2.2 := by
  induction fuel generalizing p with
  | zero => cases h
  | succ fuel ih =>
      rw [pollByte] at h
      split at h
      · exact (receive_fills p).trans (ih h)
      · rw [← Option.some.inj h]
        exact receive_fills p

theorem waitStartBlock_fills {ignoreStatus : UInt8} {fuel : Nat} {r : Int32 × σ × List UInt8}
    (h : mmcSpiWaitStartBlock (tap dev) ignoreStatus fuel p = some r) : Fills p.2 r.2.2 := by
  induction fuel generalizing p with
  | zero => cases h
  | succ fuel ih =>
      rw [mmcSpiWaitStartBlock] at h
      split at h
      · rw [← Option.some.inj h]
        exact receive_fills p
      · split at h
        · exact (receive_fills p).trans (ih h)
        · rw [← Option.some.inj h]
          exact receive_fills p

theorem devRead_fills (size i : Nat) (buf : Nat → UInt8) (p : σ × List UInt8) :
    Fills p.2 (devRead (tap dev) size i buf p).2.2 := by
  induction size generalizing i buf p with
  | zero => exact Fills.refl _
  | succ size ih => exact (receive_fills p).trans (ih _ _ _)

theorem mmcRead_fills {fuel size : Nat} {buf : Nat → UInt8}
    {r : (Nat → UInt8) × σ × List UInt8} (h : mmcRead (tap dev) fuel buf size p = some r) :
    Fills p.2 r.2.2 := by
  obtain ⟨first, hpoll, rfl⟩ := Option.map_eq_some_iff.mp h
  exact (pollByte_fills hpoll).trans (devRead_fills _ _ _ _)

end Tap

section Sector

variable {σ : Type*} {dev : SpiDevice σ} {p : σ × List UInt8} {fuel : Nat} {info : MmcInfo}
  {buf junk : Nat → UInt8} {sector : Int32}

/-- A sector read is one CMD17 and filler. -/
theorem mmcReadSector_wire {r : Int32 × (Nat → UInt8) × σ × List UInt8}
    (h : mmcReadSector (tap dev) fuel info buf sector p = some r) :
    Fills (p.2 ++ commandBytes mmcCmd17 (sector.toUInt32 * info.readBlockSize)) r.2.2.2 := by
  obtain ⟨status, hstatus, h⟩ := Option.bind_eq_some_iff.mp h
  have hfirst := pollByte_fills hstatus
  rw [mmcSendCmd_tap] at hfirst
  split at h
  · rw [← Option.some.inj h]
    exact hfirst
  · obtain ⟨start, hstart, h⟩ := Option.bind_eq_some_iff.mp h
    have hsecond := hfirst.trans (waitStartBlock_fills hstart)
    split at h
    · rw [← Option.some.inj h]
      exact hsecond
    · obtain ⟨block, hblock, rfl⟩ := Option.map_eq_some_iff.mp h
      exact hsecond.trans (mmcRead_fills hblock)

/-- A sector write starts with one CMD24. -/
theorem mmcWriteSector_wire {r : Int32 × σ × List UInt8}
    (h : mmcWriteSector (tap dev) fuel info buf sector p = some r) :
    ∃ rest, r.2.2 =
      p.2 ++ (commandBytes mmcCmd24 (sector.toUInt32 * info.writeBlockSize) ++ rest) := by
  obtain ⟨status, hstatus, rfl⟩ := Option.map_eq_some_iff.mp h
  obtain ⟨n, hn⟩ := pollByte_fills hstatus
  rw [mmcSendCmd_tap, List.append_assoc] at hn
  split
  · exact ⟨_, hn⟩
  · refine ⟨Card.filler n ++ ([0xFF, 0xFE] ++ (List.range info.writeBlockSize.toNat).map buf), ?_⟩
    simp only [mmcSend_tap, hn, List.append_assoc]
    rfl

end Sector

section Transfer

variable {σ : Type*} {dev : SpiDevice σ} {s : σ} {fuel : Nat} {info : MmcInfo} {offset : Int32}
  {uio : Uio} {junk : Nat → UInt8} {r : Int32 × Uio × σ × List UInt8}

/-- The arguments of CMD17 and CMD24, from the same sector number. -/
def readArgument (info : MmcInfo) (offset : Int32) : UInt32 :=
  offset.toUInt32 / info.readBlockSize * info.readBlockSize

def writeArgument (info : MmcInfo) (offset : Int32) : UInt32 :=
  offset.toUInt32 / info.readBlockSize * info.writeBlockSize

/-- An accepted read puts one command on the wire. -/
theorem mmcSpiRead_wire (haccepted : Accepted info offset uio .read)
    (h : mmcSpiRead (tap dev) fuel (some info) offset uio junk (s, []) = some r) :
    ∃ n, r.2.2.2 = commandBytes mmcCmd17 (readArgument info offset) ++ Card.filler n := by
  rw [mmcSpiRead_accepted haccepted] at h
  obtain ⟨sector, hsector, hresult⟩ := Option.bind_eq_some_iff.mp h
  rw [readResult_state hresult]
  exact mmcReadSector_wire hsector

/-- An accepted write puts the same command on the wire, and then the second
one unless the sector could not be read. -/
theorem mmcSpiWrite_wire (haccepted : Accepted info offset uio .write)
    (h : mmcSpiWrite (tap dev) fuel (some info) offset uio junk (s, []) = some r) :
    ∃ n tail, r.2.2.2 =
        commandBytes mmcCmd17 (readArgument info offset) ++ (Card.filler n ++ tail) ∧
      ((tail = [] ∧ r.1 = -1) ∨
        ∃ rest, tail = commandBytes mmcCmd24 (writeArgument info offset) ++ rest) := by
  rw [mmcSpiWrite_accepted haccepted] at h
  obtain ⟨sector, hsector, h⟩ := Option.bind_eq_some_iff.mp h
  have hfirst : Fills (commandBytes mmcCmd17 (readArgument info offset)) sector.2.2.2 :=
    mmcReadSector_wire hsector
  obtain ⟨n, hn⟩ := hfirst
  split at h
  · rw [← Option.some.inj h]
    exact ⟨n, [], by simpa using hn, .inl ⟨rfl, rfl⟩⟩
  · split at h
    · cases h
    · obtain ⟨written, hwritten, hresult⟩ := Option.bind_eq_some_iff.mp h
      obtain ⟨rest, hrest⟩ := mmcWriteSector_wire hwritten
      rw [writeResult_state hresult, hrest, hn, List.append_assoc]
      exact ⟨n, _, rfl, .inr ⟨rest, rfl⟩⟩

end Transfer

section Parse

/-- A command on the wire can be read back. -/
theorem commandBytes_inj {cmd : UInt8} {arg arg' : UInt32} {rest rest' : List UInt8}
    (h : commandBytes cmd arg ++ rest = commandBytes cmd arg' ++ rest') :
    arg = arg' ∧ rest = rest' := by
  simp only [commandBytes, commandFrame, argumentBytes, List.cons_append, List.nil_append,
    List.cons.injEq, true_and] at h
  obtain ⟨h₃, h₂, h₁, h₀, _, hrest⟩ := h
  refine ⟨?_, hrest⟩
  rw [← argument_bytes arg, ← argument_bytes arg', h₃, h₂, h₁, h₀]

/-- Behind the filler and the `0xFF` of the frame comes the command byte. -/
theorem filler_dropWhile {cmd : UInt8} (hcmd : cmd ≠ 0xFF) (arg : UInt32) (n : Nat)
    (rest : List UInt8) :
    0xFF :: (Card.filler n ++ (commandBytes cmd arg ++ rest)).dropWhile (· = 0xFF) =
      commandBytes cmd arg ++ rest := by
  induction n with
  | zero => simp [Card.filler, commandBytes, commandFrame, hcmd]
  | succ n ih => simpa [Card.filler, List.replicate_succ] using ih

/-- Filler in front of a command can be skipped in one way only. -/
theorem filler_command_inj {cmd : UInt8} (hcmd : cmd ≠ 0xFF) {arg arg' : UInt32} {m n : Nat}
    {rest rest' : List UInt8}
    (h : Card.filler m ++ (commandBytes cmd arg ++ rest) =
      Card.filler n ++ (commandBytes cmd arg' ++ rest')) : arg = arg' := by
  have hcommand : commandBytes cmd arg ++ rest = commandBytes cmd arg' ++ rest' := by
    rw [← filler_dropWhile hcmd arg m rest, h, filler_dropWhile hcmd]
  exact (commandBytes_inj hcommand).1

theorem filler_not_command {cmd : UInt8} (hcmd : cmd ≠ 0xFF) {arg : UInt32} {m n : Nat}
    {rest : List UInt8} :
    Card.filler m ≠ Card.filler n ++ (commandBytes cmd arg ++ rest) := by
  intro h
  have hmem : cmd ∈ Card.filler m := by
    rw [h]
    simp [commandBytes, commandFrame]
  exact hcmd (List.eq_of_mem_replicate hmem)

end Parse

end PascalScheduler
