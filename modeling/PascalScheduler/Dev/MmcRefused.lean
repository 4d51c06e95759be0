import PascalScheduler.Dev.MmcOpenEnds
import PascalScheduler.Dev.MmcWire

/-!
A card that failed to open. `mmc_spi_open` marks it as disabled, and the
transfers never look at the mark: what refuses a later request are the checks
that any request has to pass, against a block size that may be zero, left over
or newly decoded.
-/

namespace PascalScheduler

/-- The transfer in direction `rw` divides the offset by a block size of zero. -/
def DividesByZero (data : Option MmcInfo) (uio : Uio) (rw : UioRw) : Prop :=
  ∃ info, data = some info ∧ uio.rw = rw ∧ info.readBlockSize = 0

/-- A read returns -1 with nothing put on the wire, and does not divide by
zero. -/
def ReadRefused (data : Option MmcInfo) (offset : Int32) (uio : Uio) : Prop :=
  ¬ DividesByZero data uio .read ∧
    ∀ (σ : Type) (dev : SpiDevice σ) (fuel : Nat) (junk : Nat → UInt8) (s : σ),
      mmcSpiRead (tap dev) fuel data offset uio junk (s, []) = some (-1, uio, s, [])

def WriteRefused (data : Option MmcInfo) (offset : Int32) (uio : Uio) : Prop :=
  ¬ DividesByZero data uio .write ∧
    ∀ (σ : Type) (dev : SpiDevice σ) (fuel : Nat) (junk : Nat → UInt8) (s : σ),
      mmcSpiWrite (tap dev) fuel data offset uio junk (s, []) = some (-1, uio, s, [])

/-- The check of the range, made with a block size that is not zero, fails. -/
def RangeRefuses (data : Option MmcInfo) (offset : Int32) (uio : Uio) (rw : UioRw) : Prop :=
  ∀ info, data = some info → uio.rw = rw →
    info.readBlockSize ≠ 0 ∧ crossesSector info offset uio

variable {data : Option MmcInfo} {offset : Int32} {uio : Uio}

theorem rangeRefuses_not_divides {rw : UioRw} (h : RangeRefuses data offset uio rw) :
    ¬ DividesByZero data uio rw := by
  rintro ⟨info, hdata, hrw, hzero⟩
  exact (h info hdata hrw).1 hzero

/-- What the range does not refuse is divided by zero or accepted. -/
theorem not_rangeRefuses {rw : UioRw} (h : ¬ RangeRefuses data offset uio rw)
    (hdivides : ¬ DividesByZero data uio rw) :
    ∃ info, data = some info ∧ Accepted info offset uio rw := by
  simp only [RangeRefuses, not_forall] at h
  obtain ⟨info, hdata, hrw, hrange⟩ := h
  have hsize : info.readBlockSize ≠ 0 := fun hzero => hdivides ⟨info, hdata, hrw, hzero⟩
  exact ⟨info, hdata, hrw, hsize, fun hcrosses => hrange ⟨hsize, hcrosses⟩⟩

/-- What the range refuses, the transfer refuses. -/
theorem RangeRefuses.refused {info : MmcInfo} {rw : UioRw}
    (h : RangeRefuses (some info) offset uio rw) : Refused info offset uio rw := by
  by_cases hrw : uio.rw = rw
  · exact .inr (h info rfl hrw)
  · exact .inl hrw

theorem command_ne_nil (cmd : UInt8) (arg : UInt32) (rest : List UInt8) :
    commandBytes cmd arg ++ rest ≠ [] :=
  List.cons_ne_nil _ _

theorem readRefused_iff : ReadRefused data offset uio ↔ RangeRefuses data offset uio .read := by
  constructor
  · rintro ⟨hdivides, hrefused⟩
    by_contra hrange
    obtain ⟨info, rfl, haccepted⟩ := not_rangeRefuses hrange hdivides
    obtain ⟨n, hlog⟩ := mmcSpiRead_wire haccepted
      (hrefused Nat (streamDevice fun _ => 0) 0 (fun _ => 0) 0)
    exact command_ne_nil _ _ _ hlog.symm
  · intro hrange
    refine ⟨rangeRefuses_not_divides hrange, ?_⟩
    intro σ dev fuel junk s
    cases data with
    | none => rfl
    | some info => exact mmcSpiRead_refused hrange.refused fuel

theorem writeRefused_iff :
    WriteRefused data offset uio ↔ RangeRefuses data offset uio .write := by
  constructor
  · rintro ⟨hdivides, hrefused⟩
    by_contra hrange
    obtain ⟨info, rfl, haccepted⟩ := not_rangeRefuses hrange hdivides
    obtain ⟨n, tail, hlog, _⟩ := mmcSpiWrite_wire haccepted
      (hrefused Nat (streamDevice fun _ => 0) 0 (fun _ => 0) 0)
    exact command_ne_nil _ _ _ hlog.symm
  · intro hrange
    refine ⟨rangeRefuses_not_divides hrange, ?_⟩
    intro σ dev fuel junk s
    cases data with
    | none => rfl
    | some info => exact mmcSpiWrite_refused hrange.refused fuel

/-- After a failing `mmc_spi_open`, from any contents of `mmc_info` and on any
device, the card is marked as disabled, and a later request is refused exactly
when it is in the wrong direction or crosses the end of a block of a size other
than zero. -/
theorem mmc_disabled_refused_iff {σ : Type*} (dev : SpiDevice σ) (select : SpiSelect σ)
    (fuel : Nat) (data data' : Option MmcCard) (s t : σ)
    (hopen : mmcSpiOpen dev select fuel data s = some (-1, data', t)) (offset : Int32)
    (uio : Uio) :
    (∀ card, data' = some card → card.flags = mmcDisabled) ∧
      (ReadRefused (data'.map MmcCard.toMmcInfo) offset uio ↔
        RangeRefuses (data'.map MmcCard.toMmcInfo) offset uio .read) ∧
      (WriteRefused (data'.map MmcCard.toMmcInfo) offset uio ↔
        RangeRefuses (data'.map MmcCard.toMmcInfo) offset uio .write) :=
  ⟨mmcSpiOpen_disabled hopen, readRefused_iff, writeRefused_iff⟩

/-- A card that never answers, from an `mmc_info` of zeros: the next read
divides by zero. -/
theorem mmc_disabled_divides :
    ∃ card n, openStream (fun _ => 0xFF) = some (-1, some card, n) ∧
      card.flags = mmcDisabled ∧ DividesByZero (some card.toMmcInfo) ⟨fun _ => 0, 1, .read⟩ .read ∧
      ¬ ReadRefused (some card.toMmcInfo) 0 ⟨fun _ => 0, 1, .read⟩ := by
  obtain ⟨card, n, hopen, hsize⟩ := opens_of_any
    (by decide +kernel : (openStream (fun _ => 0xFF)).any (fun r => r.1 == -1 && r.2.1.any
      (fun card => decide (card.readBlockSize = 0))) = true)
  have hdivides : DividesByZero (some card.toMmcInfo) ⟨fun _ => 0, 1, .read⟩ .read :=
    ⟨_, rfl, rfl, hsize⟩
  exact ⟨card, n, hopen, mmcSpiOpen_disabled hopen card rfl, hdivides,
    fun hrefused => hrefused.1 hdivides⟩

/-- A card that was open before and keeps its block size: a request across the
end of a block is refused. -/
theorem mmc_disabled_refused_iff_crossing :
    ∃ card n, mmcSpiOpen (streamDevice (fun _ => 0xFF)) streamSelect 2
        (some { MmcCard.zero with readBlockSize := 512 }) 0 = some (-1, some card, n) ∧
      ReadRefused (some card.toMmcInfo) 0 ⟨fun _ => 0, 513, .read⟩ := by
  obtain ⟨card, n, hopen, hsize⟩ := opens_of_any
    (by decide +kernel : (mmcSpiOpen (streamDevice (fun _ => 0xFF)) streamSelect 2
      (some { MmcCard.zero with readBlockSize := 512 }) 0).any (fun r => r.1 == -1 &&
        r.2.1.any (fun card => decide (card.readBlockSize = 512))) = true)
  have hboth := mmc_disabled_refused_iff _ _ _ _ _ _ _ hopen 0 ⟨fun _ => 0, 513, .read⟩
  refine ⟨card, n, hopen, hboth.2.1.mpr ?_⟩
  rintro info hinfo _
  obtain rfl := Option.some.inj hinfo
  rw [crossesSector, hsize]
  decide

end PascalScheduler
