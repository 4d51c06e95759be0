import PascalScheduler.Library.BitSlice
import PascalScheduler.Sys.Console

/-!
What `_kernel_entry` prints before it starts the scheduler, with the registers of
the chip that it is made from (`kernel.c`, `dev/mcu/xmc.c`). The number of the
version is masked out of the wrong bits and is always 0.
-/

namespace PascalScheduler.Sys

open Fuel BitSlice

/-- `SCU_GENERAL->DBGROMID`, `PAU->FLSIZE` and `PAU->RAM0SIZE`. -/
structure McuRegisters where
  dbgRomId : UInt32
  flSize : UInt32
  ram0Size : UInt32

def mcuString : List UInt8 := text "Infineon XMC1100 version x"

/-- `get_mcu_string` -/
def getMcuString (mcu : McuRegisters) : List UInt8 :=
  mcuString.set 25 ('0'.toUInt8.toUInt32 + (((mcu.dbgRomId &&& 0xF0000000) >>> 24) &&& 0xF)).toUInt8

/-- `get_flash_size` -/
def getFlashSize (mcu : McuRegisters) : Int32 :=
  (((((mcu.flSize &&& 0x3F000) >>> 12) &&& 0x3F) - 1) * 4).toInt32

/-- `get_ram_size` -/
def getRamSize (mcu : McuRegisters) : Int32 :=
  ((((mcu.ram0Size &&& 0x1F00) >>> 8) &&& 0x1F) * 256).toInt32

section Registers

variable (mcu : McuRegisters)

/-- A field that is masked in place and again when it has been shifted down. -/
theorem masked_slice (r start size : Nat) :
    (((r &&& (2 ^ size - 1) <<< start) >>> start) &&& (2 ^ size - 1)) = slice r start size := by
  apply eq_slice
  intro k
  simp only [Nat.testBit_and, Nat.testBit_shiftRight, Nat.testBit_shiftLeft,
    Nat.testBit_two_pow_sub_one]
  by_cases hk : k < size
  · simp [hk]
  · simp [hk]

/-- The mask keeps the bits from 28 on, and four of them are looked at from 24
on. -/
theorem version_masked : (((mcu.dbgRomId &&& 0xF0000000) >>> 24) &&& 0xF) = 0 := by
  apply UInt32.toNat_inj.mp
  have hbits : ((mcu.dbgRomId.toNat &&& (2 ^ 4 - 1) <<< 28) >>> 24) &&& (2 ^ 4 - 1) = 0 := by
    apply Nat.eq_of_testBit_eq
    intro k
    simp only [Nat.testBit_and, Nat.testBit_shiftRight, Nat.testBit_shiftLeft,
      Nat.testBit_two_pow_sub_one, Nat.zero_testBit]
    by_cases hk : k < 4
    · simp [show ¬ 28 ≤ 24 + k by omega]
    · simp [hk]
  simpa using hbits

theorem getMcuString_version : getMcuString mcu = text "Infineon XMC1100 version 0" := by
  rw [getMcuString, version_masked]
  decide +kernel

theorem getFlashSize_toInt :
    (getFlashSize mcu).toInt = 4 * (slice mcu.flSize.toNat 12 6 : Int) - 4 := by
  have hall : ∀ n < 2 ^ 6, ((UInt32.ofNat n - 1) * 4).toInt32.toInt = 4 * (n : Int) - 4 := by
    decide +kernel
  have hfield : (((mcu.flSize &&& 0x3F000) >>> 12) &&& 0x3F) =
      UInt32.ofNat (slice mcu.flSize.toNat 12 6) := by
    apply UInt32.toNat_inj.mp
    have hslice := masked_slice mcu.flSize.toNat 12 6
    have hlt := slice_lt mcu.flSize.toNat 12 6
    rw [UInt32.toNat_ofNat_of_lt' (by change _ < 2 ^ 32; omega), ← hslice]
    simp
  rw [getFlashSize, hfield, hall _ (slice_lt _ _ _)]

theorem getRamSize_toInt : (getRamSize mcu).toInt = 256 * (slice mcu.ram0Size.toNat 8 5 : Int) := by
  have hall : ∀ n < 2 ^ 5, (UInt32.ofNat n * 256).toInt32.toInt = 256 * (n : Int) := by
    decide +kernel
  have hfield : (((mcu.ram0Size &&& 0x1F00) >>> 8) &&& 0x1F) =
      UInt32.ofNat (slice mcu.ram0Size.toNat 8 5) := by
    apply UInt32.toNat_inj.mp
    have hslice := masked_slice mcu.ram0Size.toNat 8 5
    have hlt := slice_lt mcu.ram0Size.toNat 8 5
    rw [UInt32.toNat_ofNat_of_lt' (by change _ < 2 ^ 32; omega), ← hslice]
    simp
  rw [getRamSize, hfield, hall _ (slice_lt _ _ _)]

theorem getMcuString_noNul : ∀ c ∈ getMcuString mcu, c ≠ 0 := by
  rw [getMcuString_version]
  decide +kernel

end Registers

section Banner

variable {σ : Type*} (board : Board σ) (frame : σ → Vnode)

def helloFormat : CString where
  chars := text "PascalScheduler R0\n"
  noNul := by decide +kernel

def mcuFormat : CString where
  chars := text " -- %s\n"
  noNul := by decide +kernel

def flashFormat : CString where
  chars := text " -- Flash : %dkB\n"
  noNul := by decide +kernel

def ramFormat : CString where
  chars := text " -- RAM   : %dB\n"
  noNul := by decide +kernel

/-- A call with one argument: a number, or the address of the string. -/
def oneArgument (mcu : McuRegisters) (word : Int32) : Arguments where
  word _ := word.toUInt32
  string _ := ⟨getMcuString mcu, getMcuString_noNul mcu⟩

def bannerLine (fuel : Nat) (mcu : McuRegisters) (fmt : CString) (word : Int32) (s : Process σ) :
    Option (Process σ) :=
  (printf board frame fuel (oneArgument mcu word) fmt (board.stack s.hardware) s).map fun r => r.2

/-- The four lines of `_kernel_entry`; `address` is that of `mcu_string`. -/
def kernelBanner (fuel : Nat) (mcu : McuRegisters) (address : Int32) (s : Process σ) :
    Option (Process σ) :=
  (bannerLine board frame fuel mcu helloFormat 0 s).bind fun s =>
    (bannerLine board frame fuel mcu mcuFormat address s).bind fun s =>
      (bannerLine board frame fuel mcu flashFormat (getFlashSize mcu) s).bind
        (bannerLine board frame fuel mcu ramFormat (getRamSize mcu))

end Banner

section Lines

def helloItems : List Item := textItems "PascalScheduler R0\n"

def mcuItems : List Item := textItems " -- " ++ .directive .none .s :: textItems "\n"

def flashItems : List Item := textItems " -- Flash : " ++ .directive .none .d :: textItems "kB\n"

def ramItems : List Item := textItems " -- RAM   : " ++ .directive .none .d :: textItems "B\n"

variable (args : Arguments)

theorem mcuItems_render :
    renderItems args 0 mcuItems =
      text " -- " ++ ((args.string (args.word 0)).chars ++ text "\n") := by
  rw [mcuItems, renderItems_text _ _ _ (by decide +kernel), renderItems,
    renderItems_last _ _ (by decide +kernel)]
  rfl

/-- A line with a size. -/
theorem sizeItems_render {before after : String}
    (hbefore : ∀ c ∈ text before, c ≠ 0 ∧ c ≠ '%'.toUInt8)
    (hafter : ∀ c ∈ text after, c ≠ 0 ∧ c ≠ '%'.toUInt8) :
    renderItems args 0 (textItems before ++ .directive .none .d :: textItems after) =
      text before ++ (decimal (args.word 0).toInt32 ++ text after) := by
  rw [renderItems_field _ _ _ hbefore, renderItems_last _ _ hafter]

variable {σ : Type*} {board : Board σ} (frame : σ → Vnode) {line : σ → List UInt8}

theorem bannerLine_stable (mcu : McuRegisters) (fmt : CString) (word : Int32) (s : Process σ) :
    Stable fun fuel => bannerLine board frame fuel mcu fmt word s :=
  (printf_stable _ _ _ _).map _

theorem bannerLine_ends (h : Transmits board.uart line) (mcu : McuRegisters) {fmt : CString}
    {items : List Item} {shown : List UInt8} (word : Int32)
    (hfmt : fmt.chars = items.flatMap Item.chars) (hsize : fmt.chars.length ≤ 128)
    (htotal : ∀ item ∈ items, Total item)
    (hshown : renderItems (oneArgument mcu word) 0 items = shown) (s : Process σ) :
    ∃ t, Ends (fun fuel => bannerLine board frame fuel mcu fmt word s) { s with hardware := t } ∧
      line t = line s.hardware ++ shown := by
  obtain ⟨t, hprint, hline⟩ := printf_total frame h (oneArgument mcu word) items
    (board.stack s.hardware) s hfmt hsize htotal
  rw [hshown] at hline
  exact ⟨t, ends_map.mpr ⟨_, hprint, rfl⟩, hline⟩

end Lines

/-- Whatever the registers of the chip hold, the banner is this text: the sizes
are those of the two fields, and the version is 0. -/
theorem kernel_banner {σ : Type*} (board : Board σ) (frame : σ → Vnode) (line : σ → List UInt8)
    (h : Transmits board.uart line) (mcu : McuRegisters) (address : Int32) (s : Process σ) :
    ∃ t, Ends (fun fuel => kernelBanner board frame fuel mcu address s) { s with hardware := t } ∧
      line t = line s.hardware ++
        (text "PascalScheduler R0\n -- Infineon XMC1100 version 0\n -- Flash : " ++
          (signedNumeral 10 (4 * (slice mcu.flSize.toNat 12 6 : Int) - 4) ++
            (text "kB\n -- RAM   : " ++
              (signedNumeral 10 (256 * (slice mcu.ram0Size.toNat 8 5 : Int)) ++ text "B\n")))) := by
  obtain ⟨t₁, hhello, hline₁⟩ := bannerLine_ends frame h mcu 0
    (show helloFormat.chars = helloItems.flatMap Item.chars by decide +kernel) (by decide +kernel)
    (by decide +kernel) (renderItems_last _ 0 (by decide +kernel)) s
  obtain ⟨t₂, hmcu, hline₂⟩ := bannerLine_ends frame h mcu address
    (show mcuFormat.chars = mcuItems.flatMap Item.chars by decide +kernel) (by decide +kernel)
    (by decide +kernel) (mcuItems_render _) { s with hardware := t₁ }
  obtain ⟨t₃, hflash, hline₃⟩ := bannerLine_ends frame h mcu
    (getFlashSize mcu) (show flashFormat.chars = flashItems.flatMap Item.chars by decide +kernel)
    (by decide +kernel) (by decide +kernel)
    (sizeItems_render _ (by decide +kernel) (by decide +kernel)) { s with hardware := t₂ }
  obtain ⟨t₄, hram, hline₄⟩ := bannerLine_ends frame h mcu
    (getRamSize mcu) (show ramFormat.chars = ramItems.flatMap Item.chars by decide +kernel)
    (by decide +kernel) (by decide +kernel)
    (sizeItems_render _ (by decide +kernel) (by decide +kernel)) { s with hardware := t₃ }
  refine ⟨t₄, ?_, ?_⟩
  · have hstable : ∀ fmt word s, Stable fun fuel => bannerLine board frame fuel mcu fmt word s :=
      bannerLine_stable frame mcu
    apply (ends_bind (hstable _ _ _) _).mpr ⟨_, hhello, ?_⟩
    · exact fun s => (hstable _ _ _).bind fun s => (hstable _ _ _).bind (hstable _ _)
    apply (ends_bind (hstable _ _ _) _).mpr ⟨_, hmcu, ?_⟩
    · exact fun s => (hstable _ _ _).bind (hstable _ _)
    exact (ends_bind (hstable _ _ _) (hstable _ _)).mpr ⟨_, hflash, hram⟩
  · have hstring : ((oneArgument mcu address).string ((oneArgument mcu address).word 0)).chars =
        text "Infineon XMC1100 version 0" := getMcuString_version mcu
    have hflashWord : decimal ((oneArgument mcu (getFlashSize mcu)).word 0).toInt32 =
        signedNumeral 10 (4 * (slice mcu.flSize.toNat 12 6 : Int) - 4) := by
      rw [← getFlashSize_toInt]
      rfl
    have hramWord : decimal ((oneArgument mcu (getRamSize mcu)).word 0).toInt32 =
        signedNumeral 10 (256 * (slice mcu.ram0Size.toNat 8 5 : Int)) := by
      rw [← getRamSize_toInt]
      rfl
    have hfirst : text "PascalScheduler R0\n -- Infineon XMC1100 version 0\n -- Flash : " =
        text "PascalScheduler R0\n" ++ (text " -- " ++ (text "Infineon XMC1100 version 0" ++
          (text "\n" ++ text " -- Flash : "))) := by
      decide +kernel
    have hsecond : text "kB\n -- RAM   : " = text "kB\n" ++ text " -- RAM   : " := by
      decide +kernel
    rw [hline₄, hline₃, hline₂, hline₁, hstring, hflashWord, hramWord, hfirst, hsecond]
    simp only [List.append_assoc]

/-- A chip of version 1 with 64 KiB of flash and 4 KiB of memory says version 0. -/
theorem kernel_banner_version :
    ∃ t, Ends (fun fuel => kernelBanner uartBoard (fun _ => idleVnode) fuel
        ⟨0x10000000, 0x11000, 0x1000⟩ 0x20000000 ⟨0, ⟨[], [], []⟩⟩) ⟨0, t⟩ ∧
      t.line = text "PascalScheduler R0\n -- Infineon XMC1100 version 0\n -- Flash : 64kB\n" ++
        text " -- RAM   : 4096B\n" := by
  obtain ⟨t, hbanner, hline⟩ := kernel_banner uartBoard (fun _ => idleVnode) Uart.line
    uartChannel_transmits ⟨0x10000000, 0x11000, 0x1000⟩ 0x20000000 ⟨0, ⟨[], [], []⟩⟩
  refine ⟨t, hbanner, ?_⟩
  rw [hline]
  decide +kernel

end PascalScheduler.Sys
