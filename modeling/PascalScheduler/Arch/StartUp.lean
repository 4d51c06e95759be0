import PascalScheduler.Arch.MemoryLayout
import PascalScheduler.Library.Countdown

/-!
The start-up code of `init.s` up to its call of `c_init`: three loops that copy
`.data` from flash, clear `.bss` and fill the stacks. The first one counts the
bytes of `.data` and copies words, so that it copies four times as much; all of
them count a register down to zero and test it at their end.
-/

namespace PascalScheduler

open Countdown Fuel

def flashStart : Nat := 0x10001000
def flashEnd : Nat := 0x10001000 + 64 * 1024
def ramStart : Nat := 0x20000000
def ramEnd : Nat := 0x20000000 + 16 * 1024

/-- The sections that the start-up code prepares. `.data` begins `ram`, `.bss`
lies behind it where its alignment puts it. -/
structure StartImage extends Layout where
  dataFlash : Nat
  dataSize : Nat
  bssAddress : Nat
  bssSize : Nat
  aligned : dataFlash % 4 = 0
  flash_le : flashStart ≤ dataFlash
  flash_fits : dataFlash + dataSize ≤ flashEnd
  bss_after : ramStart + dataSize ≤ bssAddress
  bss_end : bssEnd = bssAddress + bssSize

namespace StartImage

/-- `__bss_start`: where `.data` ends. -/
def bssStart (img : StartImage) : Nat := ramStart + img.dataSize

/-- `MAIN_STACK_TOP`, and the end of `.stack`. -/
def mainStackTop (img : StartImage) : Nat := align4 (img.threadStackTop + mainStackSize)

/-- `__stack_size` -/
def stackSize (img : StartImage) : Nat := img.mainStackTop - img.heapEnd

end StartImage

/-- The registers that the loops use, and the memory by bytes. -/
structure StartCpu where
  r1 : UInt32
  r2 : UInt32
  r3 : UInt32
  r5 : UInt32
  memory : Nat → UInt8

def InFlash (a : UInt32) : Prop := flashStart ≤ a.toNat ∧ a.toNat < flashEnd
def InRam (a : UInt32) : Prop := ramStart ≤ a.toNat ∧ a.toNat < ramEnd

instance (a : UInt32) : Decidable (InFlash a) := inferInstanceAs (Decidable (_ ∧ _))
instance (a : UInt32) : Decidable (InRam a) := inferInstanceAs (Decidable (_ ∧ _))

/-- The word at `a` of a little-endian memory. -/
def wordOf (memory : Nat → UInt8) (a : Nat) : UInt32 :=
  UInt32.ofNat ((memory a).toNat + 256 * (memory (a + 1)).toNat +
    65536 * (memory (a + 2)).toNat + 16777216 * (memory (a + 3)).toNat)

def byteOf (w : UInt32) (k : Nat) : UInt8 := UInt8.ofNat (w.toNat / 256 ^ k)

/-- An access outside the memory, or one that is not aligned, is a fault. -/
def ldr (memory : Nat → UInt8) (a : UInt32) : Option UInt32 :=
  if a.toNat % 4 = 0 ∧ (InFlash a ∨ InRam a) then some (wordOf memory a.toNat) else none

def str (memory : Nat → UInt8) (a w : UInt32) : Option (Nat → UInt8) :=
  if a.toNat % 4 = 0 ∧ InRam a then
    some fun b => if a.toNat ≤ b ∧ b < a.toNat + 4 then byteOf w (b - a.toNat) else memory b
  else none

def strb (memory : Nat → UInt8) (a w : UInt32) : Option (Nat → UInt8) :=
  if InRam a then some (Function.update memory a.toNat w.toUInt8) else none

/-- The body of `vector_loop`. -/
def vectorTurn (c : StartCpu) : Option StartCpu :=
  (ldr c.memory c.r1).bind fun r2 =>
    (str c.memory c.r3 r2).map fun memory =>
      { r1 := c.r1 + 4, r2 := r2, r3 := c.r3 + 4, r5 := c.r5 - 1, memory := memory }

/-- The body of `bss_loop` and of `stack_loop`. -/
def fillTurn (c : StartCpu) : Option StartCpu :=
  (strb c.memory c.r3 c.r2).map fun memory =>
    { c with r3 := c.r3 + 1, r5 := c.r5 - 1, memory := memory }

namespace StartImage

def vectorLoop (img : StartImage) (fuel : Nat) (c : StartCpu) : Option StartCpu :=
  doWhile vectorTurn StartCpu.r5 fuel
    { c with
      r1 := UInt32.ofNat img.dataFlash, r3 := UInt32.ofNat ramStart,
      r5 := UInt32.ofNat img.dataSize }

def bssLoop (img : StartImage) (fuel : Nat) (c : StartCpu) : Option StartCpu :=
  doWhile fillTurn StartCpu.r5 fuel
    { c with r3 := UInt32.ofNat img.bssStart, r5 := UInt32.ofNat img.bssSize, r2 := 0 }

def stackLoop (img : StartImage) (fuel : Nat) (c : StartCpu) : Option StartCpu :=
  doWhile fillTurn StartCpu.r5 fuel
    { c with r3 := UInt32.ofNat img.heapEnd, r5 := UInt32.ofNat img.stackSize, r2 := 0xAB }

/-- `_start` up to the switch of the stack pointer. -/
def start (img : StartImage) (fuel : Nat) (c : StartCpu) : Option StartCpu :=
  (img.vectorLoop fuel c).bind fun c => (img.bssLoop fuel c).bind (img.stackLoop fuel)

end StartImage

section Words

end Words

section Turns

variable {c d : StartCpu} {src dst n : Nat}

end Turns

namespace StartImage

variable (img : StartImage) {c d : StartCpu}

/-- The memory when `_start` is through. -/
structure Image (before after : Nat → UInt8) : Prop where
  stack : ∀ a, img.heapEnd ≤ a → a < img.mainStackTop → after a = 0xAB
  bss : ∀ a, img.bssStart ≤ a → a < img.bssStart + img.bssSize → after a = 0
  copied : ∀ a, ramStart ≤ a → a < ramStart + 4 * img.dataSize →
    ¬ (img.heapEnd ≤ a ∧ a < img.mainStackTop) →
    ¬ (img.bssStart ≤ a ∧ a < img.bssStart + img.bssSize) →
    after a = before (img.dataFlash + (a - ramStart))
  kept : ∀ a, ¬ (ramStart ≤ a ∧ a < ramStart + 4 * img.dataSize) →
    ¬ (img.heapEnd ≤ a ∧ a < img.mainStackTop) →
    ¬ (img.bssStart ≤ a ∧ a < img.bssStart + img.bssSize) → after a = before a

end StartImage

end PascalScheduler
