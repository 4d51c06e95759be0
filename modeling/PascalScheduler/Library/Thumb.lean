import Mathlib.Tactic

/-!
The few Thumb instructions that context switches are made of, over any memory
with a word bus. A bus that does not answer is a fault, and a fault ends the
execution. The exception entry and return of the core are not modelled: they
push and pop the same words.
-/

namespace Thumb

variable {μ : Type*}

/-- The registers `r0` to `r12`. -/
abbrev Reg := Fin 13

structure Bus (μ : Type*) where
  load : μ → UInt32 → Option UInt32
  store : μ → UInt32 → UInt32 → Option μ

structure Cpu (μ : Type*) where
  r : Reg → UInt32
  psp : UInt32
  lr : UInt32
  memory : μ

inductive Instr where
  /-- `ldr rd, =value` -/
  | ldrLiteral (rd : Reg) (value : UInt32)
  /-- `ldr rd, [rn]` -/
  | ldr (rd rn : Reg)
  | movImmediate (rd : Reg) (value : UInt32)
  | movLr (rn : Reg)
  | mul (rd rn rm : Reg)
  | add (rd rn rm : Reg)
  | mrsPsp (rd : Reg)
  | msrPsp (rn : Reg)
  | stmia (rn : Reg) (list : List Reg)
  | ldmia (rn : Reg) (list : List Reg)
  | isb

def storeWords (bus : Bus μ) : UInt32 → List UInt32 → μ → Option μ
  | _, [], m => some m
  | a, w :: ws, m => (bus.store m a w).bind (storeWords bus (a + 4) ws)

def loadWords (bus : Bus μ) (m : μ) : UInt32 → Nat → Option (List UInt32)
  | _, 0 => some []
  | a, n + 1 => (bus.load m a).bind fun w => (loadWords bus m (a + 4) n).map (w :: ·)

/-- The address behind `n` words. -/
def advance (a : UInt32) : Nat → UInt32
  | 0 => a
  | n + 1 => advance (a + 4) n

namespace Cpu

def set (c : Cpu μ) (rd : Reg) (value : UInt32) : Cpu μ :=
  { c with r := Function.update c.r rd value }

def setAll (c : Cpu μ) : List (Reg × UInt32) → Cpu μ
  | [] => c
  | x :: xs => (c.set x.1 x.2).setAll xs

theorem set_r (c : Cpu μ) (rd : Reg) (value : UInt32) (i : Reg) :
    (c.set rd value).r i = if i = rd then value else c.r i :=
  Function.update_apply _ _ _ _

end Cpu

def Instr.exec (bus : Bus μ) (c : Cpu μ) : Instr → Option (Cpu μ)
  | .ldrLiteral rd value => some (c.set rd value)
  | .ldr rd rn => (bus.load c.memory (c.r rn)).map (c.set rd)
  | .movImmediate rd value => some (c.set rd value)
  | .movLr rn => some { c with lr := c.r rn }
  | .mul rd rn rm => some (c.set rd (c.r rn * c.r rm))
  | .add rd rn rm => some (c.set rd (c.r rn + c.r rm))
  | .mrsPsp rd => some (c.set rd c.psp)
  | .msrPsp rn => some { c with psp := c.r rn }
  | .stmia rn list =>
      (storeWords bus (c.r rn) (list.map c.r) c.memory).map fun m =>
        { c.set rn (advance (c.r rn) list.length) with memory := m }
  | .ldmia rn list =>
      (loadWords bus c.memory (c.r rn) list.length).map fun ws =>
        (c.set rn (advance (c.r rn) list.length)).setAll (list.zip ws)
  | .isb => some c

def exec (bus : Bus μ) : List Instr → Cpu μ → Option (Cpu μ)
  | [], c => some c
  | i :: code, c => (i.exec bus c).bind (exec bus code)

variable {bus : Bus μ} {c d : Cpu μ}

theorem exec_append (code code' : List Instr) :
    exec bus (code ++ code') c = (exec bus code c).bind (exec bus code') := by
  induction code generalizing c with
  | nil => rfl
  | cons i code ih =>
      rw [List.cons_append, exec, exec, Option.bind_assoc]
      simp only [ih]

/-- One instruction of a longer program. -/
theorem exec_cons {i : Instr} {code : List Instr} (h : i.exec bus c = some d) :
    exec bus (i :: code) c = exec bus code d := by
  rw [exec, h, Option.bind_some]

theorem exec_stmia (rn : Reg) (list : List Reg) {m : μ}
    (h : storeWords bus (c.r rn) (list.map c.r) c.memory = some m) :
    (Instr.stmia rn list).exec bus c =
      some { c.set rn (advance (c.r rn) list.length) with memory := m } := by
  rw [Instr.exec, h]
  rfl

theorem exec_ldmia (rn : Reg) (list : List Reg) {ws : List UInt32}
    (h : loadWords bus c.memory (c.r rn) list.length = some ws) :
    (Instr.ldmia rn list).exec bus c =
      some ((c.set rn (advance (c.r rn) list.length)).setAll (list.zip ws)) := by
  rw [Instr.exec, h]
  rfl

/-- What a called function keeps by the procedure call standard: the stack
pointer and `r4` to `r11`. -/
structure Kept (c d : Cpu μ) : Prop where
  psp : d.psp = c.psp
  callee : ∀ i : Reg, 4 ≤ i → i ≤ 11 → d.r i = c.r i

end Thumb
