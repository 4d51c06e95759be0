import PascalScheduler.Library.Fuel

/-!
Loops that count a 32-bit register down and test it at their end. Such a loop
makes as many turns as the register says, and `2 ^ 32` where it says zero. How
it ends is then a matter of the turns alone.
-/

namespace Countdown

variable {σ : Type*} {body : σ → Option σ} {count : σ → UInt32} {s t : σ} {n : Nat}

/-- `do body while (count ≠ 0)`, where the body counts. -/
def doWhile (body : σ → Option σ) (count : σ → UInt32) : Nat → σ → Option σ
  | 0, _ => none
  | fuel + 1, s => (body s).bind fun t => if count t = 0 then some t else doWhile body count fuel t

/-- The body, that many times. -/
def turns (body : σ → Option σ) : Nat → σ → Option σ
  | 0, s => some s
  | n + 1, s => (body s).bind (turns body n)

end Countdown
