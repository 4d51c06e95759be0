import PascalScheduler.Libc.PrintfNumbers

/-!
How `ui2a` uses its 32-bit divisor. The loops are run again with a record of
every division by `d` and of every multiplication of it; without the record they
are the loops of `Printf.lean`. The divisor stays between 1 and the number, so
that no product of it with the base leaves 32 bits.
-/

namespace PascalScheduler

/-- What the loops of `ui2a` do with the divisor. -/
inductive DivisorUse where
  | divides (d : UInt32)             -- `num/d`
  | multiplied (d base : UInt32)     -- `d*=base`
  deriving DecidableEq

/-- No division by zero, and no overflow. -/
def DivisorUse.Safe : DivisorUse → Prop
  | .divides d => d ≠ 0
  | .multiplied d base => d.toNat * base.toNat < 2 ^ 32

section Uses

/-- The first loop of `ui2a`, with what it does with `d`. -/
def scaleUses (num : UInt64) (base : UInt32) : Nat → UInt32 → Trace DivisorUse UInt32
  | 0, _ => .lift none
  | turns + 1, d =>
      .step (.divides d)
        (if d = 0 then .lift none
        else if num / d.toUInt64 ≥ base.toUInt64 then
          .step (.multiplied d base) (scaleUses num base turns (d * base))
        else .pure d)

/-- The second loop of `ui2a`, with what it does with `d`. -/
def digitsUses (base : UInt32) :
    Nat → UInt64 → UInt32 → Int32 → Trace DivisorUse (List UInt8)
  | 0, _, _, _ => .lift none
  | turns + 1, num, d, n =>
      if d = 0 then .pure [0]
      else
        .step (.divides d)
          (if base = 0 then .lift none
          else
            let dgt := (num / d.toUInt64).toUInt32.toInt32
            let num := num - (dgt.toUInt32 * d).toUInt64
            let d := d / base
            if n ≠ 0 ∨ dgt > 0 ∨ d = 0 then
              (digitsUses base turns num d (n + 1)).map (fun bf => digitChar dgt :: bf)
            else digitsUses base turns num d n)

/-- `ui2a`, with what it does with `d`. -/
def ui2aUses (num : UInt64) (base : UInt32) : Trace DivisorUse (List UInt8) :=
  (scaleUses num base 33 1).bind fun d => digitsUses base 33 num d 0

end Uses

section Record

variable {num : UInt64} {base : UInt32}

theorem scaleUses_result (turns : Nat) (d : UInt32) :
    (scaleUses num base turns d).result = ui2aScale num base turns d := by
  induction turns generalizing d with
  | zero => rfl
  | succ turns ih =>
      unfold scaleUses ui2aScale
      rw [Trace.result_step]
      split_ifs
      · rfl
      · exact ih _
      · rfl

theorem digitsUses_result (turns : Nat) (num : UInt64) (d : UInt32) (n : Int32) :
    (digitsUses base turns num d n).result = ui2aDigits base turns num d n := by
  induction turns generalizing num d n with
  | zero => rfl
  | succ turns ih =>
      unfold digitsUses ui2aDigits
      dsimp only
      split_ifs
      · rfl
      · rfl
      · rw [Trace.result_step, Trace.result_map, ih]
      · exact ih _ _ _

/-- Without the record it is `ui2a`. -/
theorem ui2aUses_result (num : UInt64) (base : UInt32) :
    (ui2aUses num base).result = ui2a num base := by
  unfold ui2aUses ui2a
  simp only [Trace.result_bind, scaleUses_result, digitsUses_result]

end Record

section Safe

variable {num : UInt64} {base : UInt32}

/-- The divisors that the first loop reaches. -/
structure Scaled (num : UInt64) (d : UInt32) : Prop where
  pos : 0 < d.toNat
  le : d.toNat = 1 ∨ d.toNat ≤ num.toNat

/-- Where the first loop goes on, the next divisor fits and is below the
number. -/
theorem Scaled.next {d : UInt32} (h : Scaled num d) (hnum : num.toNat < 2 ^ 32)
    (hbase : 0 < base.toNat) (htest : num / d.toUInt64 ≥ base.toUInt64) :
    d.toNat * base.toNat < 2 ^ 32 ∧ Scaled num (d * base) := by
  have hle : d.toNat * base.toNat ≤ num.toNat := (scale_test h.pos).mp htest
  have hfits : d.toNat * base.toNat < 2 ^ 32 := by omega
  have hnext : (d * base).toNat = d.toNat * base.toNat := by
    rw [UInt32.toNat_mul, Nat.mod_eq_of_lt hfits]
  refine ⟨hfits, ?_, .inr ?_⟩
  · rw [hnext]
    exact Nat.mul_pos h.pos hbase
  · rw [hnext]
    exact hle

theorem scaleUses_safe (hnum : num.toNat < 2 ^ 32) (hbase : 0 < base.toNat) (turns : Nat)
    (d : UInt32) (h : Scaled num d) : (scaleUses num base turns d).All DivisorUse.Safe := by
  induction turns generalizing d with
  | zero => exact nofun
  | succ turns ih =>
      have hne : d ≠ 0 := by
        rintro rfl
        exact absurd h.pos (by simp)
      have hdivides : (DivisorUse.divides d).Safe := hne
      unfold scaleUses
      apply Trace.All.step hdivides
      apply Trace.All.ite
      · exact fun hzero => absurd hzero hne
      · intro _
        apply Trace.All.ite
        · intro htest
          obtain ⟨hfits, hnext⟩ := h.next hnum hbase htest
          have hmultiplied : (DivisorUse.multiplied d base).Safe := hfits
          exact Trace.All.step hmultiplied (ih _ hnext)
        · exact fun _ => Trace.All.pure d

/-- The second loop tests the divisor before it divides. -/
theorem digitsUses_safe (turns : Nat) (num : UInt64) (d : UInt32) (n : Int32) :
    (digitsUses base turns num d n).All DivisorUse.Safe := by
  induction turns generalizing num d n with
  | zero => exact nofun
  | succ turns ih =>
      unfold digitsUses
      apply Trace.All.ite
      · exact fun _ => Trace.All.pure _
      · intro hne
        have hdivides : (DivisorUse.divides d).Safe := hne
        apply Trace.All.step hdivides
        apply Trace.All.ite
        · exact fun _ => nofun
        · intro _
          apply Trace.All.ite
          · exact fun _ => (ih _ _ _).map _
          · exact fun _ => ih _ _ _

theorem ui2aUses_safe (hnum : num.toNat < 2 ^ 32) (hbase : 0 < base.toNat) :
    (ui2aUses num base).All DivisorUse.Safe := by
  have hstart : Scaled num 1 := ⟨by simp, .inl rfl⟩
  unfold ui2aUses
  apply Trace.All.bind
  · exact scaleUses_safe hnum hbase 33 1 hstart
  · exact fun d _ => digitsUses_safe 33 num d 0

end Safe

/-- For all bases from 2 to 36, `ui2a` of a 32-bit number ends, uses its divisor
safely and writes the canonical numeral and a NUL; `i2a` writes the numeral of
the magnitude, after a sign for the negative numbers. -/
theorem conversion_exact (base : UInt32) (hbase : 2 ≤ base.toNat) (hle : base.toNat ≤ 36) :
    (∀ num : UInt64, num.toNat < 2 ^ 32 →
      (ui2aUses num base).All DivisorUse.Safe ∧ (ui2aUses num base).result = ui2a num base ∧
        ∃ ds, (∀ ds', Numeral.Canonical base.toNat num.toNat ds' ↔ ds' = ds) ∧
          ui2a num base = some (ds.map digitByte ++ [0])) ∧
      ∀ num : Int64, num.toInt.natAbs ≤ 2 ^ 32 - 1 →
        ∃ ds, (∀ ds', Numeral.Canonical base.toNat num.toInt.natAbs ds' ↔ ds' = ds) ∧
          i2a num base =
            some ((if num < 0 then ['-'.toUInt8] else []) ++ ds.map digitByte ++ [0]) := by
  constructor
  · intro num hnum
    exact ⟨ui2aUses_safe hnum (by omega), ui2aUses_result num base, _,
      fun ds => Numeral.canonical_iff hbase, ui2a_numeral hnum hbase hle⟩
  · intro num hnum
    have hsign : num < 0 ↔ num.toInt < 0 := by
      rw [Int64.lt_iff_toInt_lt, Int64.toInt_zero]
    refine ⟨_, fun ds => Numeral.canonical_iff hbase, ?_⟩
    rw [i2a_signedNumeral (by omega) hbase hle, signedNumeral]
    simp only [hsign]
    split
    · rfl
    · rfl

/-- The largest number in base 2, and its negative in base 16. -/
theorem conversion_exact_highest :
    ((ui2aUses 4294967295 2).All DivisorUse.Safe ∧
      ∃ ds, (∀ ds', Numeral.Canonical 2 4294967295 ds' ↔ ds' = ds) ∧
        ui2a 4294967295 2 = some (ds.map digitByte ++ [0])) ∧
      ∃ ds, (∀ ds', Numeral.Canonical 16 4294967295 ds' ↔ ds' = ds) ∧
        i2a (-4294967295) 16 = some ('-'.toUInt8 :: (ds.map digitByte ++ [0])) := by
  obtain ⟨hsafe, _, hwritten⟩ := (conversion_exact 2 (by decide) (by decide)).1 4294967295
    (by decide)
  have hnegative := (conversion_exact 16 (by decide) (by decide)).2 (-4294967295) (by decide)
  exact ⟨⟨hsafe, hwritten⟩, hnegative⟩

end PascalScheduler
