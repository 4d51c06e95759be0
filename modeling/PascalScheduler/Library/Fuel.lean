import Mathlib.Tactic

/-!
Computations that are given a bound on their loops. `none` means that the bound
was too small; a larger bound never changes an answer. What such a computation
ends with, for some bound, is then a partial function again, and it composes
stage by stage.
-/

namespace Fuel

variable {α β : Type*}

/-- A larger bound keeps the answer. -/
def Stable (f : Nat → Option α) : Prop :=
  ∀ fuel fuel' a, fuel ≤ fuel' → f fuel = some a → f fuel' = some a

/-- Some bound is enough, and the answer is `a`. -/
def Ends (f : Nat → Option α) (a : α) : Prop :=
  ∃ fuel, f fuel = some a

def Returns (f : Nat → Option α) : Prop :=
  ∃ a, Ends f a

theorem Ends.unique {f : Nat → Option α} (hf : Stable f) {a b : α} (ha : Ends f a)
    (hb : Ends f b) : a = b := by
  obtain ⟨m, hm⟩ := ha
  obtain ⟨n, hn⟩ := hb
  have hm' := hf m (m + n) a (by omega) hm
  have hn' := hf n (m + n) b (by omega) hn
  exact Option.some.inj (hm'.symm.trans hn')

theorem stable_of_succ {f : Nat → Option α}
    (h : ∀ fuel a, f fuel = some a → f (fuel + 1) = some a) : Stable f := by
  intro fuel fuel' a hle ha
  induction hle with
  | refl => exact ha
  | step _ ih => exact h _ _ ih

theorem stable_const (x : Option α) : Stable (fun _ => x) :=
  fun _ _ _ _ h => h

namespace Stable

variable {f : Nat → Option α}

theorem bind {g : Nat → α → Option β} (hf : Stable f)
    (hg : ∀ a, Stable (fun fuel => g fuel a)) :
    Stable (fun fuel => (f fuel).bind (g fuel)) := by
  intro fuel fuel' b hle h
  obtain ⟨a, ha, hb⟩ := Option.bind_eq_some_iff.mp h
  simp only [hf _ _ _ hle ha, Option.bind_some]
  exact hg a _ _ _ hle hb

theorem map (hf : Stable f) (g : α → β) : Stable (fun fuel => (f fuel).map g) := by
  intro fuel fuel' b hle h
  obtain ⟨a, ha, rfl⟩ := Option.map_eq_some_iff.mp h
  simp only [hf _ _ _ hle ha, Option.map_some]

theorem ite {f' : Nat → Option α} (p : Prop) [Decidable p] (hf : Stable f)
    (hf' : Stable f') : Stable (fun fuel => if p then f fuel else f' fuel) := by
  by_cases hp : p
  · simpa [hp] using hf
  · simpa [hp] using hf'

/-- Bounds that grow keep the answer too. -/
theorem comp_le (hf : Stable f) {a : α} {fuel : Nat} (h : f fuel = some a) (extra : Nat) :
    f (fuel + extra) = some a :=
  hf _ _ _ (Nat.le_add_right fuel extra) h

end Stable

@[simp] theorem ends_some {a b : α} : Ends (fun _ => some a) b ↔ b = a := by
  simp [Ends, eq_comm]

/-- Stages in sequence end when each of them does. -/
theorem ends_bind {f : Nat → Option α} {g : Nat → α → Option β} (hf : Stable f)
    (hg : ∀ a, Stable (fun fuel => g fuel a)) {b : β} :
    Ends (fun fuel => (f fuel).bind (g fuel)) b ↔
      ∃ a, Ends f a ∧ Ends (fun fuel => g fuel a) b := by
  constructor
  · rintro ⟨fuel, h⟩
    obtain ⟨a, ha, hb⟩ := Option.bind_eq_some_iff.mp h
    exact ⟨a, ⟨fuel, ha⟩, ⟨fuel, hb⟩⟩
  · rintro ⟨a, ⟨m, hm⟩, ⟨n, hn⟩⟩
    refine ⟨m + n, ?_⟩
    simp only [hf m (m + n) a (by omega) hm, Option.bind_some]
    exact hg a n (m + n) b (by omega) hn

theorem ends_map {f : Nat → Option α} {g : α → β} {b : β} :
    Ends (fun fuel => (f fuel).map g) b ↔ ∃ a, Ends f a ∧ g a = b := by
  simp only [Ends, Option.map_eq_some_iff]
  constructor
  · rintro ⟨fuel, a, ha, rfl⟩
    exact ⟨a, ⟨fuel, ha⟩, rfl⟩
  · rintro ⟨a, ⟨fuel, ha⟩, rfl⟩
    exact ⟨fuel, a, ha, rfl⟩

/-- What follows a stage without a loop. -/
theorem ends_bind_const {f : Nat → Option α} {g : α → Option β} {b : β} :
    Ends (fun fuel => (f fuel).bind g) b ↔ ∃ a, Ends f a ∧ g a = some b := by
  simp only [Ends, Option.bind_eq_some_iff]
  constructor
  · rintro ⟨fuel, a, ha, hb⟩
    exact ⟨a, ⟨fuel, ha⟩, hb⟩
  · rintro ⟨a, ⟨fuel, ha⟩, hb⟩
    exact ⟨fuel, a, ha, hb⟩

theorem returns_bind {f : Nat → Option α} {g : Nat → α → Option β} (hf : Stable f)
    (hg : ∀ a, Stable (fun fuel => g fuel a)) :
    Returns (fun fuel => (f fuel).bind (g fuel)) ↔
      ∃ a, Ends f a ∧ Returns (fun fuel => g fuel a) := by
  simp only [Returns, ends_bind hf hg]
  constructor
  · rintro ⟨b, a, ha, hb⟩
    exact ⟨a, ha, b, hb⟩
  · rintro ⟨a, ha, b, hb⟩
    exact ⟨b, a, ha, hb⟩

theorem returns_map {f : Nat → Option α} {g : α → β} :
    Returns (fun fuel => (f fuel).map g) ↔ Returns f := by
  simp only [Returns, ends_map]
  constructor
  · rintro ⟨_, a, ha, _⟩
    exact ⟨a, ha⟩
  · rintro ⟨a, ha⟩
    exact ⟨g a, a, ha, rfl⟩

theorem returns_ite {f g : Nat → Option α} (p : Prop) [Decidable p] :
    Returns (fun fuel => if p then f fuel else g fuel) ↔ if p then Returns f else Returns g := by
  by_cases hp : p
  · simp [hp]
  · simp [hp]

theorem ends_ite {f g : Nat → Option α} (p : Prop) [Decidable p] {a : α} :
    Ends (fun fuel => if p then f fuel else g fuel) a ↔ if p then Ends f a else Ends g a := by
  by_cases hp : p
  · simp [hp]
  · simp [hp]

@[simp] theorem returns_some (a : α) : Returns (fun _ => some a) :=
  ⟨a, 0, rfl⟩

section Loop

variable (cond : α → Prop) (body : Nat → α → Option α)

/-- A loop gets from one state to another: before each turn the condition
holds, and the body ends. -/
inductive Turns : α → α → Prop where
  | refl (a : α) : Turns a a
  | turn {a b c : α} (hcond : cond a) (hbody : Ends (fun fuel => body fuel a) b)
      (hrest : Turns b c) : Turns a c

/-- `while (cond) body`, for a body that may itself run out of its bound. -/
def loop [DecidablePred cond] (fuel : Nat) : Nat → α → Option α
  | 0, _ => none
  | turns + 1, a => if cond a then (body fuel a).bind (loop fuel turns) else some a

variable {cond body}

/-- What each turn preserves holds after any number of them. -/
theorem Turns.invariant {P : α → Prop} {a b : α} (h : Turns cond body a b) (ha : P a)
    (hturn : ∀ a b, P a → cond a → Ends (fun fuel => body fuel a) b → P b) : P b := by
  induction h with
  | refl a => exact ha
  | turn hcond hbody _ ih => exact ih (hturn _ _ ha hcond hbody)

variable [DecidablePred cond]

theorem loop_mono (hbody : ∀ a, Stable (fun fuel => body fuel a)) {fuel fuel' turns turns' : Nat}
    {a b : α} (hfuel : fuel ≤ fuel') (hturns : turns ≤ turns')
    (h : loop cond body fuel turns a = some b) : loop cond body fuel' turns' a = some b := by
  induction turns generalizing a turns' with
  | zero => cases h
  | succ turns ih =>
      obtain ⟨more, rfl⟩ := Nat.exists_eq_add_of_le' (Nat.lt_of_lt_of_le (Nat.succ_pos _) hturns)
      rw [loop] at h ⊢
      split at h
      · rename_i hcond
        obtain ⟨c, hc, hrest⟩ := Option.bind_eq_some_iff.mp h
        have hc' : body fuel' a = some c := hbody a fuel fuel' c hfuel hc
        rw [if_pos hcond, hc', Option.bind_some]
        exact ih (by omega) hrest
      · rename_i hdone
        rw [if_neg hdone]
        exact h

theorem loop_stable (hbody : ∀ a, Stable (fun fuel => body fuel a)) (a : α) :
    Stable (fun fuel => loop cond body fuel fuel a) :=
  fun _ _ _ hle h => loop_mono hbody hle hle h

/-- The loop ends in the states that it gets to and whose condition fails. -/
theorem loop_ends (hbody : ∀ a, Stable (fun fuel => body fuel a)) {a b : α} :
    Ends (fun fuel => loop cond body fuel fuel a) b ↔ Turns cond body a b ∧ ¬ cond b := by
  constructor
  · rintro ⟨fuel, h⟩
    have hturns : ∀ turns a, loop cond body fuel turns a = some b →
        Turns cond body a b ∧ ¬ cond b := by
      intro turns
      induction turns with
      | zero => exact nofun
      | succ turns ih =>
          intro a h
          rw [loop] at h
          split at h
          · rename_i hcond
            obtain ⟨c, hc, hrest⟩ := Option.bind_eq_some_iff.mp h
            obtain ⟨hgoes, hends⟩ := ih c hrest
            exact ⟨.turn hcond ⟨fuel, hc⟩ hgoes, hends⟩
          · rename_i hdone
            rw [← Option.some.inj h]
            exact ⟨.refl a, hdone⟩
    exact hturns fuel a h
  · rintro ⟨hturns, hdone⟩
    induction hturns with
    | refl a => exact ⟨1, if_neg hdone⟩
    | turn hcond hends _ ih =>
        obtain ⟨m, hm⟩ := hends
        obtain ⟨n, hn⟩ := ih hdone
        refine ⟨m + n + 1, ?_⟩
        simp only [loop, if_pos hcond, hbody _ m (m + n + 1) _ (by omega) hm, Option.bind_some]
        exact loop_mono hbody (by omega) (by omega) hn

end Loop

end Fuel
