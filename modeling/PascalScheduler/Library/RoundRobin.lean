import Mathlib.Tactic

/-!
Cyclic order on the positions `1..n` of a round-robin arbiter. Position `0`
stands for "nobody": an arbiter resting there starts again from `1`. The
notion that carries every fairness bound is `Ahead`, which does not mention
`n`, so that positions may be added while an arbiter runs.
-/

namespace RoundRobin

/-- Walking upwards from `c`, and round from the last position to `1`, the
position `x` is met no later than `t`. -/
def Ahead (c t x : Nat) : Prop :=
  if c < t then c < x ∧ x ≤ t else c < x ∨ x ≤ t

theorem ahead_target (c t : Nat) : Ahead c t t := by
  unfold Ahead
  split <;> omega

/-- A position short of the target only has less ahead of it. -/
theorem Ahead.mono {c t x y : Nat} (hx : Ahead c t x) (hne : x ≠ t)
    (hy : Ahead x t y) : Ahead c t y := by
  unfold Ahead at *
  split at hx <;> split at hy <;> split <;> omega

/-- Nothing is ahead of itself: a position left behind is not met again
before the target. -/
theorem not_ahead_self {t x : Nat} (hne : x ≠ t) : ¬ Ahead x t x := by
  unfold Ahead
  split <;> omega

/-- What an arbiter at `c` may answer when the positions `1..n` satisfying
`ready` ask for service: the first of them in cyclic order, `c` itself left
out, or `0` when there is none. -/
inductive Picks (n : Nat) (ready : Nat → Prop) (c : Nat) : Nat → Prop where
  | found {x : Nat} (pos : 1 ≤ x) (le : x ≤ n) (ne : x ≠ c) (isReady : ready x)
      (first : ∀ y, 1 ≤ y → y ≤ n → y ≠ c → ready y → Ahead c y x) :
      Picks n ready c x
  | none (empty : ∀ y, 1 ≤ y → y ≤ n → y ≠ c → ¬ ready y) : Picks n ready c 0

namespace Picks

variable {n c x t : Nat} {ready : Nat → Prop}

theorem congr {ready' : Nat → Prop} (h : Picks n ready c x)
    (hiff : ∀ i, 1 ≤ i → i ≤ n → (ready i ↔ ready' i)) : Picks n ready' c x := by
  cases h with
  | found hpos hle hne hready hfirst =>
      exact .found hpos hle hne ((hiff x hpos hle).mp hready)
        (fun y hy hyn hyc hr => hfirst y hy hyn hyc ((hiff y hy hyn).mpr hr))
  | none hempty =>
      exact .none (fun y hy hyn hyc hr => hempty y hy hyn hyc ((hiff y hy hyn).mpr hr))

/-- The position behind `c` is picked whenever it is ready. -/
theorem next (hle : c + 1 ≤ n) (hready : ready (c + 1)) : Picks n ready c (c + 1) := by
  apply found (by omega) hle (by omega) hready
  intro y hpos _ hne _
  unfold Ahead
  split <;> omega

/-- So is the only other position that is ready. -/
theorem only (hpos : 1 ≤ x) (hle : x ≤ n) (hne : x ≠ c) (hready : ready x)
    (honly : ∀ i, ready i → i ≠ c → i = x) : Picks n ready c x := by
  apply found hpos hle hne hready
  intro y _ _ hyc hy
  rw [honly y hy hyc]
  exact ahead_target c x

theorem le (h : Picks n ready c x) : x ≤ n := by
  cases h with
  | found _ hle => exact hle
  | none => exact Nat.zero_le n

theorem ready_of_pos (h : Picks n ready c x) (hx : x ≠ 0) : ready x := by
  cases h with
  | found _ _ _ hready => exact hready
  | none => exact absurd rfl hx

/-- While some position waits, the answer is never "nobody" and never beyond
that position. -/
theorem ahead (h : Picks n ready c x) (hpos : 1 ≤ t) (hle : t ≤ n)
    (hne : t ≠ c) (hready : ready t) : 1 ≤ x ∧ Ahead c t x := by
  cases h with
  | found hx _ _ _ hfirst => exact ⟨hx, hfirst t hpos hle hne hready⟩
  | none hempty => exact absurd hready (hempty t hpos hle hne)

/-- The answer is determined. -/
theorem unique {y : Nat} (hx : Picks n ready c x) (hy : Picks n ready c y) : x = y := by
  cases hx with
  | none hempty =>
      cases hy with
      | none => rfl
      | found hpos hle hne hready => exact absurd hready (hempty _ hpos hle hne)
  | found hpos hle hne hready hfirst =>
      cases hy with
      | none hempty => exact absurd hready (hempty _ hpos hle hne)
      | found hpos' hle' hne' hready' hfirst' =>
          have hxy := hfirst _ hpos' hle' hne' hready'
          have hyx := hfirst' _ hpos hle hne hready
          unfold Ahead at hxy hyx
          split at hxy <;> split at hyx <;> omega

end Picks

/-- The positions `1..n` in the order they are met walking upwards from `c`, and
round from the last one to `1`; `c` itself is left out. -/
def order (n c : Nat) : List Nat :=
  List.range' (c + 1) (n - c) ++ List.range' 1 (c - 1)

section Order

variable {n c : Nat}

theorem mem_order (hc : c ≤ n) (y : Nat) : y ∈ order n c ↔ 1 ≤ y ∧ y ≤ n ∧ y ≠ c := by
  simp only [order, List.mem_append, List.mem_range'_1]
  omega

/-- An ascending stretch that does not pass `c`. -/
theorem range_pairwise {start count : Nat} (hside : c < start ∨ start + count ≤ c) :
    (List.range' start count).Pairwise fun x y => Ahead c y x := by
  apply (List.pairwise_lt_range' (s := start) (n := count)).imp_of_mem
  intro x y hx hy hlt
  rw [List.mem_range'_1] at hx hy
  unfold Ahead
  split <;> omega

/-- Of two positions, the one listed first is met no later. -/
theorem order_pairwise (n c : Nat) : (order n c).Pairwise fun x y => Ahead c y x := by
  refine List.pairwise_append.mpr ⟨range_pairwise (by omega), ?_, ?_⟩
  · cases c with
    | zero => simp
    | succ c => exact range_pairwise (by omega)
  · intro x hx y hy
    rw [List.mem_range'_1] at hx hy
    unfold Ahead
    split <;> omega

/-- The answer of an arbiter is what a search through that order finds. -/
theorem picks_find (ready : Nat → Bool) (hc : c ≤ n) :
    Picks n (fun i => ready i = true) c (((order n c).find? ready).getD 0) := by
  cases hfind : (order n c).find? ready with
  | none =>
      apply Picks.none
      intro y hpos hle hne
      exact List.find?_eq_none.mp hfind y ((mem_order hc y).mpr ⟨hpos, hle, hne⟩)
  | some x =>
      obtain ⟨hready, before, after, hsplit, hbefore⟩ := List.find?_eq_some_iff_append.mp hfind
      have hpairs := order_pairwise n c
      have hx : x ∈ order n c := by simp [hsplit]
      obtain ⟨hpos, hle, hne⟩ := (mem_order hc x).mp hx
      refine .found hpos hle hne hready ?_
      intro y hy hyn hyc hyr
      have hmem := (mem_order hc y).mpr ⟨hy, hyn, hyc⟩
      rw [hsplit] at hmem hpairs
      rcases List.mem_append.mp hmem with hearly | hlate
      · exact absurd hyr (by simpa using hbefore y hearly)
      · rcases List.mem_cons.mp hlate with rfl | hafter
        · exact ahead_target c y
        · exact List.rel_of_pairwise_cons (List.pairwise_append.mp hpairs).2.1 hafter

end Order

/-- Successive answers of an arbiter that starts at `c` while `t` waits and is
not served: each one lies ahead of the one before it. -/
def Chase (t : Nat) : Nat → List Nat → Prop
  | _, [] => True
  | c, x :: xs => Ahead c t x ∧ x ≠ t ∧ Chase t x xs

theorem Chase.ahead {t c : Nat} {xs : List Nat} (h : Chase t c xs) :
    ∀ x ∈ xs, Ahead c t x := by
  induction xs generalizing c with
  | nil => simp
  | cons y ys ih =>
      obtain ⟨hy, hne, htail⟩ := h
      intro x hx
      rcases List.mem_cons.mp hx with rfl | hmem
      · exact hy
      · exact hy.mono hne (ih htail x hmem)

theorem Chase.not_mem {t c : Nat} {xs : List Nat} (h : Chase t c xs)
    (hne : c ≠ t) : c ∉ xs :=
  fun hmem => not_ahead_self hne (h.ahead c hmem)

/-- Nobody is served twice while `t` waits. -/
theorem Chase.nodup {t c : Nat} {xs : List Nat} (h : Chase t c xs) : xs.Nodup := by
  induction xs generalizing c with
  | nil => exact List.nodup_nil
  | cons y ys ih =>
      obtain ⟨_, hne, htail⟩ := h
      exact List.nodup_cons.mpr ⟨htail.not_mem hne, ih htail⟩

theorem Chase.target_not_mem {t c : Nat} {xs : List Nat} (h : Chase t c xs) :
    t ∉ xs := by
  induction xs generalizing c with
  | nil => simp
  | cons y ys ih =>
      obtain ⟨_, hne, htail⟩ := h
      simp only [List.mem_cons, not_or]
      exact ⟨hne.symm, ih htail⟩

/-- Among `n` positions the wait lasts at most `n - 1` answers. -/
theorem Chase.length_lt {t c n : Nat} {xs : List Nat} (h : Chase t c xs)
    (hpos : 1 ≤ t) (hle : t ≤ n) (hrange : ∀ x ∈ xs, 1 ≤ x ∧ x ≤ n) :
    xs.length < n := by
  have hsub : (t :: xs).toFinset ⊆ Finset.Icc 1 n := by
    intro x hx
    rcases List.mem_cons.mp (List.mem_toFinset.mp hx) with rfl | hmem
    · exact Finset.mem_Icc.mpr ⟨hpos, hle⟩
    · exact Finset.mem_Icc.mpr (hrange x hmem)
  have hnodup : (t :: xs).Nodup := List.nodup_cons.mpr ⟨h.target_not_mem, h.nodup⟩
  have hcard := Finset.card_le_card hsub
  rw [List.toFinset_card_of_nodup hnodup, Nat.card_Icc, List.length_cons] at hcard
  omega

end RoundRobin
