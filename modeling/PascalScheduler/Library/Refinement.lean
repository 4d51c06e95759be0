import PascalScheduler.Library.Transition

/-!
Forward simulations between labelled transition systems. A step of the lower
system is answered by a path of the upper one, which may be empty; `seen` says
which labels that path has. Runs of the lower system are then runs of the upper
one, and what holds of every state that the upper system reaches holds of the
related states of the lower one.
-/

namespace Transition

variable {σ τ α β : Type*} {M : System σ α} {N : System τ β} {seen : Event σ α → List β}
  {R : σ → τ → Prop}

/-- `M` is simulated by `N` through the relation `R`. -/
structure Simulation (M : System σ α) (N : System τ β) (seen : Event σ α → List β)
    (R : σ → τ → Prop) : Prop where
  init : ∀ s, M.init s → ∃ u, N.init u ∧ R s u
  step : ∀ s a t u, R s u → M.step s a t →
    ∃ tr v, Path N u tr v ∧ tr.map Event.label = seen ⟨s, a, t⟩ ∧ R t v

namespace Simulation

/-- A step that is answered by no step. -/
theorem stutter {s t : σ} {a : α} {u : τ} (hseen : seen ⟨s, a, t⟩ = []) (hrel : R t u) :
    ∃ tr v, Path N u tr v ∧ tr.map Event.label = seen ⟨s, a, t⟩ ∧ R t v :=
  ⟨[], u, .nil u, hseen.symm, hrel⟩

/-- A step that is answered by one step. -/
theorem answer {s t : σ} {a : α} {u v : τ} {b : β} (hseen : seen ⟨s, a, t⟩ = [b])
    (hstep : N.step u b v) (hrel : R t v) :
    ∃ tr v, Path N u tr v ∧ tr.map Event.label = seen ⟨s, a, t⟩ ∧ R t v :=
  ⟨[⟨u, b, v⟩], v, .single hstep, hseen.symm, hrel⟩

/-- A run below is a run above, with the labels that are seen. -/
theorem path (h : Simulation M N seen R) {s t : σ} {tr : List (Event σ α)}
    (hpath : Path M s tr t) {u : τ} (hrel : R s u) :
    ∃ tr' v, Path N u tr' v ∧ tr'.map Event.label = tr.flatMap seen ∧ R t v := by
  induction hpath generalizing u with
  | nil s => exact ⟨[], u, .nil u, rfl, hrel⟩
  | cons hstep _ ih =>
      obtain ⟨first, v, hfirst, hlabel, hmid⟩ := h.step _ _ _ _ hrel hstep
      obtain ⟨rest, w, hrest, hlabels, hend⟩ := ih hmid
      refine ⟨first ++ rest, w, hfirst.append hrest, ?_, hend⟩
      rw [List.map_append, hlabel, hlabels, List.flatMap_cons]

theorem reachable (h : Simulation M N seen R) {s : σ} (hs : Reachable M s) :
    ∃ u, Reachable N u ∧ R s u := by
  obtain ⟨s₀, tr, hinit, hpath⟩ := hs
  obtain ⟨u₀, hupper, hrel⟩ := h.init s₀ hinit
  obtain ⟨tr', u, hrun, _, hend⟩ := h.path hpath hrel
  exact ⟨u, ⟨u₀, tr', hupper, hrun⟩, hend⟩

/-- Invariants come down along a simulation. -/
theorem invariant (h : Simulation M N seen R) {P : τ → Prop} {Q : σ → Prop}
    (hP : Invariant N P) (hQ : ∀ s u, R s u → P u → Q s) {s : σ} (hs : Reachable M s) :
    Q s := by
  obtain ⟨u, hu, hrel⟩ := h.reachable hs
  exact hQ s u hrel (hP.reachable hu)

end Simulation

end Transition
