import Mathlib.Tactic

/-!
Labelled transition systems, their finite paths and their invariants. A path
keeps every event it takes, so that a property of a whole run can speak about
the states before and after each step as well as about the labels. Nothing
here is about one program: the systems of this development are instances.
-/

namespace Transition

variable {σ τ α γ : Type*}

/-- Initial states and a step relation labelled by what happened. -/
structure System (σ α : Type*) where
  init : σ → Prop
  step : σ → α → σ → Prop

/-- One step of a run, with the states on both sides of it. -/
structure Event (σ α : Type*) where
  pre : σ
  label : α
  post : σ

/-- `Path M s tr t` : the events `tr`, in order, lead from `s` to `t`. -/
inductive Path (M : System σ α) : σ → List (Event σ α) → σ → Prop where
  | nil (s : σ) : Path M s [] s
  | cons {s t u : σ} {a : α} {tr : List (Event σ α)} :
      M.step s a t → Path M t tr u → Path M s (⟨s, a, t⟩ :: tr) u

def Reachable (M : System σ α) (s : σ) : Prop :=
  ∃ s₀ tr, M.init s₀ ∧ Path M s₀ tr s

namespace Path

variable {M : System σ α} {s t u : σ} {tr tr' : List (Event σ α)}

theorem single {a : α} (h : M.step s a t) : Path M s [⟨s, a, t⟩] t :=
  .cons h (.nil t)

theorem append (first : Path M s tr t) (second : Path M t tr' u) :
    Path M s (tr ++ tr') u := by
  induction first with
  | nil => exact second
  | cons hstep _ ih => exact .cons hstep (ih second)

theorem snoc {a : α} (first : Path M s tr t) (h : M.step t a u) :
    Path M s (tr ++ [⟨t, a, u⟩]) u :=
  first.append (single h)

/-- A path can be cut at every point of its event list. -/
theorem split (h : Path M s (tr ++ tr') u) :
    ∃ t, Path M s tr t ∧ Path M t tr' u := by
  induction tr generalizing s with
  | nil => exact ⟨s, .nil s, h⟩
  | cons e rest ih =>
      cases h with
      | cons hstep htail =>
          obtain ⟨t, hfirst, hsecond⟩ := ih htail
          exact ⟨t, .cons hstep hfirst, hsecond⟩

theorem cons_inv {e : Event σ α} (h : Path M s (e :: tr) u) :
    e.pre = s ∧ M.step s e.label e.post ∧ Path M e.post tr u := by
  cases h with
  | cons hstep htail => exact ⟨rfl, hstep, htail⟩

theorem nil_inv (h : Path M s [] u) : s = u := by
  cases h
  rfl

/-- Where the event list can be cut at `e`, the path passes through the
states of `e`. -/
theorem split_cons {e : Event σ α} (h : Path M s (tr ++ e :: tr') u) :
    Path M s tr e.pre ∧ M.step e.pre e.label e.post ∧ Path M e.post tr' u := by
  obtain ⟨t, hfirst, hsecond⟩ := h.split
  obtain ⟨rfl, hstep, htail⟩ := hsecond.cons_inv
  exact ⟨hfirst, hstep, htail⟩

/-- What every step keeps, every path keeps. -/
theorem preserves {P : σ → Prop}
    (hstep : ∀ s a t, P s → M.step s a t → P t)
    (h : Path M s tr u) (hs : P s) : P u := by
  induction h with
  | nil => exact hs
  | cons hone _ ih => exact ih (hstep _ _ _ hs hone)

theorem reachable (hs : Reachable M s) (h : Path M s tr t) : Reachable M t := by
  obtain ⟨s₀, tr₀, hinit, hpath⟩ := hs
  exact ⟨s₀, tr₀ ++ tr, hinit, hpath.append h⟩

theorem event_reachable (hs : Reachable M s) (h : Path M s tr t)
    {e : Event σ α} (he : e ∈ tr) :
    Reachable M e.pre ∧ M.step e.pre e.label e.post ∧ Reachable M e.post := by
  obtain ⟨before, after, rfl⟩ := List.append_of_mem he
  obtain ⟨hfirst, hone, _⟩ := h.split_cons
  have hpre : Reachable M e.pre := hfirst.reachable hs
  exact ⟨hpre, hone, (single hone).reachable hpre⟩

/-- A property of the events that keeps `P` holds along a whole path if and only
if the condition does that decides it in the states of `P`. -/
theorem forall_iff {P : σ → Prop} {property condition : Event σ α → Prop}
    (hiff : ∀ s a t, P s → M.step s a t → (property ⟨s, a, t⟩ ↔ condition ⟨s, a, t⟩))
    (hkeep : ∀ s a t, P s → M.step s a t → property ⟨s, a, t⟩ → P t)
    (h : Path M s tr u) (hs : P s) :
    (∀ e ∈ tr, property e) ↔ ∀ e ∈ tr, condition e := by
  induction h with
  | nil => simp
  | @cons s t u a tr hstep _ ih =>
      have hfirst := hiff s a t hs hstep
      rw [List.forall_mem_cons, List.forall_mem_cons, ← hfirst]
      constructor
      · rintro ⟨hone, hrest⟩
        exact ⟨hone, (ih (hkeep s a t hs hstep hone)).mp hrest⟩
      · rintro ⟨hone, hrest⟩
        exact ⟨hone, (ih (hkeep s a t hs hstep hone)).mpr hrest⟩

/-- Induction along a path with an invariant of the reachable states and a
value accumulated from the events. -/
theorem accumulate {P : σ → List (Event σ α) → Prop}
    (h : Path M s tr u) (hs : P s [])
    (hstep : ∀ (done : List (Event σ α)) (t : σ) (a : α) (t' : σ),
      Path M s done t → P t done → M.step t a t' → P t' (done ++ [⟨t, a, t'⟩])) :
    P u tr := by
  induction tr using List.reverseRecOn generalizing u with
  | nil =>
      rw [← h.nil_inv]
      exact hs
  | append_singleton done e ih =>
      obtain ⟨hfirst, hone, htail⟩ := h.split_cons
      rw [← htail.nil_inv]
      exact hstep done e.pre e.label e.post hfirst (ih hfirst) hone

end Path

/-- An inductive invariant. -/
structure Invariant (M : System σ α) (P : σ → Prop) : Prop where
  init : ∀ s, M.init s → P s
  step : ∀ s a t, P s → M.step s a t → P t

theorem Invariant.reachable {M : System σ α} {P : σ → Prop}
    (h : Invariant M P) {s : σ} (hs : Reachable M s) : P s := by
  obtain ⟨s₀, tr, hinit, hpath⟩ := hs
  exact hpath.preserves h.step (h.init s₀ hinit)

theorem reachable_init {M : System σ α} {s : σ} (h : M.init s) : Reachable M s :=
  ⟨s, [], h, .nil s⟩

theorem Reachable.next {M : System σ α} {s t : σ} {a : α}
    (hs : Reachable M s) (h : M.step s a t) : Reachable M t :=
  (Path.single h).reachable hs

/-- An invariant may assume another one that is already known. -/
theorem Invariant.under {M : System σ α} {P Q : σ → Prop} (hP : Invariant M P)
    (hinit : ∀ s, M.init s → Q s)
    (hstep : ∀ s a t, P s → Q s → M.step s a t → Q t) :
    Invariant M (fun s => P s ∧ Q s) where
  init s h := ⟨hP.init s h, hinit s h⟩
  step s a t h hone := ⟨hP.step s a t h.1 hone, hstep s a t h.1 h.2 hone⟩

/-- A system watched by an observer: `guard` says which labels the observed
discipline allows, `record` how the history value follows a step. -/
def System.observed (M : System σ α) (start : γ)
    (guard : γ → σ → α → Prop) (record : γ → σ → α → σ → γ) :
    System (σ × γ) α where
  init p := M.init p.1 ∧ p.2 = start
  step p a q := guard p.2 p.1 a ∧ M.step p.1 a q.1 ∧ q.2 = record p.2 p.1 a q.1

/-- An invariant of a system is one of the observed system. -/
theorem Invariant.observed {M : System σ α} {P : σ → Prop} (h : Invariant M P) (start : γ)
    (guard : γ → σ → α → Prop) (record : γ → σ → α → σ → γ) :
    Invariant (M.observed start guard record) (fun p => P p.1) where
  init p hinit := h.init p.1 hinit.1
  step p a q hp hone := h.step p.1 a q.1 hp hone.2.1

/-- A system whose steps are restricted to the labels that a guard allows. -/
def System.guarded (M : System σ α) (guard : σ → α → Prop) : System σ α where
  init := M.init
  step s a t := guard s a ∧ M.step s a t

theorem path_guarded {M : System σ α} {guard : σ → α → Prop} {s t : σ} {tr : List (Event σ α)} :
    Path (M.guarded guard) s tr t ↔ Path M s tr t ∧ ∀ e ∈ tr, guard e.pre e.label := by
  constructor
  · intro h
    induction h with
    | nil s => exact ⟨.nil s, nofun⟩
    | cons hstep _ ih => exact ⟨.cons hstep.2 ih.1, List.forall_mem_cons.mpr ⟨hstep.1, ih.2⟩⟩
  · rintro ⟨h, hguard⟩
    induction h with
    | nil s => exact .nil s
    | cons hstep _ ih =>
        obtain ⟨hfirst, hlater⟩ := List.forall_mem_cons.mp hguard
        exact .cons ⟨hfirst, hstep⟩ (ih hlater)

/-- The run of a list of labels by a partial step function. -/
def run (next : σ → α → Option σ) (s : σ) : List α → Option σ
  | [] => some s
  | a :: rest => (next s a).bind (fun t => run next t rest)

/-- A step function that only takes steps of `M` runs along paths of `M`. -/
theorem run_path {M : System σ α} {next : σ → α → Option σ}
    (hnext : ∀ s a t, next s a = some t → M.step s a t) {s t : σ} {as : List α}
    (h : run next s as = some t) :
    ∃ tr, Path M s tr t ∧ tr.map Event.label = as := by
  induction as generalizing s with
  | nil =>
      obtain rfl := Option.some.inj h
      exact ⟨[], .nil s, rfl⟩
  | cons a rest ih =>
      obtain ⟨u, hone, hrest⟩ := Option.bind_eq_some_iff.mp h
      obtain ⟨tr, hpath, hlabels⟩ := ih hrest
      exact ⟨⟨s, a, u⟩ :: tr, .cons (hnext s a u hone) hpath, by rw [List.map_cons, hlabels]⟩

/-- A run that can be evaluated, and a decidable property of where it ends. -/
theorem exists_of_any {x : Option σ} {P : σ → Prop} [DecidablePred P]
    (h : x.any (fun s => decide (P s)) = true) : ∃ s, x = some s ∧ P s := by
  cases x with
  | none => cases h
  | some s => exact ⟨s, rfl, of_decide_eq_true h⟩

/-- The step function of an observed system. -/
def observe (next : σ → α → Option σ) (guard : γ → σ → α → Prop)
    [∀ g s a, Decidable (guard g s a)] (record : γ → σ → α → σ → γ)
    (p : σ × γ) (a : α) : Option (σ × γ) :=
  if guard p.2 p.1 a then (next p.1 a).map (fun t => (t, record p.2 p.1 a t)) else none

theorem observe_step {M : System σ α} {next : σ → α → Option σ}
    (hnext : ∀ s a t, next s a = some t → M.step s a t) (start : γ)
    {guard : γ → σ → α → Prop} [∀ g s a, Decidable (guard g s a)]
    {record : γ → σ → α → σ → γ} (p : σ × γ) (a : α) (q : σ × γ)
    (h : observe next guard record p a = some q) :
    (M.observed start guard record).step p a q := by
  rw [observe] at h
  split at h
  · rename_i hguard
    obtain ⟨t, hone, rfl⟩ := Option.map_eq_some_iff.mp h
    exact ⟨hguard, hnext _ _ _ hone, rfl⟩
  · cases h

end Transition
