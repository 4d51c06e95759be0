import Mathlib.Tactic

/-!
Computations that record events. The record is kept even where the computation
does not end, so that a property of all events covers what happened before a
loop ran out of its bound. Forgetting the events gives the computation back;
checking them gives one that has no answer once an event was not allowed.
-/

/-- What happened, and the answer if there is one. -/
structure Trace (ε α : Type*) where
  events : List ε
  result : Option α

namespace Trace

variable {ε δ α β : Type*}

/-- A computation without events. -/
def lift (x : Option α) : Trace ε α :=
  ⟨[], x⟩

def pure (a : α) : Trace ε α :=
  lift (some a)

/-- One event, and then the rest. -/
def step (e : ε) (x : Trace ε α) : Trace ε α :=
  ⟨e :: x.events, x.result⟩

def bind (x : Trace ε α) (f : α → Trace ε β) : Trace ε β :=
  match x.result with
  | none => ⟨x.events, none⟩
  | some a => ⟨x.events ++ (f a).events, (f a).result⟩

def map (f : α → β) (x : Trace ε α) : Trace ε β :=
  ⟨x.events, x.result.map f⟩

/-- The same computation with the events seen another way. -/
def observe (f : List ε → List δ) (x : Trace ε α) : Trace δ α :=
  ⟨f x.events, x.result⟩

/-- Every recorded event has the property. -/
def All (P : ε → Prop) (x : Trace ε α) : Prop :=
  ∀ e ∈ x.events, P e

/-- The answer, if every recorded event has the property. -/
def checked (P : ε → Prop) [DecidablePred P] (x : Trace ε α) : Option α :=
  if ∀ e ∈ x.events, P e then x.result else none

/-- The record of a computation that loses its answer in the check. -/
def check (P : ε → Prop) [DecidablePred P] (x : Trace ε α) : Trace ε α :=
  ⟨x.events, x.checked P⟩

/-- Events cut where a round starts: what comes before the first round, and what
comes in each, with the label of its start. -/
def cut (start : ε → Option δ) : List ε → List ε × List (δ × List ε)
  | [] => ([], [])
  | e :: es =>
      match start e with
      | some d => ([], (d, (cut start es).1) :: (cut start es).2)
      | none => (e :: (cut start es).1, (cut start es).2)

section Result

variable (e : ε) (a : α) (x : Trace ε α)

@[simp] theorem result_lift (y : Option α) : (lift y : Trace ε α).result = y := rfl

@[simp] theorem result_pure : (pure a : Trace ε α).result = some a := rfl

@[simp] theorem result_step : (step e x).result = x.result := rfl

@[simp] theorem result_map (f : α → β) : (x.map f).result = x.result.map f := rfl

@[simp] theorem result_bind (f : α → Trace ε β) :
    (x.bind f).result = x.result.bind (fun a => (f a).result) := by
  rw [bind]
  cases x.result with
  | none => rfl
  | some a => rfl

@[simp] theorem result_observe (f : List ε → List δ) : (x.observe f).result = x.result := rfl

@[simp] theorem events_lift (y : Option α) : (lift y : Trace ε α).events = [] := rfl

@[simp] theorem events_pure : (pure a : Trace ε α).events = [] := rfl

@[simp] theorem events_step : (step e x).events = e :: x.events := rfl

@[simp] theorem events_map (f : α → β) : (x.map f).events = x.events := rfl

@[simp] theorem events_observe (f : List ε → List δ) :
    (x.observe f).events = f x.events := rfl

@[simp] theorem result_check (P : ε → Prop) [DecidablePred P] :
    (x.check P).result = x.checked P := rfl

@[simp] theorem events_check (P : ε → Prop) [DecidablePred P] :
    (x.check P).events = x.events := rfl

@[simp] theorem pure_bind (f : α → Trace ε β) : (pure a : Trace ε α).bind f = f a := rfl

@[simp] theorem lift_some_bind (f : α → Trace ε β) :
    (lift (some a) : Trace ε α).bind f = f a := rfl

@[simp] theorem step_bind (f : α → Trace ε β) : (step e x).bind f = step e (x.bind f) := by
  unfold bind step
  cases x.result with
  | none => rfl
  | some a => rfl

theorem mk_some_bind (events : List ε) (f : α → Trace ε β) :
    bind ⟨events, some a⟩ f = ⟨events ++ (f a).events, (f a).result⟩ := rfl

theorem events_bind_some {x : Trace ε α} {a : α} (h : x.result = some a) (f : α → Trace ε β) :
    (x.bind f).events = x.events ++ (f a).events := by
  rw [bind, h]

theorem events_bind_none {x : Trace ε α} (h : x.result = none) (f : α → Trace ε β) :
    (x.bind f).events = x.events := by
  rw [bind, h]

/-- What has happened stays recorded. -/
theorem exists_events_bind (x : Trace ε α) (f : α → Trace ε β) :
    ∃ more, (x.bind f).events = x.events ++ more := by
  cases hres : x.result with
  | none => exact ⟨[], by rw [bind, hres, List.append_nil]⟩
  | some a => exact ⟨(f a).events, events_bind_some hres f⟩

end Result

section Cut

variable {start : ε → Option δ}

theorem cut_start {e : ε} {d : δ} (h : start e = some d) (es : List ε) :
    cut start (e :: es) = ([], (d, (cut start es).1) :: (cut start es).2) := by
  simp [cut, h]

/-- Events that start no round belong to the one before. -/
theorem cut_append {es : List ε} (h : ∀ e ∈ es, start e = none) (more : List ε) :
    cut start (es ++ more) = (es ++ (cut start more).1, (cut start more).2) := by
  induction es with
  | nil => rfl
  | cons e es ih =>
      obtain ⟨he, hes⟩ := List.forall_mem_cons.mp h
      simp [cut, he, ih hes]

end Cut

section All

variable {P : ε → Prop} {x : Trace ε α}

theorem All.pure (a : α) : All P (Trace.pure a) :=
  nofun

theorem All.step {e : ε} (he : P e) (hx : All P x) : All P (Trace.step e x) := by
  intro e' h
  rcases List.mem_cons.mp h with rfl | hmem
  · exact he
  · exact hx e' hmem

theorem All.map (f : α → β) (hx : All P x) : All P (x.map f) :=
  hx

/-- Sequencing. -/
theorem All.bind {f : α → Trace ε β} (hx : All P x)
    (hf : ∀ a, x.result = some a → All P (f a)) : All P (x.bind f) := by
  rw [Trace.bind]
  cases hres : x.result with
  | none => exact hx
  | some a =>
      intro e he
      rcases List.mem_append.mp he with hmem | hmem
      · exact hx e hmem
      · exact hf a hres e hmem

theorem All.lift_bind {y : Option α} {f : α → Trace ε β}
    (hf : ∀ a, y = some a → All P (f a)) : All P ((Trace.lift y).bind f) :=
  All.bind (fun _ h => absurd h List.not_mem_nil) hf

theorem All.ite {p : Prop} [Decidable p] {x y : Trace ε α} (hx : p → All P x)
    (hy : ¬ p → All P y) : All P (if p then x else y) := by
  split
  · rename_i hp
    exact hx hp
  · rename_i hp
    exact hy hp

end All

section Checked

variable {P : ε → Prop} [DecidablePred P] {x : Trace ε α}

theorem checked_of_all (h : All P x) : x.checked P = x.result :=
  if_pos h

theorem checked_of_not (h : ¬ All P x) : x.checked P = none :=
  if_neg h

theorem checked_of_none (h : x.result = none) : x.checked P = none := by
  rw [checked, h]
  split
  · rfl
  · rfl

theorem checked_pure (a : α) : (pure a : Trace ε α).checked P = some a :=
  checked_of_all (.pure a)

/-- A check of the whole is a check of each part. -/
theorem checked_bind (x : Trace ε α) (f : α → Trace ε β) :
    (x.bind f).checked P = (x.checked P).bind fun a => (f a).checked P := by
  cases hres : x.result with
  | none =>
      have hbind : (x.bind f).result = none := by rw [result_bind, hres, Option.bind_none]
      rw [checked_of_none hbind, checked_of_none hres, Option.bind_none]
  | some a =>
      by_cases hx : All P x
      · rw [checked_of_all hx, hres, Option.bind_some, checked, checked, events_bind_some hres,
          result_bind, hres, Option.bind_some]
        congr 1
        simp only [List.forall_mem_append, eq_iff_iff, and_iff_right_iff_imp]
        exact fun _ => hx
      · have hnot : ¬ All P (x.bind f) := by
          rw [All, events_bind_some hres]
          exact fun h => hx (List.forall_mem_append.mp h).1
        rw [checked_of_not hnot, checked_of_not hx, Option.bind_none]

theorem checked_map (f : α → β) : (x.map f).checked P = (x.checked P).map f := by
  by_cases h : All P x
  · rw [checked_of_all h, checked_of_all (h.map f), result_map]
  · rw [checked_of_not h, checked_of_not (x := x.map f) h, Option.map_none]

end Checked

end Trace
