import Mathlib

/-!
# Runs

A system that takes one step after another, over any type of states and of events, and what holds
in all the states of a run.

* `Trace step s es s'` says that the events `es` lead from `s` to `s'`.
* `Always step P s es` says that `P` holds wherever the run of `es` from `s` gets, at its start
  included, and `AllSteps step c s es` that each of its events meets the condition `c`.

The rule `always_iff` turns a property of all states into one of all steps: it asks for an
invariant, and for a condition that is just what a step needs to keep it.
-/

set_option autoImplicit false

namespace Runs

variable {S E : Type} {step : E → S → S → Prop} {P : S → Prop} {c : E → S → Prop}
  {s s₁ s' : S} {e : E} {es es' : List E}

/-- The events `es` lead from one state to another. -/
inductive Trace (step : E → S → S → Prop) : S → List E → S → Prop
  | nil (s : S) : Trace step s [] s
  | cons {s s₁ s' : S} {e : E} {es : List E} (hstep : step e s s₁) (hrun : Trace step s₁ es s') :
      Trace step s (e :: es) s'

theorem Trace.append (h : Trace step s es s₁) (h' : Trace step s₁ es' s') :
    Trace step s (es ++ es') s' := by
  induction h with
  | nil => exact h'
  | cons hstep _ ih => exact .cons hstep (ih h')

theorem Trace.single (h : step e s s') : Trace step s [e] s' := .cons h (.nil s')

/-- **The rule of invariants**: what every step keeps is kept by a run. -/
theorem Trace.keeps (hkeep : ∀ e s s', P s → step e s s' → P s') (h : Trace step s es s')
    (hs : P s) : P s' := by
  induction h with
  | nil => exact hs
  | cons hstep _ ih => exact ih (hkeep _ _ _ hs hstep)

/-- `P` holds in every state of the run. -/
def Always (step : E → S → S → Prop) (P : S → Prop) (s : S) (es : List E) : Prop :=
  ∀ es' s', es' <+: es → Trace step s es' s' → P s'

/-- Every event of the run meets `c` in the state in which it comes. -/
def AllSteps (step : E → S → S → Prop) (c : E → S → Prop) (s : S) (es : List E) : Prop :=
  ∀ es' e s', es' ++ [e] <+: es → Trace step s es' s' → c e s'

theorem always_nil : Always step P s [] ↔ P s := by
  constructor
  · intro h
    exact h [] s List.prefix_rfl (.nil s)
  · rintro h es' s' hes' hrun
    obtain rfl := List.prefix_nil.mp hes'
    cases hrun
    exact h

theorem always_cons :
    Always step P s (e :: es) ↔ P s ∧ ∀ s₁, step e s s₁ → Always step P s₁ es := by
  constructor
  · intro h
    refine ⟨h [] s List.nil_prefix (.nil s), fun s₁ hstep es' s' hes' hrun ↦ ?_⟩
    exact h (e :: es') s' (List.cons_prefix_cons.mpr ⟨rfl, hes'⟩) (.cons hstep hrun)
  · rintro ⟨hs, h⟩ es' s' hes' hrun
    cases hrun with
    | nil => exact hs
    | cons hstep hrun =>
      obtain ⟨rfl, htail⟩ := List.cons_prefix_cons.mp hes'
      exact h _ hstep _ s' htail hrun

theorem allSteps_nil : AllSteps step c s [] := fun es' e _ hes' _ ↦
  absurd (List.prefix_nil.mp hes') (List.append_ne_nil_of_right_ne_nil es' (List.cons_ne_nil e []))

theorem allSteps_cons :
    AllSteps step c s (e :: es) ↔ c e s ∧ ∀ s₁, step e s s₁ → AllSteps step c s₁ es := by
  constructor
  · intro h
    refine ⟨h [] e s (List.cons_prefix_cons.mpr ⟨rfl, List.nil_prefix⟩) (.nil s), ?_⟩
    intro s₁ hstep es' e' s' hes' hrun
    exact h (e :: es') e' s' (List.cons_prefix_cons.mpr ⟨rfl, hes'⟩) (.cons hstep hrun)
  · rintro ⟨hc, h⟩ es' e' s' hes' hrun
    cases hrun with
    | nil =>
      obtain ⟨rfl, -⟩ := List.cons_prefix_cons.mp hes'
      exact hc
    | cons hstep hrun =>
      obtain ⟨rfl, htail⟩ := List.cons_prefix_cons.mp hes'
      exact h _ hstep _ e' s' htail hrun

/-- An invariant that steps with a condition keep. -/
theorem always_of_allSteps (hkeep : ∀ e s s', P s → c e s → step e s s' → P s') (hs : P s)
    (h : AllSteps step c s es) : Always step P s es := by
  induction es generalizing s with
  | nil => exact always_nil.mpr hs
  | cons e es ih =>
    obtain ⟨hc, hrest⟩ := allSteps_cons.mp h
    exact always_cons.mpr
      ⟨hs, fun s₁ hstep ↦ ih (hkeep e s s₁ hs hc hstep) (hrest s₁ hstep)⟩

/-- **An invariant holds in every state exactly when every step meets its condition**, if a step
with the condition keeps the invariant and a step that keeps it has the condition. -/
theorem always_iff (hkeep : ∀ e s s', P s → c e s → step e s s' → P s')
    (hneed : ∀ e s, P s → (∀ s', step e s s' → P s') → c e s) (hs : P s) :
    Always step P s es ↔ AllSteps step c s es := by
  refine ⟨fun h ↦ ?_, always_of_allSteps hkeep hs⟩
  induction es generalizing s with
  | nil => exact allSteps_nil
  | cons e es ih =>
    obtain ⟨-, h⟩ := always_cons.mp h
    have hnext : ∀ s', step e s s' → P s' := fun s' hstep ↦
      h s' hstep [] s' List.nil_prefix (.nil s')
    exact allSteps_cons.mpr
      ⟨hneed e s hs hnext, fun s₁ hstep ↦ ih (hnext s₁ hstep) (h s₁ hstep)⟩

/-- **Two conditions are the same for the steps of a run** if they are for every step from a state
with the invariant, and a step with the condition keeps it. -/
theorem allSteps_congr {c' : E → S → Prop} (hkeep : ∀ e s s', P s → c e s → step e s s' → P s')
    (hiff : ∀ e s, P s → (c e s ↔ c' e s)) (hs : P s) :
    AllSteps step c s es ↔ AllSteps step c' s es := by
  induction es generalizing s with
  | nil => exact iff_of_true allSteps_nil allSteps_nil
  | cons e es ih =>
    rw [allSteps_cons, allSteps_cons, hiff e s hs]
    refine and_congr_right fun hc ↦ forall₂_congr fun s₁ hstep ↦ ?_
    exact ih (hkeep e s s₁ hs ((hiff e s hs).mpr hc) hstep)

/-! ## Steps that are functions -/

/-- The state that events lead to, when each has one outcome. -/
def exec (step : E → S → S) (s : S) (es : List E) : S := es.foldl (fun s e ↦ step e s) s

variable {next : E → S → S}

theorem exec_concat : exec next s (es ++ [e]) = next e (exec next s es) :=
  List.foldl_concat (fun s e ↦ next e s) s e es

/-- What every step keeps is kept by a run. -/
theorem exec_keeps (hkeep : ∀ e s, P s → P (next e s)) (hs : P s) : P (exec next s es) := by
  induction es generalizing s with
  | nil => exact hs
  | cons e es ih => exact ih (hkeep e s hs)

end Runs
