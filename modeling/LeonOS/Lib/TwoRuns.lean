import LeonOS.Lib.Rust

/-!
# Two runs of one computation

`RustM.Agrees R x` says that two runs of `x` from states that `R` relates end alike: both return the
same value, or both have the same fault, and `R` relates what they leave.  So nothing that `R` does
not relate has been looked at.

There is a rule for each way of building a computation.  Where the two runs look at the state, the
rule `Alike.bind` takes two computations, which the equations of `R` then make one.
-/

set_option autoImplicit false

namespace RustM

variable {ε σ α β : Type} {R : σ → σ → Prop} {x y : RustM ε σ α} {f g : α → RustM ε σ β} {s t : σ}

/-- **Two ends of runs are alike.** -/
inductive Alike (R : σ → σ → Prop) :
    EStateM.Result (Fault ε) σ α → EStateM.Result (Fault ε) σ α → Prop
  | ok {a : α} {s t : σ} (h : R s t) : Alike R (.ok a s) (.ok a t)
  | error {e : Fault ε} {s t : σ} (h : R s t) : Alike R (.error e s) (.error e t)

/-- Both have returned the same, or both have failed with the same. -/
theorem Alike.ends {r r' : EStateM.Result (Fault ε) σ α} (h : Alike R r r') :
    (∃ a s t, r = .ok a s ∧ r' = .ok a t ∧ R s t) ∨
      ∃ e s t, r = .error e s ∧ r' = .error e t ∧ R s t := by
  cases h with
  | ok h => exact .inl ⟨_, _, _, rfl, rfl, h⟩
  | error h => exact .inr ⟨_, _, _, rfl, rfl, h⟩

/-- **Runs from related states end alike.** -/
def Agrees (R : σ → σ → Prop) (x : RustM ε σ α) : Prop := ∀ s t, R s t → Alike R (x s) (x t)

theorem Alike.bind (hx : Alike R (x s) (y t))
    (hf : ∀ a s' t', R s' t' → Alike R (f a s') (g a t')) :
    Alike R ((x >>= f) s) ((y >>= g) t) := by
  rw [bind_apply, bind_apply]
  obtain ⟨a, s', t', hx', hy', h⟩ | ⟨e, s', t', hx', hy', h⟩ := hx.ends
  · rw [hx', hy']
    exact hf a s' t' h
  · rw [hx', hy']
    exact .error h

theorem agrees_pure (a : α) : Agrees R (pure a : RustM ε σ α) := fun _ _ h ↦ .ok h

theorem agrees_lift (x : Rust ε α) : Agrees R (lift x : RustM ε σ α) := fun s t h ↦ by
  cases x with
  | ok a => exact .ok h
  | error e => exact .error h

theorem agrees_modify {f : σ → σ} (hf : ∀ s t, R s t → R (f s) (f t)) :
    Agrees R (modify f : RustM ε σ PUnit) := fun s t h ↦ .ok (hf s t h)

theorem Agrees.bind (hx : Agrees R x) (hf : ∀ a, Agrees R (f a)) : Agrees R (x >>= f) :=
  fun s t h ↦ (hx s t h).bind fun a s' t' h' ↦ hf a s' t' h'

theorem Agrees.ite {c : Prop} [Decidable c] (hx : Agrees R x) (hy : Agrees R y) :
    Agrees R (if c then x else y) := by
  split
  · exact hx
  · exact hy

end RustM
