import LeonOS.Lib.Rust

/-!
# Precise errors

A computation fails *precisely* when an error leaves the state as it was in the beginning.  Two
computations in sequence fail precisely in one of two cases: the first changes nothing, neither when
it fails nor when it returns (`Reads`), or the second does not fail (`Infallible`).  So a computation
that does its checks first is precise, and `Reads.then` and `Precise.then` show it step by step, up
to the first change and from there on.

A panic is not an error here.  The errors that are meant satisfy a predicate.
-/

set_option autoImplicit false

namespace Rust

variable {ε α β : Type} {E : ε → Prop} {x : Rust ε α} {f : α → Rust ε β}

/-- The errors of a computation without a state. -/
def Raises (E : ε → Prop) (x : Rust ε α) : Prop := ∀ e, x = .error (.err e) → E e

theorem raises_ok (a : α) : Raises E (.ok a : Rust ε α) := fun _ h ↦ nomatch h

theorem raises_fail {e : ε} (h : E e) : Raises E (fail e : Rust ε α) := fun e' he ↦ by
  cases he
  exact h

theorem raises_okOr {e : ε} (h : E e) (o : Option α) : Raises E (okOr o e) := by
  cases o with
  | some a => exact raises_ok a
  | none => exact raises_fail h

theorem raises_failIf {e : ε} (h : E e) (c : Prop) [Decidable c] : Raises E (failIf c e) := by
  rw [failIf]
  split
  · exact raises_fail h
  · exact raises_ok ()

theorem Raises.bind (hx : Raises E x) (hf : ∀ a, Raises E (f a)) : Raises E (x >>= f) := by
  intro e h
  cases hrun : x with
  | ok a =>
    rw [hrun] at h
    exact hf a e h
  | error e' =>
    rw [hrun] at h
    cases h
    exact hx e hrun

theorem Raises.ite {c : Prop} [Decidable c] {y : Rust ε α} (hx : Raises E x) (hy : Raises E y) :
    Raises E (if c then x else y) := by
  split
  · exact hx
  · exact hy

/-! ### What can only panic -/

theorem raises_add (a b : ℕ) : Raises E (add a b : Rust ε ℕ) :=
  .ite (raises_ok _) fun _ h ↦ nomatch h

theorem raises_addWord (a : U64) (n : ℕ) : Raises E (addWord a n : Rust ε U64) :=
  .ite (raises_ok _) fun _ h ↦ nomatch h

theorem raises_addSigned (a d : U64) : Raises E (addSigned a d : Rust ε U64) :=
  .ite (fun _ h ↦ nomatch h) (raises_ok _)

theorem raises_index (xs : List α) (i : ℕ) : Raises E (index xs i : Rust ε α) := by
  rw [index]
  split
  · exact raises_ok _
  · exact fun _ h ↦ nomatch h

theorem raises_range (xs : List α) (i j : ℕ) : Raises E (range xs i j : Rust ε (List α)) :=
  .ite (raises_ok _) fun _ h ↦ nomatch h

theorem raises_copyFromSlice (xs : List α) (i j : ℕ) (ys : List α) :
    Raises E (copyFromSlice xs i j ys : Rust ε (List α)) :=
  .ite (raises_ok _) fun _ h ↦ nomatch h

theorem raises_setIndex (xs : List α) (i : ℕ) (a : α) :
    Raises E (setIndex xs i a : Rust ε (List α)) :=
  .ite (raises_ok _) fun _ h ↦ nomatch h

end Rust

namespace RustM

open Rust

variable {ε σ α β : Type} {E : ε → Prop} {x : RustM ε σ α} {f : α → RustM ε σ β}

/-- **No error**: the computation returns or panics. -/
def Infallible (x : RustM ε σ α) : Prop := ∀ s e s', x s ≠ .error (.err e) s'

/-- **Precise**: after an error the state is the one from before. -/
def Precise (E : ε → Prop) (x : RustM ε σ α) : Prop :=
  ∀ s e s', x s = .error (.err e) s' → s' = s ∧ E e

/-- **A read**: the state stays as it is. -/
structure Reads (E : ε → Prop) (x : RustM ε σ α) : Prop where
  /-- The state after an error. -/
  precise : Precise E x
  /-- The state after a return. -/
  same : ∀ s a s', x s = .ok a s' → s' = s

/-! ## No error -/

theorem infallible_pure (a : α) : Infallible (pure a : RustM ε σ α) := fun _ _ _ h ↦ nomatch h

theorem infallible_modify (f : σ → σ) : Infallible (modify f : RustM ε σ PUnit) :=
  fun _ _ _ h ↦ nomatch h

theorem infallible_get : Infallible (get : RustM ε σ σ) := fun _ _ _ h ↦ nomatch h

theorem infallible_lift {x : Rust ε α} (h : Raises (fun _ ↦ False) x) :
    Infallible (lift x : RustM ε σ α) := fun s e s' hx ↦ by
  cases x with
  | ok a => exact nomatch hx
  | error e' =>
    cases hx
    exact h e rfl

theorem bind_eq_err {s s' : σ} {e : ε} : (x >>= f) s = .error (.err e) s' ↔
    x s = .error (.err e) s' ∨ ∃ a s₁, x s = .ok a s₁ ∧ f a s₁ = .error (.err e) s' := by
  rw [bind_apply]
  cases x s with
  | ok a s₁ => simp
  | error e' s₁ => simp

theorem Infallible.bind (hx : Infallible x) (hf : ∀ a, Infallible (f a)) : Infallible (x >>= f) :=
  fun s e s' h ↦ by
    rcases bind_eq_err.mp h with h | ⟨a, s₁, -, h⟩
    · exact hx s e s' h
    · exact hf a s₁ e s' h

theorem Infallible.ite {c : Prop} [Decidable c] {y : RustM ε σ α} (hx : Infallible x)
    (hy : Infallible y) : Infallible (if c then x else y) := by
  split
  · exact hx
  · exact hy

theorem Infallible.precise (hx : Infallible x) : Precise E x :=
  fun s e s' h ↦ absurd h (hx s e s')

/-! ## Reads -/

theorem reads_pure (a : α) : Reads E (pure a : RustM ε σ α) where
  precise := (infallible_pure a).precise
  same _ _ _ h := (pure_eq_ok.mp h).2

theorem reads_get : Reads E (get : RustM ε σ σ) where
  precise := infallible_get.precise
  same _ _ _ h := by
    cases h
    rfl

theorem reads_lift {x : Rust ε α} (h : Raises E x) :
    Reads E (lift x : RustM ε σ α) where
  precise s e s' hx := by
    cases x with
    | ok a => exact nomatch hx
    | error e' =>
      cases hx
      exact ⟨rfl, h e rfl⟩
  same s a s' hx := (lift_eq_ok.mp hx).2

theorem Reads.bind (hx : Reads E x) (hf : ∀ a, Reads E (f a)) : Reads E (x >>= f) where
  precise s e s' h := by
    rcases bind_eq_err.mp h with hx' | ⟨a, s₁, hx', hf'⟩
    · exact hx.precise s e s' hx'
    · obtain rfl := hx.same s a s₁ hx'
      exact (hf a).precise s₁ e s' hf'
  same s b s' h := by
    obtain ⟨a, s₁, hx', hf'⟩ := bind_eq_ok.mp h
    obtain rfl := hx.same s a s₁ hx'
    exact (hf a).same s₁ b s' hf'

/-! ## Precise errors -/

/-- **Up to the first change**: what comes first reads. -/
theorem Reads.then (hx : Reads E x) (hf : ∀ a, Precise E (f a)) : Precise E (x >>= f) :=
  fun s e s' h ↦ by
    rcases bind_eq_err.mp h with hx' | ⟨a, s₁, hx', hf'⟩
    · exact hx.precise s e s' hx'
    · obtain rfl := hx.same s a s₁ hx'
      exact hf a s₁ e s' hf'

/-- **From the first change on**: what comes then does not fail. -/
theorem Precise.then (hx : Precise E x) (hf : ∀ a, Infallible (f a)) : Precise E (x >>= f) :=
  fun s e s' h ↦ by
    rcases bind_eq_err.mp h with h | ⟨a, s₁, -, h⟩
    · exact hx s e s' h
    · exact absurd h (hf a s₁ e s')

theorem Precise.ite {c : Prop} [Decidable c] {y : RustM ε σ α} (hx : Precise E x)
    (hy : Precise E y) : Precise E (if c then x else y) := by
  split
  · exact hx
  · exact hy

theorem Precise.map {g : α → β} (hx : Precise E x) : Precise E (g <$> x) := by
  rw [← bind_pure_comp]
  exact hx.then fun a ↦ infallible_pure (g a)

end RustM
