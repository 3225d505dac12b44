import LeonOS.Lib.Rust

/-!
# Postconditions

What a computation with a state leaves behind.  `RustM.Ensures x s P` says that `x`, run from `s`,
can return a value and a state only if they satisfy `P`; nothing is said of a run that ends in an
error.  Being a statement about one starting state it composes like a weakest precondition: there
is an equivalence for each way of building a computation, the one for a sequence being
`ensures_bind`, and `Ensures.mono` weakens the postcondition.

A computation in the middle of another is dealt with by its own lemma through `Ensures.bind`.

`RustM.Total R x` says that every run of `x` returns, in a state that the preorder `R` relates to
the one it started from; `RustM.Keeps R x` says the second part of this for the runs that do not
panic, those that fail included.  `RustM.Panics x s` is about the others, with an equivalence for
each way of building a computation.
-/

set_option autoImplicit false

namespace RustM

variable {ε σ α β : Type} {x : RustM ε σ α} {f : α → RustM ε σ β} {s : σ}

/-- **The postcondition** of a run that returns. -/
def Ensures (x : RustM ε σ α) (s : σ) (P : α → σ → Prop) : Prop :=
  ∀ a s', x s = .ok a s' → P a s'

theorem Ensures.mono {P Q : α → σ → Prop} (h : Ensures x s P) (hpq : ∀ a s', P a s' → Q a s') :
    Ensures x s Q :=
  fun a s' hx ↦ hpq a s' (h a s' hx)

/-- A run whose result is known. -/
theorem ensures_of_eq {a : α} {s' : σ} {P : α → σ → Prop} (h : x s = .ok a s') :
    Ensures x s P ↔ P a s' := by
  refine ⟨fun hp ↦ hp a s' h, fun hp b t hb ↦ ?_⟩
  rw [h, EStateM.Result.ok.injEq] at hb
  rw [← hb.1, ← hb.2]
  exact hp

@[simp] theorem ensures_pure {a : α} {P : α → σ → Prop} :
    Ensures (pure a : RustM ε σ α) s P ↔ P a s :=
  ensures_of_eq rfl

@[simp] theorem ensures_throw {e : Fault ε} {P : α → σ → Prop} :
    Ensures (throw e : RustM ε σ α) s P :=
  fun _ _ h ↦ nomatch h

theorem ensures_bind {P : β → σ → Prop} :
    Ensures (x >>= f) s P ↔ Ensures x s fun a s' ↦ Ensures (f a) s' P := by
  constructor
  · intro h a s₁ hx b s' hf
    exact h b s' (bind_eq_ok.mpr ⟨a, s₁, hx, hf⟩)
  · intro h b s' hxf
    obtain ⟨a, s₁, hx, hf⟩ := bind_eq_ok.mp hxf
    exact h a s₁ hx b s' hf

@[simp] theorem ensures_map {g : α → β} {P : β → σ → Prop} :
    Ensures (g <$> x) s P ↔ Ensures x s fun a s' ↦ P (g a) s' := by
  rw [← bind_pure_comp, ensures_bind]
  simp [Ensures]

/-- A sequence, whose first part has a lemma of its own. -/
theorem Ensures.bind {P : α → σ → Prop} {Q : β → σ → Prop} (hx : Ensures x s P)
    (hf : ∀ a s', P a s' → Ensures (f a) s' Q) : Ensures (x >>= f) s Q :=
  ensures_bind.mpr (hx.mono hf)

@[simp] theorem ensures_get {P : σ → σ → Prop} : Ensures (get : RustM ε σ σ) s P ↔ P s s :=
  ensures_of_eq rfl

@[simp] theorem ensures_modify {f : σ → σ} {P : PUnit → σ → Prop} :
    Ensures (modify f : RustM ε σ PUnit) s P ↔ P ⟨⟩ (f s) :=
  ensures_of_eq rfl

@[simp] theorem ensures_lift {x : Rust ε α} {P : α → σ → Prop} :
    Ensures (lift x : RustM ε σ α) s P ↔ ∀ a, x = .ok a → P a s := by
  simp [Ensures]

@[simp] theorem ensures_ite {c : Prop} [Decidable c] {y : RustM ε σ α} {P : α → σ → Prop} :
    Ensures (if c then x else y) s P ↔ (c → Ensures x s P) ∧ (¬c → Ensures y s P) := by
  split <;> simp_all

/-- **Every run returns**, in a state related to the one before. -/
def Total (R : σ → σ → Prop) (x : RustM ε σ α) : Prop := ∀ s, ∃ a s', x s = .ok a s' ∧ R s s'

section Total

variable {R : σ → σ → Prop} [IsPreorder σ R]

theorem total_pure (a : α) : Total R (pure a : RustM ε σ α) := fun s ↦ ⟨a, s, rfl, refl s⟩

theorem Total.bind (hx : Total R x) (hf : ∀ a, Total R (f a)) : Total R (x >>= f) := by
  intro s
  obtain ⟨a, s₁, hrun₁, h₁⟩ := hx s
  obtain ⟨b, s₂, hrun₂, h₂⟩ := hf a s₁
  exact ⟨b, s₂, bind_eq_ok.mpr ⟨a, s₁, hrun₁, hrun₂⟩, IsTrans.trans _ _ _ h₁ h₂⟩

omit [IsPreorder σ R] in
theorem Total.ite {c : Prop} [Decidable c] {y : RustM ε σ α} (hx : Total R x) (hy : Total R y) :
    Total R (if c then x else y) := by
  split
  · exact hx
  · exact hy

end Total

/-- A run from `s` leaves a state related to `s`, unless it panics. -/
def KeepsAt (R : σ → σ → Prop) (x : RustM ε σ α) (s : σ) : Prop :=
  (∀ a s', x s = .ok a s' → R s s') ∧ ∀ e s', x s = .error (.err e) s' → R s s'

/-- **Every run that does not panic** leaves a state related to the one before. -/
def Keeps (R : σ → σ → Prop) (x : RustM ε σ α) : Prop := ∀ s, KeepsAt R x s

section Keeps

variable {R : σ → σ → Prop} [IsPreorder σ R]

theorem keeps_pure (a : α) : Keeps R (pure a : RustM ε σ α) := fun s ↦ by
  refine ⟨fun b s' h ↦ ?_, fun _ _ h ↦ nomatch h⟩
  rw [(pure_eq_ok.mp h).2]
  exact refl s

theorem keeps_throw (e : Fault ε) : Keeps R (throw e : RustM ε σ α) := fun s ↦ by
  refine ⟨fun _ _ h ↦ (nomatch h), fun e' s' h ↦ ?_⟩
  cases h
  exact refl s

theorem keeps_get : Keeps R (get : RustM ε σ σ) := fun s ↦ by
  refine ⟨fun b s' h ↦ ?_, fun _ _ h ↦ nomatch h⟩
  rw [(get_eq_ok.mp h).2]
  exact refl s

omit [IsPreorder σ R] in
theorem keeps_modify {f : σ → σ} (hf : ∀ s, R s (f s)) : Keeps R (modify f : RustM ε σ PUnit) :=
  fun s ↦ by
    refine ⟨fun b s' h ↦ ?_, fun _ _ h ↦ nomatch h⟩
    rw [modify_eq_ok.mp h]
    exact hf s

theorem keeps_lift (x : Rust ε α) : Keeps R (lift x : RustM ε σ α) := fun s ↦ by
  constructor
  · intro a s' h
    rw [(lift_eq_ok.mp h).2]
    exact refl s
  · intro e s' h
    cases x with
    | ok a => exact nomatch h
    | error e' =>
      cases h
      exact refl s

theorem Keeps.bind (hx : Keeps R x) (hf : ∀ a, Keeps R (f a)) : Keeps R (x >>= f) := by
  intro s
  rw [KeepsAt, bind_apply]
  obtain ⟨hok, herr⟩ := hx s
  cases hrun : x s with
  | ok a s₁ =>
    have h₁ := hok a s₁ hrun
    exact ⟨fun b s' h ↦ IsTrans.trans _ _ _ h₁ ((hf a s₁).1 b s' h),
      fun e s' h ↦ IsTrans.trans _ _ _ h₁ ((hf a s₁).2 e s' h)⟩
  | error e s₁ =>
    refine ⟨fun _ _ h ↦ (nomatch h), fun e' s' h ↦ ?_⟩
    cases h
    exact herr e' _ hrun

omit [IsPreorder σ R] in
theorem Keeps.ite {c : Prop} [Decidable c] {y : RustM ε σ α} (hx : Keeps R x) (hy : Keeps R y) :
    Keeps R (if c then x else y) := by
  split
  · exact hx
  · exact hy

end Keeps

/-! ## Panics -/

/-- **The run from `s` panics.** -/
def Panics (x : RustM ε σ α) (s : σ) : Prop := ∃ s', x s = .error .panic s'

theorem panics_of_eq_ok {a : α} {s' : σ} (h : x s = .ok a s') : ¬Panics x s := by
  rintro ⟨s₁, hx⟩
  exact nomatch h.symm.trans hx

/-- Where there are no errors, what does not panic returns. -/
theorem exists_ok_of_not_panics {x : RustM Empty σ α} (h : ¬Panics x s) :
    ∃ a s', x s = .ok a s' := by
  cases hx : x s with
  | ok a s' => exact ⟨a, s', rfl⟩
  | error e s' =>
    cases e with
    | err e => exact e.elim
    | panic => exact absurd ⟨s', hx⟩ h

theorem panics_bind :
    Panics (x >>= f) s ↔ Panics x s ∨ ∃ a s', x s = .ok a s' ∧ Panics (f a) s' := by
  simp only [Panics, bind_apply]
  cases x s with
  | ok a s' => simp
  | error e s' => simp

@[simp] theorem not_panics_pure {a : α} : ¬Panics (pure a : RustM ε σ α) s := panics_of_eq_ok rfl

@[simp] theorem not_panics_get : ¬Panics (get : RustM ε σ σ) s := panics_of_eq_ok rfl

@[simp] theorem not_panics_modify {f : σ → σ} : ¬Panics (modify f : RustM ε σ PUnit) s :=
  panics_of_eq_ok rfl

@[simp] theorem panics_throw {e : Fault ε} : Panics (throw e : RustM ε σ α) s ↔ e = .panic := by
  constructor
  · rintro ⟨s', h⟩
    cases h
    rfl
  · rintro rfl
    exact ⟨s, rfl⟩

@[simp] theorem panics_lift {x : Rust ε α} :
    Panics (lift x : RustM ε σ α) s ↔ x = .error .panic := by
  cases x <;> simp [Panics, lift]

@[simp] theorem panics_map {g : α → β} : Panics (g <$> x) s ↔ Panics x s := by
  rw [← bind_pure_comp, panics_bind]
  simp

theorem panics_ite {c : Prop} [Decidable c] {y : RustM ε σ α} :
    Panics (if c then x else y) s ↔ c ∧ Panics x s ∨ ¬c ∧ Panics y s := by
  split <;> simp_all

theorem Total.not_panics {R : σ → σ → Prop} (h : Total R x) (s : σ) : ¬Panics x s := by
  obtain ⟨a, s', hx, -⟩ := h s
  exact panics_of_eq_ok hx

end RustM
