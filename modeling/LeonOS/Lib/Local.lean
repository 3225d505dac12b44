import LeonOS.Lib.TwoRuns
import Mathlib.Data.Set.Basic

/-!
# Computations that stay in a part of memory

A state is looked at through a `MemoryView`: what each address holds, which addresses have been
used, and the rest.  `Local V R W x s` says that the run of `x` from `s` reads no address outside of
`R` and writes none outside of `W`.  It is said in terms of a second run, from any state `t` that
has the same rest and the same bytes in `R`:

* the two runs end alike, with the same value or the same fault, and leave the same rest;
* they use the same addresses, all of them in `R` or in `W`;
* what they leave at an address is the same for both and the address is in `W`, or neither has
  changed it.

The region is one for the state `s`.  A computation that follows a chain through memory therefore
has a lemma about the states in which the chain is there, and the rule for a sequence, `Local.bind`,
asks of its second part only what holds of the states that the first can end in.  A run of any
length is one computation, so the rules are rules for runs as well.
-/

set_option autoImplicit false

namespace RustM

/-- A state, seen as a memory and the rest. -/
structure MemoryView (σ ι β κ : Type) where
  /-- What an address holds. -/
  ram : σ → ι → β
  /-- The addresses that were used, the latest first. -/
  touched : σ → List ι
  /-- What is no memory. -/
  rest : σ → κ

variable {σ ι β κ : Type} (V : MemoryView σ ι β κ) (R W : Set ι)

/-- The states differ in the bytes outside of `R` at most. -/
structure MemoryView.Same (s t : σ) : Prop where
  /-- The rest. -/
  rest : V.rest s = V.rest t
  /-- The bytes. -/
  ram : ∀ a ∈ R, V.ram s a = V.ram t a

/-- What was done from `s` to `s'` was done from `t` to `t'`, in `R` and `W`. -/
structure MemoryView.SameStep (s t s' t' : σ) : Prop where
  /-- The rest. -/
  rest : V.rest s' = V.rest t'
  /-- The addresses. -/
  touched : ∃ new, V.touched s' = new ++ V.touched s ∧ V.touched t' = new ++ V.touched t ∧
    ∀ a ∈ new, a ∈ R ∪ W
  /-- The bytes. -/
  ram : ∀ a, a ∈ W ∧ V.ram s' a = V.ram t' a ∨ V.ram s' a = V.ram s a ∧ V.ram t' a = V.ram t a

/-- **The run from `s` stays in memory**: it reads `R` only and writes `W` only. -/
def Local {ε α : Type} (x : RustM ε σ α) (s : σ) : Prop :=
  ∀ t, V.Same R s t → Alike (V.SameStep R W s t) (x s) (x t)

variable {V R W} {R' W' : Set ι} {s t s' t' s₁ t₁ : σ}

theorem MemoryView.Same.refl (s : σ) : V.Same R s s := ⟨rfl, fun _ _ ↦ rfl⟩

theorem MemoryView.Same.mono (hR : R ⊆ R') (h : V.Same R' s t) : V.Same R s t :=
  ⟨h.rest, fun a ha ↦ h.ram a (hR ha)⟩

/-- Nothing was done. -/
theorem MemoryView.SameStep.refl (h : V.rest s = V.rest t) : V.SameStep R W s t s t :=
  ⟨h, ⟨[], rfl, rfl, by simp⟩, fun _ ↦ .inr ⟨rfl, rfl⟩⟩

theorem MemoryView.SameStep.same (h : V.SameStep R W s t s' t') (hs : V.Same R s t) :
    V.Same R s' t' := by
  refine ⟨h.rest, fun a ha ↦ ?_⟩
  obtain ⟨-, heq⟩ | ⟨hs', ht'⟩ := h.ram a
  · exact heq
  · rw [hs', ht', hs.ram a ha]

theorem MemoryView.SameStep.trans (h : V.SameStep R W s t s₁ t₁)
    (h' : V.SameStep R W s₁ t₁ s' t') : V.SameStep R W s t s' t' := by
  obtain ⟨new, hs, ht, hnew⟩ := h.touched
  obtain ⟨new', hs', ht', hnew'⟩ := h'.touched
  refine ⟨h'.rest, ⟨new' ++ new, ?_, ?_, ?_⟩, fun a ↦ ?_⟩
  · rw [hs', hs, List.append_assoc]
  · rw [ht', ht, List.append_assoc]
  · intro a ha
    exact (List.mem_append.mp ha).elim (hnew' a) (hnew a)
  · obtain hlast | ⟨hs₁, ht₁⟩ := h'.ram a
    · exact .inl hlast
    · rw [hs₁, ht₁]
      exact h.ram a

theorem MemoryView.SameStep.mono (hR : R ⊆ R') (hW : W ⊆ W') (h : V.SameStep R W s t s' t') :
    V.SameStep R' W' s t s' t' := by
  obtain ⟨new, hs, ht, hnew⟩ := h.touched
  refine ⟨h.rest, ⟨new, hs, ht, fun a ha ↦ Set.union_subset_union hR hW (hnew a ha)⟩, fun a ↦ ?_⟩
  exact (h.ram a).imp_left fun ⟨ha, heq⟩ ↦ ⟨hW ha, heq⟩

/-- An address that is not in `W` is not changed. -/
theorem MemoryView.SameStep.eq_of_notMem (h : V.SameStep R W s t s' t') {a : ι} (ha : a ∉ W) :
    V.ram s' a = V.ram s a :=
  ((h.ram a).resolve_left fun h' ↦ ha h'.1).1

/-! ## Rules -/

section Rules

variable {ε α γ : Type} {x y : RustM ε σ α} {f : α → RustM ε σ γ}

theorem Alike.mono {S T : σ → σ → Prop} {r r' : EStateM.Result (Fault ε) σ α}
    (h : Alike S r r') (hST : ∀ s t, S s t → T s t) : Alike T r r' := by
  cases h with
  | ok h => exact .ok (hST _ _ h)
  | error h => exact .error (hST _ _ h)

theorem Local.mono (hR : R ⊆ R') (hW : W ⊆ W') (h : Local V R W x s) : Local V R' W' x s :=
  fun t ht ↦ (h t (ht.mono hR)).mono fun _ _ h' ↦ h'.mono hR hW

theorem local_pure (a : α) : Local V R W (pure a : RustM ε σ α) s :=
  fun _ ht ↦ .ok (.refl ht.rest)

theorem local_lift (x : Rust ε α) : Local V R W (lift x : RustM ε σ α) s := fun t ht ↦ by
  cases x with
  | ok a => exact .ok (.refl ht.rest)
  | error e => exact .error (.refl ht.rest)

/-- A sequence.  The second part is run in a state that the first has returned in. -/
theorem Local.bind (hx : Local V R W x s)
    (hf : ∀ a s', x s = .ok a s' → Local V R W (f a) s') : Local V R W (x >>= f) s := by
  intro t ht
  rw [bind_apply, bind_apply]
  obtain ⟨a, s', t', hs', ht', h⟩ | ⟨e, s', t', hs', ht', h⟩ := (hx t ht).ends
  · rw [hs', ht']
    exact (hf a s' hs' t' (h.same ht)).mono fun _ _ h' ↦ h.trans h'
  · rw [hs', ht']
    exact .error h

/-- A sequence whose second part is local from every state. -/
theorem Local.seq (hx : Local V R W x s) (hf : ∀ a s', Local V R W (f a) s') :
    Local V R W (x >>= f) s :=
  hx.bind fun a s' _ ↦ hf a s'

theorem Local.ite {c : Prop} [Decidable c] (hx : c → Local V R W x s)
    (hy : ¬c → Local V R W y s) : Local V R W (if c then x else y) s := by
  split
  · exact hx ‹_›
  · exact hy ‹_›

/-- The run writes `W` only. -/
theorem Local.keeps (h : Local V R W x s) {a : α} (hrun : x s = .ok a s') {i : ι} (hi : i ∉ W) :
    V.ram s' i = V.ram s i := by
  obtain ⟨b, s₁, t₁, hs₁, -, hstep⟩ | ⟨e, s₁, t₁, hs₁, -, -⟩ := (h s (.refl s)).ends
  · rw [hs₁] at hrun
    cases hrun
    exact hstep.eq_of_notMem hi
  · exact nomatch hs₁.symm.trans hrun

end Rules

end RustM
