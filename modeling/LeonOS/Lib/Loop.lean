import LeonOS.Lib.Post

/-!
# Loops with a budget

`loop step limit n` takes up to `n` steps, each of which says whether it was the last, and is
`limit` when none is left.  `Iterates` counts the steps that were not the last.  So the loop returns
where a step says so, fails where a step fails or at the limit, and panics where one of them does;
what every step keeps, the loop keeps up to there.
-/

set_option autoImplicit false

namespace RustM

variable {ε σ : Type} {step : RustM ε σ Bool} {limit : RustM ε σ Unit} {n k : ℕ} {s s' s₁ : σ}
  {e : Fault ε}

/-- The loop, with `n` steps to go. -/
def loop (step : RustM ε σ Bool) (limit : RustM ε σ Unit) : ℕ → RustM ε σ Unit
  | 0 => limit
  | n + 1 => do
    if ← step then return ()
    loop step limit n

/-- `n` steps, none of which is the last. -/
inductive Iterates (step : RustM ε σ Bool) : ℕ → σ → σ → Prop
  | refl (s : σ) : Iterates step 0 s s
  | head {n : ℕ} {s s₁ s' : σ} (hstep : step s = .ok false s₁) (hrest : Iterates step n s₁ s') :
    Iterates step (n + 1) s s'

namespace Iterates

/-- There is one way on from a state. -/
theorem rest {i : ℕ} {t t' : σ} (h : Iterates step n s s') (hi : i < n) (ht : Iterates step i s t)
    (hstep : step t = .ok false t') : ∃ m, Iterates step m t' s' := by
  induction ht generalizing n with
  | refl =>
    cases h with
    | refl => exact absurd hi (Nat.lt_irrefl 0)
    | head hfirst hrest =>
      obtain ⟨-, rfl⟩ := EStateM.Result.ok.inj (hstep.symm.trans hfirst)
      exact ⟨_, hrest⟩
  | head hfirst _ ih =>
    cases h with
    | refl => exact absurd hi (Nat.not_lt_zero _)
    | head hfirst' hrest =>
      obtain ⟨-, rfl⟩ := EStateM.Result.ok.inj (hfirst.symm.trans hfirst')
      exact ih hrest (Nat.lt_of_succ_lt_succ hi) hstep

/-- There is no way on from the last step. -/
theorem eq_of_stop (h : Iterates step n s s') (hstop : step s = .ok true s₁) : s' = s := by
  cases h with
  | refl => rfl
  | head hfirst => cases hstop.symm.trans hfirst

/-- What every one of the steps does, all of them do. -/
theorem chain {R : σ → σ → Prop} [IsPreorder σ R] (h : Iterates step n s s')
    (hstep : ∀ i < n, ∀ t t', Iterates step i s t → step t = .ok false t' → R t t') : R s s' := by
  induction h with
  | refl => exact Std.Refl.refl _
  | head hfirst _ ih =>
    refine IsTrans.trans _ _ _ (hstep 0 (Nat.succ_pos _) _ _ (.refl _) hfirst) ?_
    exact ih fun i hi t t' ht ↦ hstep (i + 1) (Nat.succ_lt_succ hi) t t' (.head hfirst ht)

/-- An invariant of the steps. -/
theorem invariant {P : σ → Prop} (hstep : ∀ t t', P t → step t = .ok false t' → P t')
    (h : Iterates step n s s') (hs : P s) : P s' := by
  induction h with
  | refl => exact hs
  | head hfirst _ ih => exact ih (hstep _ _ hs hfirst)

end Iterates

/-! ## The loop, step by step -/

theorem loop_of_step (h : step s = .ok false s₁) :
    loop step limit (n + 1) s = loop step limit n s₁ := by
  rw [loop, bind_apply, h]
  rfl

theorem loop_of_stop (h : step s = .ok true s₁) : loop step limit (n + 1) s = .ok () s₁ := by
  rw [loop, bind_apply, h]
  rfl

theorem loop_of_error (h : step s = .error e s₁) : loop step limit (n + 1) s = .error e s₁ := by
  rw [loop, bind_apply, h]

theorem Iterates.loop_add (h : Iterates step k s s') (n : ℕ) :
    loop step limit (k + n) s = loop step limit n s' := by
  induction h with
  | refl => rw [Nat.zero_add]
  | head hstep _ ih => rw [Nat.succ_add, loop_of_step hstep, ih]

/-- **A loop that returns** has come to a last step, or to the limit. -/
theorem loop_eq_ok (h : loop step limit n s = .ok () s') : ∃ k last, Iterates step k s last ∧
    (k < n ∧ step last = .ok true s' ∨ k = n ∧ limit last = .ok () s') := by
  induction n generalizing s with
  | zero => exact ⟨0, s, .refl s, .inr ⟨rfl, h⟩⟩
  | succ n ih =>
    cases hstep : step s with
    | error e s₁ => cases (loop_of_error hstep).symm.trans h
    | ok stop s₁ =>
      cases stop with
      | true =>
        cases (loop_of_stop hstep).symm.trans h
        exact ⟨0, s, .refl s, .inl ⟨n.succ_pos, hstep⟩⟩
      | false =>
        obtain ⟨k, last, hsteps, hlast⟩ := ih ((loop_of_step hstep).symm.trans h)
        refine ⟨k + 1, last, .head hstep hsteps, hlast.imp (fun hlast ↦ ?_) fun hlast ↦ ?_⟩
        · exact ⟨Nat.succ_lt_succ hlast.1, hlast.2⟩
        · exact ⟨congrArg (· + 1) hlast.1, hlast.2⟩

/-- **A loop that does not return** has come to a step that does not, or to the limit. -/
theorem loop_eq_error (h : loop step limit n s = .error e s') : ∃ k last, Iterates step k s last ∧
    (k < n ∧ step last = .error e s' ∨ k = n ∧ limit last = .error e s') := by
  induction n generalizing s with
  | zero => exact ⟨0, s, .refl s, .inr ⟨rfl, h⟩⟩
  | succ n ih =>
    cases hstep : step s with
    | error e' s₁ =>
      cases (loop_of_error hstep).symm.trans h
      exact ⟨0, s, .refl s, .inl ⟨n.succ_pos, hstep⟩⟩
    | ok stop s₁ =>
      cases stop with
      | true => cases (loop_of_stop hstep).symm.trans h
      | false =>
        obtain ⟨k, last, hsteps, hlast⟩ := ih ((loop_of_step hstep).symm.trans h)
        refine ⟨k + 1, last, .head hstep hsteps, hlast.imp (fun hlast ↦ ?_) fun hlast ↦ ?_⟩
        · exact ⟨Nat.succ_lt_succ hlast.1, hlast.2⟩
        · exact ⟨congrArg (· + 1) hlast.1, hlast.2⟩

/-- **A loop panics** exactly where one of its steps does, if the limit does not. -/
theorem panics_loop (hlimit : ∀ s, ¬Panics limit s) : Panics (loop step limit n) s ↔
    ∃ k < n, ∃ last, Iterates step k s last ∧ Panics step last := by
  constructor
  · rintro ⟨s', h⟩
    obtain ⟨k, last, hsteps, ⟨hk, hlast⟩ | ⟨-, hlast⟩⟩ := loop_eq_error h
    · exact ⟨k, hk, last, hsteps, s', hlast⟩
    · exact absurd ⟨s', hlast⟩ (hlimit last)
  · rintro ⟨k, hk, last, hsteps, s', hlast⟩
    obtain ⟨m, rfl⟩ := Nat.exists_eq_add_of_lt hk
    exact ⟨s', (hsteps.loop_add (m + 1)).trans (loop_of_error hlast)⟩

end RustM
