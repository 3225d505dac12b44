import LeonOS.Lib.Rust

/-!
# A log beside the state

`noting ws x` is `x`, with `ws` written down at its end.  A computation that is put together from
such parts writes the same down on every run that returns, and a prefix of it on every other
(`Notes`).  It does what it does without the log (`Annotates`): the log is of this computation, and
not of a model of it.

Both have a rule for each way of building a computation.
-/

set_option autoImplicit false

namespace RustM

variable {ε σ ω α β : Type} {x : RustM ε (σ × List ω) α} {ws ws' : List ω}

/-! ## What is written down -/

/-- A computation at whose end something is written down. -/
def noting (ws : List ω) (x : RustM ε σ α) : RustM ε (σ × List ω) α := fun s ↦
  match x s.1 with
  | .ok a s' => .ok a (s', s.2 ++ ws)
  | .error e s' => .error e (s', s.2 ++ ws)

/-- **What a computation writes down**: all of this if it returns, and the first part if not. -/
def Notes (x : RustM ε (σ × List ω) α) (ws : List ω) : Prop :=
  ∀ s, match x s with
    | .ok _ s' => s'.2 = s.2 ++ ws
    | .error _ s' => ∃ ws', ws' <+: ws ∧ s'.2 = s.2 ++ ws'

theorem notes_noting (ws : List ω) (x : RustM ε σ α) : Notes (noting ws x) ws := by
  intro s
  rw [noting]
  cases x s.1 with
  | ok a s' => exact rfl
  | error e s' => exact ⟨ws, List.prefix_rfl, rfl⟩

theorem notes_pure (a : α) : Notes (pure a : RustM ε (σ × List ω) α) [] :=
  fun s ↦ (List.append_nil s.2).symm

theorem Notes.bind {f : α → RustM ε (σ × List ω) β} (hx : Notes x ws)
    (hf : ∀ a, Notes (f a) ws') : Notes (x >>= f) (ws ++ ws') := by
  intro s
  have hxs := hx s
  rw [bind_apply]
  cases hrun : x s with
  | error e s' =>
    rw [hrun] at hxs
    obtain ⟨ws₁, hpre, heq⟩ := hxs
    exact ⟨ws₁, hpre.trans (List.prefix_append ws ws'), heq⟩
  | ok a s' =>
    rw [hrun] at hxs
    have hfs := hf a s'
    dsimp only at hxs ⊢
    cases hrest : f a s' with
    | ok b s'' =>
      rw [hrest] at hfs
      dsimp only at hfs ⊢
      rw [hfs, hxs, List.append_assoc]
    | error e s'' =>
      rw [hrest] at hfs
      obtain ⟨ws₁, hpre, heq⟩ := hfs
      refine ⟨ws ++ ws₁, (List.prefix_append_right_inj ws).mpr hpre, ?_⟩
      rw [heq, hxs, List.append_assoc]

/-! ## Without the log -/

/-- The end of a computation, without what was written down. -/
def withoutNotes : EStateM.Result (Fault ε) (σ × List ω) α → EStateM.Result (Fault ε) σ α
  | .ok a s => .ok a s.1
  | .error e s => .error e s.1

/-- Writing something down is all that the first does besides the second. -/
def Annotates (x : RustM ε (σ × List ω) α) (y : RustM ε σ α) : Prop :=
  ∀ s, withoutNotes (x s) = y s.1

theorem annotates_noting (ws : List ω) (y : RustM ε σ α) : Annotates (noting ws y) y := by
  intro s
  rw [noting]
  cases y s.1 <;> rfl

theorem annotates_pure (a : α) : Annotates (pure a : RustM ε (σ × List ω) α) (pure a) :=
  fun _ ↦ rfl

theorem annotates_lift (r : Rust ε α) :
    Annotates (lift r : RustM ε (σ × List ω) α) (lift r) := by
  intro s
  cases r <;> rfl

theorem Annotates.bind {y : RustM ε σ α} {f : α → RustM ε (σ × List ω) β}
    {g : α → RustM ε σ β} (hx : Annotates x y) (hf : ∀ a, Annotates (f a) (g a)) :
    Annotates (x >>= f) (y >>= g) := by
  intro s
  rw [bind_apply, bind_apply, ← hx s]
  cases x s with
  | error e s' => rfl
  | ok a s' => exact hf a s'

end RustM
