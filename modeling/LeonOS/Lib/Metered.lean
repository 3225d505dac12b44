import LeonOS.Lib.Loop

/-!
# Computations with a meter

A computation on the states `σ × μ` does something on `σ` and keeps a meter, of type `μ`, beside it.
The meter may end the computation, in a panic.  Where it does not, the computation should be one on
`σ` alone (`Follows`), and what it adds to the meter should be known, however it ends (`Leaves`).
There is a rule of each kind for a sequence and for a loop.

A computation may also ask for things, of type `ω`, on the way.  `Asks S x z y` is about three
versions of it: `x` does not ask, `z` writes down what it asks for, and `y` gets it from the supply
`S` and panics when that runs out.  It says that `y` goes through just when the supply has all that
`z` lists.
-/

set_option autoImplicit false

namespace RustM

variable {ε σ τ μ α β : Type}

/-- The state that a run has come to. -/
def endState : EStateM.Result (Fault ε) σ α → σ
  | .ok _ s => s
  | .error _ s => s

/-- The same end, in the part of the state that `f` shows. -/
def seen (f : σ → τ) : EStateM.Result (Fault ε) σ α → EStateM.Result (Fault ε) τ α
  | .ok a s => .ok a (f s)
  | .error e s => .error e (f s)

@[simp] theorem endState_seen (f : σ → τ) (r : EStateM.Result (Fault ε) σ α) :
    endState (seen f r) = f (endState r) := by
  cases r <;> rfl

/-- A computation that does not look at the meter. -/
def metered (x : RustM ε σ α) : RustM ε (σ × μ) α := fun s ↦ seen (·, s.2) (x s.1)

/-- Something happens that the meter counts. -/
def modifyMeter (f : μ → μ) : RustM ε (σ × μ) Unit := modify fun s ↦ (s.1, f s.2)

theorem panics_metered {x : RustM ε σ α} {s : σ × μ} : Panics (metered x) s ↔ Panics x s.1 := by
  simp only [Panics, metered]
  cases x s.1 with
  | ok a t => simp [seen]
  | error e t => simp [seen]

/-! ## What a computation follows -/

section Follows

variable {x : RustM ε σ α} {y : RustM ε (σ × μ) α} {f : α → RustM ε σ β}
  {g : α → RustM ε (σ × μ) β} {n : ℕ}

/-- **The same computation**, unless the meter ends it. -/
def Follows (y : RustM ε (σ × μ) α) (x : RustM ε σ α) : Prop :=
  ∀ s, Panics y s ∨ seen Prod.fst (y s) = x s.1

theorem Follows.ok (h : Follows y x) {s t : σ × μ} {a : α} (hy : y s = .ok a t) :
    x s.1 = .ok a t.1 := by
  rcases h s with ⟨t', hpanic⟩ | hsame
  · cases hy.symm.trans hpanic
  · rw [← hsame, hy]
    rfl

theorem follows_metered (x : RustM ε σ α) : Follows (metered x : RustM ε (σ × μ) α) x := by
  intro s
  refine .inr ?_
  rw [metered]
  cases x s.1 <;> rfl

theorem Follows.bind (hx : Follows y x) (hf : ∀ a, Follows (g a) (f a)) :
    Follows (y >>= g) (x >>= f) := by
  intro s
  rw [Panics, bind_apply, bind_apply]
  rcases hx s with ⟨t, hpanic⟩ | hsame
  · rw [hpanic]
    exact .inl ⟨t, rfl⟩
  · rw [← hsame]
    cases y s with
    | ok a t => exact hf a t
    | error e t => exact .inr rfl

/-- What only concerns the meter comes before the rest. -/
theorem Follows.after {z : RustM ε (σ × μ) Unit} (hz : Follows z (pure () : RustM ε σ Unit))
    (h : Follows y x) : Follows (z >>= fun _ ↦ y) x := by
  have hbind : Follows (z >>= fun _ ↦ y) ((pure () : RustM ε σ Unit) >>= fun _ ↦ x) :=
    hz.bind fun _ ↦ h
  rwa [pure_bind] at hbind

theorem follows_pure (a : α) : Follows (pure a : RustM ε (σ × μ) α) (pure a : RustM ε σ α) :=
  fun _ ↦ .inr rfl

theorem follows_lift (x : Rust ε α) :
    Follows (lift x : RustM ε (σ × μ) α) (lift x : RustM ε σ α) := fun s ↦ by
  refine .inr ?_
  cases x <;> rfl

theorem follows_modifyMeter (f : μ → μ) :
    Follows (modifyMeter f : RustM ε (σ × μ) Unit) (pure () : RustM ε σ Unit) := fun _ ↦ .inr rfl

theorem Follows.loop {step : RustM ε σ Bool} {limit : RustM ε σ Unit}
    {step' : RustM ε (σ × μ) Bool} {limit' : RustM ε (σ × μ) Unit} (hstep : Follows step' step)
    (hlimit : Follows limit' limit) (n : ℕ) : Follows (loop step' limit' n) (loop step limit n) := by
  induction n with
  | zero => exact hlimit
  | succ n ih =>
    refine hstep.bind fun stop ↦ ?_
    cases stop with
    | true => exact follows_pure ()
    | false => exact ih

/-- Its steps are steps. -/
theorem Follows.iterates {step : RustM ε σ Bool} {step' : RustM ε (σ × μ) Bool}
    (hstep : Follows step' step) {s t : σ × μ} (h : Iterates step' n s t) :
    Iterates step n s.1 t.1 := by
  induction h with
  | refl => exact .refl _
  | head hfirst _ ih => exact .head (hstep.ok hfirst) ih

end Follows

/-! ## What a computation leaves -/

section Leaves

variable {R Q S : σ → σ → Prop} {x : RustM ε σ α} {f : α → RustM ε σ β}

/-- **However a run ends**, a panic included, `R` relates where it began to where it ended. -/
def Leaves (R : σ → σ → Prop) (x : RustM ε σ α) : Prop := ∀ s, R s (endState (x s))

theorem leaves_pure (a : α) (h : ∀ s, R s s) : Leaves R (pure a : RustM ε σ α) := h

theorem Leaves.bind (hx : Leaves R x) (hf : ∀ a, Leaves Q (f a)) (hfirst : ∀ s t, R s t → S s t)
    (hboth : ∀ s t u, R s t → Q t u → S s u) : Leaves S (x >>= f) := by
  intro s
  have hs := hx s
  rw [bind_apply]
  cases hrun : x s with
  | ok a t =>
    rw [hrun] at hs
    exact hboth s t _ hs (hf a t)
  | error e t =>
    rw [hrun] at hs
    exact hfirst s t hs

/-- A loop leaves what `n` steps leave. -/
theorem leaves_loop {R : ℕ → σ → σ → Prop} {step : RustM ε σ Bool} {limit : RustM ε σ Unit}
    (hstep : Leaves (R 1) step) (hlimit : Leaves (R 0) limit) (hrefl : ∀ s, R 0 s s)
    (hmono : ∀ a b s t, a ≤ b → R a s t → R b s t)
    (hadd : ∀ a b s t u, R a s t → R b t u → R (a + b) s u) (n : ℕ) :
    Leaves (R n) (loop step limit n) := by
  induction n with
  | zero => exact hlimit
  | succ n ih =>
    refine hstep.bind (fun stop ↦ ?_) (fun s t ↦ hmono 1 (n + 1) s t (Nat.le_add_left 1 n))
      fun s t u hs ht ↦ Nat.add_comm n 1 ▸ hadd 1 n s t u hs ht
    cases stop with
    | true => exact leaves_pure () fun s ↦ hmono 0 n s s n.zero_le (hrefl s)
    | false => exact ih

end Leaves

/-! ## What a computation asks for -/

/-- What things are taken from. -/
structure Supply (ω μ : Type) where
  /-- Some things are taken; there may be too few of them. -/
  take : List ω → μ → Option μ
  /-- Nothing. -/
  take_nil : ∀ m, take [] m = some m
  /-- One after the other. -/
  take_append : ∀ ws ws' m, take (ws ++ ws') m = (take ws m).bind (take ws')

/-- Everything is there, and what was taken is written down. -/
def Supply.list (ω : Type) : Supply ω (List ω) where
  take ws log := some (log ++ ws)
  take_nil log := congrArg some log.append_nil
  take_append ws ws' log := congrArg some (List.append_assoc log ws ws').symm

section Asks

variable {ω : Type} {S : Supply ω μ} {x : RustM ε σ α} {f : α → RustM ε σ β}
  {z : RustM ε (σ × List ω) α} {y : RustM ε (σ × μ) α} {fz : α → RustM ε (σ × List ω) β}
  {fy : α → RustM ε (σ × μ) β}

/-- A computation that asks for things before it begins. -/
def asking (S : Supply ω μ) (ask : σ → List ω) (x : RustM ε σ α) : RustM ε (σ × μ) α := fun s ↦
  (S.take (ask s.1) s.2).elim (.error .panic s) fun m ↦ seen (·, m) (x s.1)

/-- **What it asks for decides**: where `x` returns, `z` does with a list of what was asked for, and
`y` returns if the supply has that and panics if not. -/
def Asks (S : Supply ω μ) (x : RustM ε σ α) (z : RustM ε (σ × List ω) α)
    (y : RustM ε (σ × μ) α) : Prop :=
  ∀ s a s', x s = .ok a s' → ∃ ws, (∀ log, z (s, log) = .ok a (s', log ++ ws)) ∧
    ∀ m, (S.take ws m = none → Panics y (s, m)) ∧
      ∀ m', S.take ws m = some m' → y (s, m) = .ok a (s', m')

theorem asks_asking (ask : σ → List ω) (x : RustM ε σ α) :
    Asks S x (asking (.list ω) ask x) (asking S ask x) := by
  intro s a s' hx
  refine ⟨ask s, fun log ↦ ?_, fun m ↦ ⟨fun htake ↦ ?_, fun m' htake ↦ ?_⟩⟩
  · rw [asking, hx]
    rfl
  · rw [Panics, asking, htake]
    exact ⟨_, rfl⟩
  · rw [asking, htake, hx]
    rfl

theorem asks_pure (a : α) : Asks S (pure a : RustM ε σ α) (pure a) (pure a) := by
  intro s b s' hx
  cases hx
  refine ⟨[], fun log ↦ ?_, fun m ↦ ⟨fun htake ↦ ?_, fun m' htake ↦ ?_⟩⟩
  · rw [List.append_nil]
    rfl
  · cases (S.take_nil m).symm.trans htake
  · obtain rfl := Option.some_inj.mp ((S.take_nil m).symm.trans htake)
    rfl

theorem asks_lift (x : Rust ε α) : Asks S (lift x : RustM ε σ α) (lift x) (lift x) := by
  cases x with
  | ok a => exact asks_pure a
  | error e =>
    intro s a s' hx
    cases hx

theorem Asks.bind (hx : Asks S x z y) (hf : ∀ a, Asks S (f a) (fz a) (fy a)) :
    Asks S (x >>= f) (z >>= fz) (y >>= fy) := by
  intro s b s' hrun
  obtain ⟨a, s₁, hfirst, hrest⟩ := bind_eq_ok.mp hrun
  obtain ⟨ws, hz, hy⟩ := hx s a s₁ hfirst
  obtain ⟨ws', hz', hy'⟩ := hf a s₁ b s' hrest
  refine ⟨ws ++ ws', fun log ↦ ?_, fun m ↦ ?_⟩
  · rw [bind_apply, hz, ← List.append_assoc]
    exact hz' _
  rw [S.take_append, Panics, bind_apply]
  cases htake : S.take ws m with
  | none =>
    obtain ⟨t, ht⟩ := (hy m).1 htake
    rw [ht]
    exact ⟨fun _ ↦ ⟨t, rfl⟩, fun m' h ↦ by cases h⟩
  | some m₁ =>
    rw [(hy m).2 m₁ htake]
    exact hy' m₁

theorem Asks.ite {c : Prop} [Decidable c] {x' : RustM ε σ α} {z' : RustM ε (σ × List ω) α}
    {y' : RustM ε (σ × μ) α} (h : Asks S x z y) (h' : Asks S x' z' y') :
    Asks S (if c then x else x') (if c then z else z') (if c then y else y') := by
  split
  · exact h
  · exact h'

end Asks

end RustM
