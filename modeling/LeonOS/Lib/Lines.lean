import Mathlib

/-!
# Lines of a stream

A stream without an end is a function `ℕ → α`, some of whose elements end a line.  A reader that
is asked for up to `n` elements takes them to the end of the line that it is in, or `n` of them:
`lineLength` counts them, and `IsLine` says of a count that it is this one.

`Delivered` is what a sequence of readers is given, each beginning where the last one has stopped.
What they are given is determined by what they ask for (`Delivered.unique`), and is the stream in
its order, with nothing left out and nothing repeated (`Delivered.flatMap`).
-/

set_option autoImplicit false

namespace Lines

variable {α β : Type} {ends : α → Prop} [DecidablePred ends] {map : α → β} {f : ℕ → α}
  {i j n l : ℕ}

/-- The first `l` elements. -/
def front (f : ℕ → α) (l : ℕ) : List α := (List.range l).map f

@[simp] theorem length_front (f : ℕ → α) (l : ℕ) : (front f l).length = l := by
  simp [front]

@[simp] theorem front_zero (f : ℕ → α) : front f 0 = [] := rfl

theorem front_succ (f : ℕ → α) (l : ℕ) : front f (l + 1) = f 0 :: front (fun k ↦ f (k + 1)) l := by
  simp [front, List.range_succ_eq_map]

theorem front_add (f : ℕ → α) (l k : ℕ) :
    front f (l + k) = front f l ++ front (fun i ↦ f (l + i)) k := by
  simp [front, List.range_add]

/-! ## One reader -/

/-- How many elements a reader takes that is asked for `n`. -/
def lineLength (ends : α → Prop) [DecidablePred ends] : ℕ → (ℕ → α) → ℕ
  | 0, _ => 0
  | n + 1, f => if ends (f 0) then 1 else lineLength ends n (fun k ↦ f (k + 1)) + 1

/-- **The shortest front** of the stream that ends a line or has `n` elements has `l` of them. -/
structure IsLine (ends : α → Prop) (f : ℕ → α) (n l : ℕ) : Prop where
  /-- They are no more than were asked for. -/
  le : l ≤ n
  /-- There are as many, or the last one ends a line. -/
  stops : l = n ∨ ∃ k, l = k + 1 ∧ ends (f k)
  /-- None before the last one does. -/
  goes_on : ∀ k, k + 1 < l → ¬ends (f k)

theorem isLine_lineLength (ends : α → Prop) [DecidablePred ends] (f : ℕ → α) (n : ℕ) :
    IsLine ends f n (lineLength ends n f) := by
  induction n generalizing f with
  | zero => exact ⟨le_rfl, .inl rfl, nofun⟩
  | succ n ih =>
    rw [lineLength]
    by_cases h : ends (f 0)
    · rw [if_pos h]
      exact ⟨by omega, .inr ⟨0, rfl, h⟩, fun k hk ↦ absurd hk (by omega)⟩
    · rw [if_neg h]
      obtain ⟨hle, hstops, hgoes⟩ := ih fun k ↦ f (k + 1)
      refine ⟨by omega, ?_, fun k hk ↦ ?_⟩
      · obtain heq | ⟨k, hk, hend⟩ := hstops
        · exact .inl (by omega)
        · exact .inr ⟨k + 1, by omega, hend⟩
      · cases k with
        | zero => exact h
        | succ k => exact hgoes k (by omega)

omit [DecidablePred ends] in
/-- There is only one. -/
theorem IsLine.unique {l' : ℕ} (h : IsLine ends f n l) (h' : IsLine ends f n l') : l = l' := by
  have hle {l l' : ℕ} (h : IsLine ends f n l) (h' : IsLine ends f n l') : l' ≤ l := by
    by_contra hlt
    obtain heq | ⟨k, rfl, hend⟩ := h.stops
    · have hbound := h'.le
      omega
    · exact h'.goes_on k (not_le.mp hlt) hend
  exact le_antisymm (hle h' h) (hle h h')

/-! ## A sequence of readers -/

/-- **What readers are given**: from place `i` of the stream on, with `j` the place after them.
Each entry is how many elements were asked for and what was given, mapped by `map`. -/
inductive Delivered (ends : α → Prop) (map : α → β) (f : ℕ → α) :
    ℕ → List (ℕ × List β) → ℕ → Prop
  | nil (i : ℕ) : Delivered ends map f i [] i
  | cons {i j n l : ℕ} {rest : List (ℕ × List β)} (hline : IsLine ends (fun k ↦ f (i + k)) n l)
      (hrest : Delivered ends map f (i + l) rest j) :
      Delivered ends map f i ((n, (front (fun k ↦ f (i + k)) l).map map) :: rest) j

omit [DecidablePred ends]

variable {given given' : List (ℕ × List β)}

/-- Readers who ask for the same are given the same. -/
theorem Delivered.unique {j' : ℕ} (h : Delivered ends map f i given j)
    (h' : Delivered ends map f i given' j') (hasked : given.map Prod.fst = given'.map Prod.fst) :
    given = given' ∧ j = j' := by
  induction h generalizing given' j' with
  | nil i =>
    cases h' with
    | nil => exact ⟨rfl, rfl⟩
    | cons => exact absurd hasked (by simp)
  | cons hline _ ih =>
    cases h' with
    | nil => exact absurd hasked (by simp)
    | cons hline' hrest' =>
      obtain ⟨rfl, htail⟩ := List.cons.inj hasked
      obtain rfl := hline.unique hline'
      obtain ⟨rfl, rfl⟩ := ih hrest' htail
      exact ⟨rfl, rfl⟩

/-- **All that is given** is the stream in its order. -/
theorem Delivered.flatMap (h : Delivered ends map f i given j) : ∃ l, j = i + l ∧
    given.flatMap Prod.snd = (front (fun k ↦ f (i + k)) l).map map := by
  induction h with
  | nil i => exact ⟨0, rfl, rfl⟩
  | @cons i j n l rest hline _ ih =>
    obtain ⟨m, rfl, hrest⟩ := ih
    refine ⟨l + m, Nat.add_assoc i l m, ?_⟩
    rw [List.flatMap_cons, hrest, front_add, List.map_append]
    simp only [Nat.add_assoc]

end Lines
