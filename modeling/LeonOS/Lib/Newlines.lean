import Mathlib.Data.List.Basic

/-!
# Line ends on a wire

A terminal on a serial line wants a carriage return in front of each line feed.  `cook` puts it
there, and `uncook` takes it away again: what was sent can be told from what is received
(`uncook_cook`), also where the text has carriage returns of its own.
-/

set_option autoImplicit false

namespace Newlines

variable {α : Type} [DecidableEq α] {cr lf b : α} {s t : List α}

/-- A `cr` in front of each `lf`. -/
def cook (cr lf : α) (s : List α) : List α := s.flatMap fun b ↦ if b = lf then [cr, lf] else [b]

/-- Each `lf` loses the `cr` in front of it. -/
def uncook (cr lf : α) : List α → List α
  | [] => []
  | a :: s => if a = cr ∧ s.head? = some lf then uncook cr lf s else a :: uncook cr lf s

@[simp] theorem cook_nil (cr lf : α) : cook cr lf [] = [] := rfl

theorem cook_cons (cr lf b : α) (s : List α) :
    cook cr lf (b :: s) = (if b = lf then [cr, lf] else [b]) ++ cook cr lf s := rfl

theorem cook_append (cr lf : α) (s t : List α) :
    cook cr lf (s ++ t) = cook cr lf s ++ cook cr lf t :=
  List.flatMap_append

/-- No text begins with an `lf` that was sent without its `cr`. -/
theorem head?_cook_ne (h : cr ≠ lf) (s : List α) : (cook cr lf s).head? ≠ some lf := by
  cases s with
  | nil => simp
  | cons b s =>
    rw [cook_cons]
    split
    · simp [h]
    · simp [*]

/-- **What was sent can be told from what is received.** -/
theorem uncook_cook (h : cr ≠ lf) (s : List α) : uncook cr lf (cook cr lf s) = s := by
  induction s with
  | nil => rfl
  | cons b s ih =>
    have hhead := head?_cook_ne h s
    rw [cook_cons]
    split
    · rename_i hb
      simp [uncook, ih, hb, h.symm]
    · simp [uncook, ih, hhead]

end Newlines
