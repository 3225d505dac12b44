import LeonOS.Lib.Bytes

/-!
# Streams of records

Records of different lengths one after the other, each saying where it ends.  `next` reads the
record at the front of a stream and its length, and `parse` takes a stream apart with it.  A stream
that was put together from records falls into just these (`parse_flatMap`), if `next` finds each
record at the front of any stream that begins with it.
-/

set_option autoImplicit false

namespace Stream

variable {α β : Type}

/-- The records of a stream, if it is nothing but at most `n` records. -/
def parse (next : List β → Option (α × ℕ)) : ℕ → List β → Option (List α)
  | _, [] => some []
  | 0, _ :: _ => none
  | n + 1, bs@(_ :: _) => do
    let (a, len) ← next bs
    return a :: (← parse next n (bs.drop len))

theorem parse_flatMap {next : List β → Option (α × ℕ)} {encode : α → List β} {as : List α}
    (hnext : ∀ a ∈ as, ∀ rest, next (encode a ++ rest) = some (a, (encode a).length))
    (hne : ∀ a ∈ as, encode a ≠ []) {n : ℕ} (hn : as.length ≤ n) :
    parse next n (as.flatMap encode) = some as := by
  induction as generalizing n with
  | nil => cases n <;> rfl
  | cons a as ih =>
    obtain ⟨n, rfl⟩ : ∃ m, n = m + 1 := ⟨n - 1, by rw [List.length_cons] at hn; omega⟩
    have hrest := ih (fun b hb ↦ hnext b (List.mem_cons_of_mem a hb))
      (fun b hb ↦ hne b (List.mem_cons_of_mem a hb)) (Nat.le_of_succ_le_succ hn)
    have hhead := hnext a List.mem_cons_self (as.flatMap encode)
    obtain ⟨b, bs, hcons⟩ := List.exists_cons_of_ne_nil (hne a List.mem_cons_self)
    rw [List.flatMap_cons]
    rw [hcons, List.cons_append] at hhead ⊢
    rw [parse, hhead, Option.bind_eq_bind, Option.bind_some, ← List.cons_append]
    dsimp only
    rw [List.drop_left, hrest]
    rfl

/-- A record is not empty, so there are no more of them than there are bytes. -/
theorem length_le_flatMap {encode : α → List β} {as : List α} (hne : ∀ a ∈ as, encode a ≠ []) :
    as.length ≤ (as.flatMap encode).length := by
  induction as with
  | nil => exact Nat.zero_le _
  | cons a as ih =>
    have hrest := ih fun b hb ↦ hne b (List.mem_cons_of_mem a hb)
    have hpos := List.length_pos_iff.mpr (hne a List.mem_cons_self)
    rw [List.flatMap_cons, List.length_append, List.length_cons]
    omega

/-! ## The front of a list -/

/-- The values before the first `none`. -/
def leading : List (Option α) → List α
  | some a :: as => a :: leading as
  | _ => []

theorem length_leading_le (as : List (Option α)) : (leading as).length ≤ as.length := by
  induction as with
  | nil => exact le_rfl
  | cons a as ih =>
    cases a with
    | none => exact Nat.zero_le _
    | some a => exact Nat.succ_le_succ ih

theorem getElem?_leading {as : List (Option α)} {i : ℕ} {a : α} (h : (leading as)[i]? = some a) :
    as[i]? = some (some a) := by
  induction as generalizing i with
  | nil => exact nomatch h
  | cons b as ih =>
    cases b with
    | none => exact nomatch h
    | some b =>
      cases i with
      | zero => exact congrArg some h
      | succ i => exact ih h

/-- Behind them is a `none`, or the end of the list. -/
theorem getElem?_length_leading (as : List (Option α)) :
    as[(leading as).length]? = none ∨ as[(leading as).length]? = some none := by
  induction as with
  | nil => exact .inl rfl
  | cons a as ih =>
    cases a with
    | none => exact .inr rfl
    | some a => exact ih

end Stream
