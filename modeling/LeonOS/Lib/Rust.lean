import LeonOS.Lib.Bytes

/-!
# Results of Rust functions

A shallow embedding of the ways a Rust function can end.  A function that returns `Result<T, E>`
may also panic (an index out of range, an overflowing `+` in a build with overflow checks), and
the two must not be confused: an error is an answer, a panic is the end of the program.  So the
error type is wrapped once more, in `Fault`.

* `Rust ε α` is `Except (Fault ε) α`: no state.
* `RustM ε σ α` is `EStateM (Fault ε) σ α`: a function with `&mut` arguments collected in `σ`.
  The state survives an error, as what a `&mut` points at does when `?` leaves the function.

The operations below are the ones whose panics the model keeps: indexing, slicing,
`copy_from_slice`, plain `+` and `-`.  Their `checked_` and `saturating_` relatives are here too.
Machine words are `BitVec`s where their bits matter and naturals below `2 ^ 64` where only their
size does.
-/

set_option autoImplicit false

/-- How a function can end without its value: an error it returns, or a panic. -/
inductive Fault (ε : Type) where
  | err (e : ε)
  | panic
  deriving DecidableEq, Repr

/-- A function returning `Result<α, ε>` that may also panic. -/
abbrev Rust (ε α : Type) := Except (Fault ε) α

/-- The same with `&mut` access to a state `σ`. -/
abbrev RustM (ε σ α : Type) := EStateM (Fault ε) σ α

namespace Rust

variable {ε ε' σ α β : Type}

/-- `Err(e)`. -/
def fail (e : ε) : Rust ε α := .error (.err e)

/-- The panic. -/
def panicked : Rust ε α := .error .panic

/-- `if c { return Err(e); }`. -/
def failIf (c : Prop) [Decidable c] (e : ε) : Rust ε Unit := if c then fail e else .ok ()

/-- `assert!`. -/
def assert (c : Prop) [Decidable c] : Rust ε Unit := if c then .ok () else panicked

/-- `Option::ok_or`. -/
def okOr (o : Option α) (e : ε) : Rust ε α :=
  match o with
  | some a => .ok a
  | none => fail e

/-- `Result::map_err`. -/
def mapErr (f : ε → ε') : Rust ε α → Rust ε' α
  | .ok a => .ok a
  | .error (.err e) => .error (.err (f e))
  | .error .panic => .error .panic

/-- `Result::ok`, for a function that has not panicked. -/
def toOption : Rust ε α → Option α
  | .ok a => some a
  | .error _ => none

/-! ## Slices -/

/-- `xs[i]`. -/
def index (xs : List α) (i : ℕ) : Rust ε α :=
  match xs[i]? with
  | some a => .ok a
  | none => panicked

/-- `&xs[i..j]`. -/
def range (xs : List α) (i j : ℕ) : Rust ε (List α) :=
  if i ≤ j ∧ j ≤ xs.length then .ok (Bytes.slice xs i (j - i)) else panicked

/-- `xs[i..j].copy_from_slice(ys)`. -/
def copyFromSlice (xs : List α) (i j : ℕ) (ys : List α) : Rust ε (List α) :=
  if i ≤ j ∧ j ≤ xs.length ∧ j - i = ys.length then .ok (Bytes.overwrite xs i ys) else panicked

/-- `xs[i] = a`. -/
def setIndex (xs : List α) (i : ℕ) (a : α) : Rust ε (List α) :=
  if i < xs.length then .ok (Bytes.overwrite xs i [a]) else panicked

theorem range_of_le {xs : List α} {i j : ℕ} (hij : i ≤ j) (hj : j ≤ xs.length) :
    (range xs i j : Rust ε (List α)) = .ok (Bytes.slice xs i (j - i)) :=
  if_pos ⟨hij, hj⟩

theorem copyFromSlice_of_le {xs ys : List α} {i j : ℕ} (hj : j ≤ xs.length)
    (hl : i + ys.length = j) :
    (copyFromSlice xs i j ys : Rust ε (List α)) = .ok (Bytes.overwrite xs i ys) :=
  if_pos ⟨by omega, hj, by omega⟩

theorem setIndex_of_lt {xs : List α} {i : ℕ} {a : α} (h : i < xs.length) :
    (setIndex xs i a : Rust ε (List α)) = .ok (Bytes.overwrite xs i [a]) :=
  if_pos h

/-! ## Strings

Lean's `String` is Rust's `str`: bytes that are valid UTF-8. -/

/-- `str::as_bytes`. -/
def asBytes (s : String) : List U8 := s.toByteArray.data.toList.map UInt8.toBitVec

/-- `core::str::from_utf8`, without its error. -/
def fromUtf8 (bs : List U8) : Option String :=
  String.fromUTF8? ⟨(bs.map UInt8.ofBitVec).toArray⟩

theorem fromUtf8_asBytes (s : String) : fromUtf8 (asBytes s) = some s := by
  have hid : (UInt8.ofBitVec ∘ UInt8.toBitVec) = id := rfl
  rw [fromUtf8, asBytes, List.map_map, hid, List.map_id, Array.toArray_toList, String.fromUTF8?,
    dif_pos s.isValidUTF8]
  rfl

/-- A string that was read is a string whose bytes they are. -/
theorem asBytes_of_fromUtf8 {bs : List U8} {s : String} (h : fromUtf8 bs = some s) :
    asBytes s = bs := by
  rw [fromUtf8, String.fromUTF8?] at h
  split at h
  · have hid : (UInt8.toBitVec ∘ UInt8.ofBitVec) = id := rfl
    rw [← Option.some_inj.mp h, asBytes, String.fromUTF8, List.map_map, hid, List.map_id]
  · exact absurd h (by simp)

theorem asBytes_append (s t : String) : asBytes (s ++ t) = asBytes s ++ asBytes t := by
  simp [asBytes, String.toByteArray_append, ByteArray.data_append]

theorem asBytes_injective : Function.Injective asBytes := fun s t h ↦ by
  rw [← Option.some_inj, ← fromUtf8_asBytes s, h, fromUtf8_asBytes t]

/-- The character of an ASCII byte is encoded as that byte. -/
theorem utf8Encode_ascii {b : U8} (h : b.toNat < 128) :
    ([Char.ofNat b.toNat].utf8Encode).data.toList.map UInt8.toBitVec = [b] := by
  have hvalid : b.toNat.isValidChar := .inl (by omega)
  have hchar : (Char.ofNat b.toNat).val.toNat = b.toNat := by
    rw [Char.ofNat, dif_pos hvalid]
    rfl
  have hsize : (Char.ofNat b.toNat).utf8Size = 1 := by
    rw [Char.utf8Size_eq_one_iff, UInt32.le_iff_toNat_le, hchar]
    exact Nat.le_of_lt_succ h
  have hbyte : (Char.ofNat b.toNat).val.toUInt8.toBitVec = b := by
    apply BitVec.eq_of_toNat_eq
    rw [UInt8.toNat_toBitVec, UInt32.toNat_toUInt8, hchar]
    omega
  rw [List.utf8Encode_singleton, String.utf8EncodeChar_eq_singleton hsize]
  simp only [List.data_toByteArray, List.map_cons, hbyte, List.map_nil]

theorem asBytes_ofList_ascii {bs : List U8} (h : ∀ b ∈ bs, b.toNat < 128) :
    asBytes (String.ofList (bs.map fun b ↦ Char.ofNat b.toNat)) = bs := by
  rw [asBytes, String.toByteArray_ofList]
  induction bs with
  | nil => rfl
  | cons b bs ih =>
    obtain ⟨hb, htail⟩ := List.forall_mem_cons.mp h
    rw [List.map_cons, List.utf8Encode_cons, ByteArray.data_append, Array.toList_append,
      List.map_append, ih htail, utf8Encode_ascii hb, List.singleton_append]

/-! ## Unsigned arithmetic, on naturals below `2 ^ 64` -/

/-- `a + b`, panicking when it overflows. -/
def add (a b : ℕ) : Rust ε ℕ := if a + b < 2 ^ 64 then .ok (a + b) else panicked

/-- `a - b`, panicking when it overflows. -/
def sub (a b : ℕ) : Rust ε ℕ := if b ≤ a then .ok (a - b) else panicked

/-- `a * b`, panicking when it overflows. -/
def mul (a b : ℕ) : Rust ε ℕ := if a * b < 2 ^ 64 then .ok (a * b) else panicked

/-- `checked_add`. -/
def checkedAdd (a b : ℕ) : Option ℕ := if a + b < 2 ^ 64 then some (a + b) else none

/-- `checked_mul`. -/
def checkedMul (a b : ℕ) : Option ℕ := if a * b < 2 ^ 64 then some (a * b) else none

/-- `checked_sub`. -/
def checkedSub (a b : ℕ) : Option ℕ := if b ≤ a then some (a - b) else none

/-- `saturating_add`. -/
def saturatingAdd (a b : ℕ) : ℕ := min (a + b) (2 ^ 64 - 1)

/-! ## Arithmetic on words -/

/-- `a + n` on `u64`, panicking when it overflows. -/
def addWord (a : U64) (n : ℕ) : Rust ε U64 :=
  if a.toNat + n < 2 ^ 64 then .ok (a + BitVec.ofNat 64 n) else panicked

/-- `((a as i64) + d) as u64`, panicking when the signed addition overflows. -/
def addSigned (a d : U64) : Rust ε U64 :=
  if a.saddOverflow d then panicked else .ok (a + d)

/-- `isize::saturating_add`. -/
def saturatingAddSigned (a b : U64) : ℤ :=
  max (-2 ^ 63) (min (a.toInt + b.toInt) (2 ^ 63 - 1))

@[simp] theorem addWord_eq_ok {a b : U64} {n : ℕ} :
    (addWord a n : Rust ε U64) = .ok b ↔ a.toNat + n < 2 ^ 64 ∧ a + BitVec.ofNat 64 n = b := by
  rw [addWord]
  split <;> simp_all [panicked]

@[simp] theorem addSigned_eq_ok {a b d : U64} :
    (addSigned a d : Rust ε U64) = .ok b ↔ a.saddOverflow d = false ∧ a + d = b := by
  rw [addSigned]
  split <;> simp_all [panicked]

theorem addWord_eq_panic {a : U64} {n : ℕ} :
    (addWord a n : Rust ε U64) = .error .panic ↔ 2 ^ 64 ≤ a.toNat + n := by
  rw [addWord]
  split <;> simp_all [panicked]

theorem addSigned_eq_panic {a d : U64} :
    (addSigned a d : Rust ε U64) = .error .panic ↔ a.saddOverflow d = true := by
  rw [addSigned]
  split <;> simp_all [panicked]

/-- A count or an index as an `isize`. -/
theorem ofNat_of_lt {n : ℕ} (h : n < 2 ^ 63) :
    ¬(BitVec.ofNat 64 n).toInt < 0 ∧ (BitVec.ofNat 64 n).toNat = n := by
  have hnat : (BitVec.ofNat 64 n).toNat = n := by
    rw [BitVec.toNat_ofNat]
    omega
  refine ⟨?_, hnat⟩
  rw [BitVec.toInt_eq_toNat_of_lt (by omega), hnat]
  omega

/-! ## Running a computation -/

@[simp] theorem ok_bind (a : α) (f : α → Rust ε β) : (Except.ok a >>= f : Rust ε β) = f a := rfl

@[simp] theorem fail_bind (e : ε) (f : α → Rust ε β) : (fail e >>= f) = fail e := rfl

@[simp] theorem okOr_some (a : α) (e : ε) : okOr (some a) e = .ok a := rfl

@[simp] theorem okOr_none (e : ε) : (okOr none e : Rust ε α) = fail e := rfl

theorem failIf_of {c : Prop} [Decidable c] {e : ε} (h : c) : failIf c e = fail e := if_pos h

theorem failIf_of_not {c : Prop} [Decidable c] {e : ε} (h : ¬c) : failIf c e = .ok () := if_neg h

@[simp] theorem failIf_eq_ok {c : Prop} [Decidable c] {e : ε} {u : Unit} :
    failIf c e = .ok u ↔ ¬c := by
  rw [failIf]
  split <;> simp_all [fail]

@[simp] theorem failIf_ne_panic {c : Prop} [Decidable c] {e : ε} :
    failIf c e ≠ .error .panic := by
  rw [failIf]
  split <;> simp [fail]

theorem add_of_lt {a b : ℕ} (h : a + b < 2 ^ 64) : (add a b : Rust ε ℕ) = .ok (a + b) := if_pos h

theorem add_of_le {a b : ℕ} (h : 2 ^ 64 ≤ a + b) : (add a b : Rust ε ℕ) = panicked :=
  if_neg (not_lt.mpr h)

theorem mul_of_lt {a b : ℕ} (h : a * b < 2 ^ 64) : (mul a b : Rust ε ℕ) = .ok (a * b) := if_pos h

theorem sub_of_le {a b : ℕ} (h : b ≤ a) : (sub a b : Rust ε ℕ) = .ok (a - b) := if_pos h

theorem checkedSub_of_le {a b : ℕ} (h : b ≤ a) : checkedSub a b = some (a - b) := if_pos h

theorem checkedSub_of_lt {a b : ℕ} (h : a < b) : checkedSub a b = none := if_neg (not_le.mpr h)

theorem checkedAdd_of_lt {a b : ℕ} (h : a + b < 2 ^ 64) : checkedAdd a b = some (a + b) := if_pos h

@[simp] theorem add_eq_ok {a b c : ℕ} :
    (add a b : Rust ε ℕ) = .ok c ↔ a + b < 2 ^ 64 ∧ a + b = c := by
  rw [add]
  split <;> simp_all [panicked]

@[simp] theorem sub_eq_ok {a b c : ℕ} : (sub a b : Rust ε ℕ) = .ok c ↔ b ≤ a ∧ a - b = c := by
  rw [sub]
  split <;> simp_all [panicked]

@[simp] theorem mul_eq_ok {a b c : ℕ} :
    (mul a b : Rust ε ℕ) = .ok c ↔ a * b < 2 ^ 64 ∧ a * b = c := by
  rw [mul]
  split <;> simp_all [panicked]

@[simp] theorem checkedAdd_eq_some {a b c : ℕ} :
    checkedAdd a b = some c ↔ a + b < 2 ^ 64 ∧ a + b = c := by
  rw [checkedAdd]
  split <;> simp_all

@[simp] theorem checkedSub_eq_some {a b c : ℕ} : checkedSub a b = some c ↔ b ≤ a ∧ a - b = c := by
  rw [checkedSub]
  split <;> simp_all

@[simp] theorem range_eq_ok {xs ys : List α} {i j : ℕ} :
    (range xs i j : Rust ε (List α)) = .ok ys ↔
      (i ≤ j ∧ j ≤ xs.length) ∧ Bytes.slice xs i (j - i) = ys := by
  rw [range]
  split <;> simp_all [panicked]

@[simp] theorem copyFromSlice_eq_ok {xs ys zs : List α} {i j : ℕ} :
    (copyFromSlice xs i j ys : Rust ε (List α)) = .ok zs ↔
      (i ≤ j ∧ j ≤ xs.length ∧ j - i = ys.length) ∧ Bytes.overwrite xs i ys = zs := by
  rw [copyFromSlice]
  split <;> simp_all [panicked]

@[simp] theorem setIndex_eq_ok {xs ys : List α} {i : ℕ} {a : α} :
    (setIndex xs i a : Rust ε (List α)) = .ok ys ↔
      i < xs.length ∧ Bytes.overwrite xs i [a] = ys := by
  rw [setIndex]
  split <;> simp_all [panicked]

theorem checkedMul_of_lt {a b : ℕ} (h : a * b < 2 ^ 64) : checkedMul a b = some (a * b) := if_pos h

theorem bind_eq_ok {x : Rust ε α} {f : α → Rust ε β} {b : β} :
    (x >>= f) = .ok b ↔ ∃ a, x = .ok a ∧ f a = .ok b := by
  cases x <;> simp [bind, Except.bind]

theorem bind_eq_panic {x : Rust ε α} {f : α → Rust ε β} :
    (x >>= f) = .error .panic ↔ x = .error .panic ∨ ∃ a, x = .ok a ∧ f a = .error .panic := by
  cases x <;> simp [bind, Except.bind]

@[simp] theorem okOr_eq_ok {o : Option α} {e : ε} {a : α} : okOr o e = .ok a ↔ o = some a := by
  cases o <;> simp [okOr, fail]

@[simp] theorem mapErr_eq_ok {f : ε → ε'} {x : Rust ε α} {a : α} :
    mapErr f x = .ok a ↔ x = .ok a := by
  cases x with
  | ok b => simp [mapErr]
  | error e => cases e <;> simp [mapErr]

@[simp] theorem okOr_ne_panic {o : Option α} {e : ε} : okOr o e ≠ .error .panic := by
  cases o <;> simp [okOr, fail]

end Rust

namespace RustM

variable {ε ε' σ α β : Type}

/-- A stateless function called from one with `&mut` arguments. -/
def lift (x : Rust ε α) : RustM ε σ α := fun s ↦
  match x with
  | .ok a => .ok a s
  | .error e => .error e s

/-- The `Result` of a call, as a value that the caller matches on. -/
def result (x : RustM ε σ α) : RustM ε' σ (Except ε α) := fun s ↦
  match x s with
  | .ok a s' => .ok (.ok a) s'
  | .error (.err e) s' => .ok (.error e) s'
  | .error .panic s' => .error .panic s'

/-- A function that returns no error, called from one that may. -/
def infallible (x : RustM Empty σ α) : RustM ε σ α := fun s ↦
  match x s with
  | .ok a s' => .ok a s'
  | .error .panic s' => .error .panic s'

theorem bind_apply (x : RustM ε σ α) (f : α → RustM ε σ β) (s : σ) :
    (x >>= f) s = match x s with
      | .ok a s' => f a s'
      | .error e s' => .error e s' := by
  cases h : x s <;> simp [bind, EStateM.bind, h]

theorem bind_eq_ok {x : RustM ε σ α} {f : α → RustM ε σ β} {s s' : σ} {b : β} :
    (x >>= f) s = .ok b s' ↔ ∃ a s₁, x s = .ok a s₁ ∧ f a s₁ = .ok b s' := by
  rw [bind_apply]
  cases x s <;> simp

theorem map_eq_ok {x : RustM ε σ α} {f : α → β} {s s' : σ} {b : β} :
    (f <$> x) s = .ok b s' ↔ ∃ a, x s = .ok a s' ∧ f a = b := by
  simp only [Functor.map, EStateM.map]
  cases x s <;> simp [and_comm]

@[simp] theorem pure_eq_ok {a b : α} {s s' : σ} :
    (pure a : RustM ε σ α) s = .ok b s' ↔ b = a ∧ s' = s := by
  rw [show (pure a : RustM ε σ α) s = .ok a s from rfl]
  simp [eq_comm]

@[simp] theorem lift_eq_ok {x : Rust ε α} {s s' : σ} {a : α} :
    (lift x : RustM ε σ α) s = .ok a s' ↔ x = .ok a ∧ s' = s := by
  cases x <;> simp [lift, eq_comm]

@[simp] theorem lift_eq_error {x : Rust ε α} {s s' : σ} {e : Fault ε} :
    (lift x : RustM ε σ α) s = .error e s' ↔ x = .error e ∧ s' = s := by
  cases x <;> simp [lift, eq_comm]

@[simp] theorem result_eq_ok_ok {x : RustM ε σ α} {s s' : σ} {a : α} :
    (result x : RustM ε' σ (Except ε α)) s = .ok (.ok a) s' ↔ x s = .ok a s' := by
  rw [result]
  split <;> simp_all

@[simp] theorem result_eq_ok_error {x : RustM ε σ α} {s s' : σ} {e : ε} :
    (result x : RustM ε' σ (Except ε α)) s = .ok (.error e) s' ↔ x s = .error (.err e) s' := by
  rw [result]
  split <;> simp_all

@[simp] theorem infallible_eq_ok {x : RustM Empty σ α} {s s' : σ} {a : α} :
    (infallible x : RustM ε σ α) s = .ok a s' ↔ x s = .ok a s' := by
  rw [infallible]
  split <;> simp_all

@[simp] theorem get_eq_ok {s s' t : σ} :
    (get : RustM ε σ σ) s = .ok t s' ↔ t = s ∧ s' = s := by
  rw [show (get : RustM ε σ σ) s = .ok s s from rfl]
  simp [eq_comm]

@[simp] theorem modify_eq_ok {f : σ → σ} {s s' : σ} {u : PUnit} :
    (modify f : RustM ε σ PUnit) s = .ok u s' ↔ s' = f s := by
  rw [show (modify f : RustM ε σ PUnit) s = .ok ⟨⟩ (f s) from rfl]
  simp [eq_comm]

end RustM
