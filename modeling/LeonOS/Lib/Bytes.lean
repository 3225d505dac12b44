import Mathlib

/-!
# Byte strings

What a program that packs records into buffers needs to know about lists of bytes: little-endian
numbers of a fixed width, the part of a list between two indices, and writing one list over a part
of another.

* `ofLE` and `toLE` read and write a number, least significant byte first; what is written is read
  back, up to the width (`ofLE_toLE`).
* `slice xs i n` is the `n` elements from index `i` on.
* `overwrite xs i ys` puts `ys` over the elements of `xs` from index `i` on.  Everything a proof
  asks about it is one of three questions: its length, an element of it (`getElem?_overwrite`), or
  a slice of it that the write hits exactly or misses (`slice_overwrite_self`,
  `slice_overwrite_of_disjoint`).
-/

set_option autoImplicit false

/-- A byte, the `u8` of the sources. -/
abbrev U8 := BitVec 8

/-- A 64-bit word, the `u64` of the sources. -/
abbrev U64 := BitVec 64

namespace Bytes

/-! ## Little-endian numbers -/

/-- The number written by some bytes, least significant byte first. -/
def ofLE : List U8 → ℕ
  | [] => 0
  | b :: bs => b.toNat + 256 * ofLE bs

/-- The low `w` bytes of a number, least significant byte first. -/
def toLE : ℕ → ℕ → List U8
  | 0, _ => []
  | w + 1, n => BitVec.ofNat 8 n :: toLE w (n / 256)

@[simp] theorem length_toLE (w n : ℕ) : (toLE w n).length = w := by
  induction w generalizing n with
  | zero => rfl
  | succ w ih => rw [toLE, List.length_cons, ih]

theorem ofLE_lt (bs : List U8) : ofLE bs < 256 ^ bs.length := by
  induction bs with
  | nil => simp [ofLE]
  | cons b bs ih =>
    have hb : b.toNat < 256 := b.isLt
    rw [ofLE, List.length_cons, pow_succ]
    omega

theorem ofLE_toLE (w n : ℕ) : ofLE (toLE w n) = n % 256 ^ w := by
  induction w generalizing n with
  | zero => simp [toLE, ofLE, Nat.mod_one]
  | succ w ih =>
    rw [toLE, ofLE, ih, pow_succ', Nat.mod_mul, BitVec.toNat_ofNat]

theorem ofLE_toLE_of_lt {w n : ℕ} (h : n < 256 ^ w) : ofLE (toLE w n) = n := by
  rw [ofLE_toLE, Nat.mod_eq_of_lt h]

/-- Only the low bytes are written. -/
theorem toLE_congr {w m n : ℕ} (h : m % 256 ^ w = n % 256 ^ w) : toLE w m = toLE w n := by
  induction w generalizing m n with
  | zero => rfl
  | succ w ih =>
    rw [pow_succ', Nat.mod_mul, Nat.mod_mul] at h
    have hb : BitVec.ofNat 8 m = BitVec.ofNat 8 n := by
      rw [← BitVec.toNat_inj, BitVec.toNat_ofNat, BitVec.toNat_ofNat]
      omega
    have hrest : toLE w (m / 256) = toLE w (n / 256) := ih (by omega)
    rw [toLE, toLE, hb, hrest]

/-! ## Slices -/

variable {α : Type*}

/-- The `n` elements of `xs` from index `i` on (fewer where `xs` ends before). -/
def slice (xs : List α) (i n : ℕ) : List α := (xs.drop i).take n

@[simp] theorem length_slice (xs : List α) (i n : ℕ) :
    (slice xs i n).length = min n (xs.length - i) := by
  rw [slice, List.length_take, List.length_drop]

theorem length_slice_of_le {xs : List α} {i n : ℕ} (h : i + n ≤ xs.length) :
    (slice xs i n).length = n := by
  rw [length_slice]
  omega

theorem getElem?_slice (xs : List α) (i n k : ℕ) :
    (slice xs i n)[k]? = if k < n then xs[i + k]? else none := by
  rw [slice, List.getElem?_take]
  split
  · rw [List.getElem?_drop]
  · rfl

theorem slice_append_left {xs ys : List α} {i n : ℕ} (h : i + n ≤ xs.length) :
    slice (xs ++ ys) i n = slice xs i n := by
  rw [slice, slice, List.drop_append_of_le_length (by omega),
    List.take_append_of_le_length (by rw [List.length_drop]; omega)]

theorem slice_append_right (xs ys : List α) (i n : ℕ) :
    slice (xs ++ ys) (xs.length + i) n = slice ys i n := by
  rw [slice, slice, ← List.drop_drop, List.drop_left]

theorem slice_prefix (xs ys : List α) : slice (xs ++ ys) 0 xs.length = xs := by
  rw [slice, List.drop_zero, List.take_left]

/-- The middle one of three parts. -/
theorem slice_middle {xs ys : List α} (zs : List α) {i n : ℕ} (hi : i = xs.length)
    (hn : n = ys.length) : slice (xs ++ (ys ++ zs)) i n = ys := by
  have h := slice_append_right xs (ys ++ zs) 0 ys.length
  rw [Nat.add_zero, slice_prefix] at h
  rw [hi, hn, h]

theorem slice_slice {xs : List α} {i n j m : ℕ} (h : j + m ≤ n) :
    slice (slice xs i n) j m = slice xs (i + j) m := by
  rw [slice, slice, slice, List.drop_take, List.take_take, List.drop_drop]
  congr 1
  omega

/-! ## Overwriting -/

/-- `xs` with `ys` written over the elements from index `i` on. -/
def overwrite (xs : List α) (i : ℕ) (ys : List α) : List α :=
  xs.take i ++ ys ++ xs.drop (i + ys.length)

@[simp] theorem length_overwrite {xs : List α} {i : ℕ} {ys : List α}
    (h : i + ys.length ≤ xs.length) : (overwrite xs i ys).length = xs.length := by
  rw [overwrite, List.length_append, List.length_append, List.length_take, List.length_drop]
  omega

@[simp] theorem overwrite_nil (xs : List α) (i : ℕ) : overwrite xs i [] = xs := by
  simp [overwrite]

theorem getElem?_overwrite {xs : List α} {i : ℕ} {ys : List α} (h : i + ys.length ≤ xs.length)
    (k : ℕ) : (overwrite xs i ys)[k]? =
      if i ≤ k ∧ k < i + ys.length then ys[k - i]? else xs[k]? := by
  have hi : (xs.take i).length = i := by rw [List.length_take]; omega
  rw [overwrite, List.append_assoc]
  rcases Nat.lt_or_ge k i with hk | hk
  · rw [List.getElem?_append_left (by omega), List.getElem?_take, if_pos hk, if_neg (by omega)]
  · rw [List.getElem?_append_right (by omega), hi]
    rcases Nat.lt_or_ge k (i + ys.length) with hk' | hk'
    · rw [List.getElem?_append_left (by omega), if_pos ⟨hk, hk'⟩]
    · rw [List.getElem?_append_right (by omega), List.getElem?_drop, if_neg (by omega)]
      congr 1
      omega

theorem slice_overwrite_self {xs : List α} {i : ℕ} {ys : List α} (h : i + ys.length ≤ xs.length) :
    slice (overwrite xs i ys) i ys.length = ys := by
  have hi : (xs.take i).length = i := by rw [List.length_take]; omega
  have hs := slice_append_right (xs.take i) (ys ++ xs.drop (i + ys.length)) 0 ys.length
  rw [overwrite, List.append_assoc]
  rwa [hi, Nat.add_zero, slice_prefix] at hs

theorem slice_overwrite_of_disjoint {xs : List α} {i : ℕ} {ys : List α} {j n : ℕ}
    (h : i + ys.length ≤ xs.length) (hd : j + n ≤ i ∨ i + ys.length ≤ j) :
    slice (overwrite xs i ys) j n = slice xs j n := by
  apply List.ext_getElem?
  intro k
  rw [getElem?_slice, getElem?_slice, getElem?_overwrite h]
  split
  · rw [if_neg (by omega)]
  · rfl

theorem overwrite_append_left {xs zs : List α} {i : ℕ} {ys : List α}
    (h : i + ys.length ≤ xs.length) : overwrite (xs ++ zs) i ys = overwrite xs i ys ++ zs := by
  rw [overwrite, overwrite, List.take_append_of_le_length (by omega),
    List.drop_append_of_le_length h, ← List.append_assoc]

theorem overwrite_append_right (xs zs : List α) (i : ℕ) (ys : List α) :
    overwrite (xs ++ zs) (xs.length + i) ys = xs ++ overwrite zs i ys := by
  rw [overwrite, overwrite, List.take_length_add_append, Nat.add_assoc,
    List.drop_length_add_append, List.append_assoc, List.append_assoc, List.append_assoc]

/-- Two writes, the second right before the first. -/
theorem overwrite_overwrite_before {xs ys zs : List α} {i : ℕ} (h : i + ys.length ≤ xs.length) :
    overwrite (overwrite xs (i + ys.length) zs) i ys = overwrite xs i (ys ++ zs) := by
  have hlen : (xs.take (i + ys.length)).length = i + ys.length := by
    rw [List.length_take]
    omega
  rw [overwrite, overwrite, overwrite, List.append_assoc (xs.take _),
    List.take_append_of_le_length (by omega), List.take_take, min_eq_left (by omega),
    List.drop_left' hlen, List.length_append, Nat.add_assoc]
  simp only [List.append_assoc]

/-- Two writes, the second right behind the first. -/
theorem overwrite_overwrite_behind {xs ys zs : List α} {i : ℕ} (h : i + ys.length ≤ xs.length) :
    overwrite (overwrite xs i ys) (i + ys.length) zs = overwrite xs i (ys ++ zs) := by
  have hlen : (xs.take i ++ ys).length = i + ys.length := by
    rw [List.length_append, List.length_take]
    omega
  rw [overwrite, overwrite, overwrite, List.take_left' hlen, ← List.drop_drop,
    List.drop_left' hlen, List.drop_drop, List.length_append, Nat.add_assoc]
  simp only [List.append_assoc]

/-- A part of the list, changed at its beginning and put back. -/
theorem overwrite_slice {xs ys : List α} {i n : ℕ} (h : i + n ≤ xs.length)
    (hle : ys.length ≤ n) : overwrite xs i (overwrite (slice xs i n) 0 ys) = overwrite xs i ys := by
  have hn := length_slice_of_le h
  have hpart : 0 + ys.length ≤ (slice xs i n).length := by omega
  have hlen : (overwrite (slice xs i n) 0 ys).length = n := by rw [length_overwrite hpart, hn]
  have hwhole : i + (overwrite (slice xs i n) 0 ys).length ≤ xs.length := by omega
  have hys : i + ys.length ≤ xs.length := by omega
  apply List.ext_getElem?
  intro k
  rw [getElem?_overwrite hwhole, getElem?_overwrite hys, getElem?_overwrite hpart,
    getElem?_slice, hlen, Nat.zero_add, Nat.sub_zero]
  by_cases hk : i ≤ k ∧ k < i + n
  · have hback : i + (k - i) = k := by omega
    rw [if_pos hk, if_pos (show k - i < n by omega), hback]
    simp only [Nat.zero_le, true_and, hk.1, Nat.sub_lt_iff_lt_add' hk.1]
  · rw [if_neg hk, if_neg (by omega)]

/-! ### What stays -/

/-- `ys` is `xs` but for the `n` elements from index `i` on. -/
structure ChangesOnly (xs ys : List α) (i n : ℕ) : Prop where
  /-- There are as many elements. -/
  length : ys.length = xs.length
  /-- An element outside is the same. -/
  same : ∀ k, k < i ∨ i + n ≤ k → ys[k]? = xs[k]?

theorem ChangesOnly.rfl {xs : List α} {i n : ℕ} : ChangesOnly xs xs i n where
  length := Eq.refl _
  same _ _ := Eq.refl _

theorem changesOnly_overwrite {xs ys : List α} {i : ℕ} (h : i + ys.length ≤ xs.length) :
    ChangesOnly xs (overwrite xs i ys) i ys.length where
  length := length_overwrite h
  same k hk := by rw [getElem?_overwrite h, if_neg (by omega)]

theorem ChangesOnly.trans {xs ys zs : List α} {i n : ℕ} (h : ChangesOnly xs ys i n)
    (h' : ChangesOnly ys zs i n) : ChangesOnly xs zs i n where
  length := h'.length.trans h.length
  same k hk := (h'.same k hk).trans (h.same k hk)

theorem ChangesOnly.mono {xs ys : List α} {i n j m : ℕ} (h : ChangesOnly xs ys i n)
    (hlo : j ≤ i) (hhi : i + n ≤ j + m) : ChangesOnly xs ys j m where
  length := h.length
  same k hk := h.same k (by omega)

/-! ### Several fields -/

/-- `xs` with several fields, each a place and its contents, written over it. -/
def overwriteAll (xs : List α) (fs : List (ℕ × List α)) : List α :=
  fs.foldl (fun xs f ↦ overwrite xs f.1 f.2) xs

theorem length_overwriteAll {xs : List α} {fs : List (ℕ × List α)}
    (h : ∀ f ∈ fs, f.1 + f.2.length ≤ xs.length) : (overwriteAll xs fs).length = xs.length := by
  induction fs generalizing xs with
  | nil => rfl
  | cons f fs ih =>
    have hf := length_overwrite (h f List.mem_cons_self)
    rw [overwriteAll, List.foldl_cons, ← overwriteAll, ih, hf]
    intro g hg
    rw [hf]
    exact h g (List.mem_cons_of_mem f hg)

/-- What no field touches is kept. -/
theorem slice_overwriteAll_of_disjoint {xs : List α} {fs : List (ℕ × List α)} {j n : ℕ}
    (h : ∀ f ∈ fs, f.1 + f.2.length ≤ xs.length)
    (hd : ∀ f ∈ fs, j + n ≤ f.1 ∨ f.1 + f.2.length ≤ j) :
    slice (overwriteAll xs fs) j n = slice xs j n := by
  induction fs generalizing xs with
  | nil => rfl
  | cons f fs ih =>
    have hf := h f List.mem_cons_self
    rw [overwriteAll, List.foldl_cons, ← overwriteAll, ih, slice_overwrite_of_disjoint hf]
    · exact hd f List.mem_cons_self
    · intro g hg
      rw [length_overwrite hf]
      exact h g (List.mem_cons_of_mem f hg)
    · exact fun g hg ↦ hd g (List.mem_cons_of_mem f hg)

/-- **Fields that lie one behind the other are read back** as they were written. -/
theorem slice_overwriteAll {xs : List α} {fs : List (ℕ × List α)}
    (h : ∀ f ∈ fs, f.1 + f.2.length ≤ xs.length)
    (hp : fs.Pairwise fun f g ↦ f.1 + f.2.length ≤ g.1) {f : ℕ × List α} (hf : f ∈ fs) :
    slice (overwriteAll xs fs) f.1 f.2.length = f.2 := by
  induction fs generalizing xs with
  | nil => exact absurd hf List.not_mem_nil
  | cons g fs ih =>
    have hg := h g List.mem_cons_self
    have hrest : ∀ f ∈ fs, f.1 + f.2.length ≤ (overwrite xs g.1 g.2).length := fun f hf ↦ by
      rw [length_overwrite hg]
      exact h f (List.mem_cons_of_mem g hf)
    rw [List.pairwise_cons] at hp
    rw [overwriteAll, List.foldl_cons, ← overwriteAll]
    rcases List.mem_cons.mp hf with rfl | hf
    · rw [slice_overwriteAll_of_disjoint hrest fun g hg ↦ .inl (hp.1 g hg),
        slice_overwrite_self hg]
    · exact ih hrest hp.2 hf

end Bytes
