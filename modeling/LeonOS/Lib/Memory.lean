import LeonOS.Lib.Rust

/-!
# Memory

Two views of memory and the way between them.

* A *flat* memory is a function `ℕ → U8`; `peek m a n` reads the `n` bytes at `a` and
  `poke m a bs` writes some.  An access at `a` touches `a, a + 1, …` and does not wrap.
* A *window* is a vector of bytes that stands at an address `base`: the program address `va` is
  the element `va - base`.  `Window.index` is that translation with its two bounds checks, and
  `Window.access` is the same for an access of `n` bytes, which must end inside the vector too.

`Window.view` is the window as a flat memory, and `peek_view` and `view_overwrite` say that a
checked access to the vector is the access to the flat memory.
-/

set_option autoImplicit false

open Bytes

/-! ## Flat memory -/

/-- The `n` bytes at `a`. -/
def peek (m : ℕ → U8) (a n : ℕ) : List U8 := (List.range n).map fun i ↦ m (a + i)

/-- Memory with some bytes written at `a`. -/
def poke (m : ℕ → U8) (a : ℕ) (bs : List U8) : ℕ → U8 := fun x ↦
  if a ≤ x ∧ x < a + bs.length then bs.getD (x - a) 0 else m x

@[simp] theorem length_peek (m : ℕ → U8) (a n : ℕ) : (peek m a n).length = n := by
  simp [peek]

theorem getElem?_peek (m : ℕ → U8) (a n k : ℕ) :
    (peek m a n)[k]? = if k < n then some (m (a + k)) else none := by
  rw [peek, List.getElem?_map]
  split
  · rename_i hk
    rw [List.getElem?_range hk, Option.map_some]
  · rename_i hk
    rw [List.getElem?_eq_none (by simpa using hk), Option.map_none]

theorem peek_succ (m : ℕ → U8) (a n : ℕ) : peek m a (n + 1) = m a :: peek m (a + 1) n := by
  rw [peek, List.range_succ_eq_map, List.map_cons, List.map_map, peek, Nat.add_zero]
  refine congrArg _ (List.map_congr_left fun i _ ↦ ?_)
  rw [Function.comp_apply, Nat.succ_eq_add_one, Nat.add_assoc, Nat.add_comm 1]

theorem peek_congr {m m' : ℕ → U8} {a n : ℕ} (h : ∀ x, a ≤ x → x < a + n → m x = m' x) :
    peek m a n = peek m' a n := by
  refine List.map_congr_left fun i hi ↦ h _ (by omega) ?_
  have := List.mem_range.mp hi
  omega

theorem poke_of_lt {m : ℕ → U8} {a x : ℕ} {bs : List U8} (h : x < a ∨ a + bs.length ≤ x) :
    poke m a bs x = m x :=
  if_neg (by omega)

@[simp] theorem poke_nil (m : ℕ → U8) (a : ℕ) : poke m a [] = m := by
  funext x
  exact poke_of_lt (by rw [List.length_nil]; omega)

theorem peek_poke_self (m : ℕ → U8) (a : ℕ) (bs : List U8) :
    peek (poke m a bs) a bs.length = bs := by
  apply List.ext_getElem?
  intro k
  rw [getElem?_peek]
  split
  · rename_i hk
    rw [poke, if_pos (by omega), Nat.add_sub_cancel_left, List.getD_eq_getElem?_getD,
      List.getElem?_eq_getElem hk, Option.getD_some]
  · rw [List.getElem?_eq_none (by omega)]

/-- A part of what was written. -/
theorem peek_poke_slice {m : ℕ → U8} {a i n : ℕ} {bs : List U8} (h : i + n ≤ bs.length) :
    peek (poke m a bs) (a + i) n = slice bs i n := by
  apply List.ext_getElem?
  intro k
  rw [getElem?_peek, getElem?_slice]
  split
  · rename_i hk
    rw [poke, if_pos (by omega), Nat.add_assoc, Nat.add_sub_cancel_left,
      List.getD_eq_getElem?_getD, List.getElem?_eq_getElem (by omega), Option.getD_some]
  · rfl

/-- Two writes, the second behind the first. -/
theorem poke_poke_append (m : ℕ → U8) (a : ℕ) (bs cs : List U8) :
    poke (poke m a bs) (a + bs.length) cs = poke m a (bs ++ cs) := by
  funext x
  simp only [poke, List.length_append, List.getD_eq_getElem?_getD]
  by_cases hcs : a + bs.length ≤ x
  · rw [List.getElem?_append_right (by omega), Nat.sub_add_eq]
    split
    · rw [if_pos (by omega)]
    · rw [if_neg (by omega), if_neg (by omega)]
  · rw [if_neg (by omega)]
    split
    · rw [if_pos (by omega), List.getElem?_append_left (by omega)]
    · rw [if_neg (by omega)]

/-- Bytes in front of those that were written before. -/
theorem poke_poke_front (m : ℕ → U8) (a : ℕ) (bs cs : List U8) :
    poke (poke m (a + bs.length) cs) a bs = poke m a (bs ++ cs) := by
  rw [← poke_poke_append]
  funext x
  by_cases hx : a ≤ x ∧ x < a + bs.length
  · rw [poke_of_lt (a := a + bs.length) (.inl hx.2)]
    simp only [poke, if_pos hx]
  · have hkept : poke m a bs x = m x := poke_of_lt (by omega)
    rw [poke_of_lt (by omega)]
    simp only [poke] at hkept ⊢
    rw [hkept]

theorem peek_poke_of_disjoint {m : ℕ → U8} {a b n : ℕ} {bs : List U8}
    (h : b + n ≤ a ∨ a + bs.length ≤ b) : peek (poke m a bs) b n = peek m b n :=
  peek_congr fun _ _ _ ↦ poke_of_lt (by omega)

/-! ## Windows -/

namespace Window

variable {ε : Type}

/-- The element of a window for an address, or the error `oor` when the address is outside. -/
def index (oor : ε) (base : U64) (mem : List U8) (va : U64) : Rust ε ℕ :=
  if va.toNat < base.toNat then Rust.fail oor
  else if va.toNat - base.toNat ≥ mem.length then Rust.fail oor
  else .ok (va.toNat - base.toNat)

/-- The first element of an access to `n` bytes, every one of which is checked. -/
def access (oor : ε) (base : U64) (mem : List U8) (va : U64) (n : ℕ) : Rust ε ℕ := do
  let i ← index oor base mem va
  let last ← Rust.okOr (Rust.checkedAdd i n) oor
  Rust.failIf (last > mem.length) oor
  return i

/-- Write some bytes at an address; the value is the vector afterwards. -/
def write (oor : ε) (base : U64) (mem : List U8) (va : U64) (bs : List U8) : Rust ε (List U8) := do
  let i ← access oor base mem va bs.length
  Rust.copyFromSlice mem i (i + bs.length) bs

/-- A window as flat memory, zero outside. -/
def view (base : U64) (mem : List U8) (a : ℕ) : U8 :=
  if base.toNat ≤ a then mem.getD (a - base.toNat) 0 else 0

variable {oor : ε} {base va : U64} {mem bs : List U8} {i n : ℕ}

theorem index_eq_ok :
    index oor base mem va = .ok i ↔ va.toNat = base.toNat + i ∧ i < mem.length := by
  rw [index]
  split
  · simp [Rust.fail]; omega
  · split
    · simp [Rust.fail]; omega
    · simp; omega

theorem index_ne_panic : index oor base mem va ≠ .error .panic := by
  rw [index]
  split
  · simp [Rust.fail]
  · split <;> simp [Rust.fail]

theorem access_eq_ok (hmem : mem.length < 2 ^ 64) :
    access oor base mem va n = .ok i ↔
      va.toNat = base.toNat + i ∧ i < mem.length ∧ i + n ≤ mem.length := by
  rw [access, Rust.bind_eq_ok]
  constructor
  · rintro ⟨j, hj, h⟩
    obtain ⟨last, hl, h⟩ := Rust.bind_eq_ok.mp h
    rw [Rust.okOr_eq_ok, Rust.checkedAdd_eq_some] at hl
    obtain ⟨-, rfl⟩ := hl
    rw [index_eq_ok] at hj
    obtain ⟨_, hl, h⟩ := Rust.bind_eq_ok.mp h
    rw [Rust.failIf_eq_ok] at hl
    obtain rfl := Except.ok.inj h
    omega
  · rintro ⟨hva, hi, hn⟩
    refine ⟨i, index_eq_ok.mpr ⟨hva, hi⟩, ?_⟩
    rw [Rust.checkedAdd_of_lt (by omega), Rust.okOr_some, Rust.ok_bind,
      Rust.failIf_of_not (by omega)]
    rfl

theorem access_bound (h : access oor base mem va n = .ok i) :
    va.toNat = base.toNat + i ∧ i < mem.length ∧ i + n ≤ mem.length := by
  rw [access, Rust.bind_eq_ok] at h
  obtain ⟨j, hj, h⟩ := h
  obtain ⟨last, hl, h⟩ := Rust.bind_eq_ok.mp h
  rw [Rust.okOr_eq_ok, Rust.checkedAdd_eq_some] at hl
  obtain ⟨-, rfl⟩ := hl
  rw [index_eq_ok] at hj
  obtain ⟨_, hl, h⟩ := Rust.bind_eq_ok.mp h
  rw [Rust.failIf_eq_ok] at hl
  obtain rfl := Except.ok.inj h
  omega

theorem access_ne_panic : access oor base mem va n ≠ .error .panic := by
  intro h
  rw [access, Rust.bind_eq_panic] at h
  rcases h with h | ⟨i, -, h⟩
  · exact index_ne_panic h
  rcases Rust.bind_eq_panic.mp h with h | ⟨last, -, h⟩
  · exact Rust.okOr_ne_panic h
  rcases Rust.bind_eq_panic.mp h with h | ⟨_, -, h⟩
  · exact Rust.failIf_ne_panic h
  · exact nomatch h

theorem write_ne_panic : write oor base mem va bs ≠ .error .panic := by
  intro h
  rw [write, Rust.bind_eq_panic] at h
  rcases h with h | ⟨i, hi, h⟩
  · exact access_ne_panic h
  · rw [Rust.copyFromSlice_of_le (access_bound hi).2.2 rfl] at h
    exact nomatch h

/-- **A write is an overwrite of the vector** at the translated address. -/
theorem write_eq_ok {mem' : List U8} (h : write oor base mem va bs = .ok mem') :
    ∃ i, va.toNat = base.toNat + i ∧ i < mem.length ∧ i + bs.length ≤ mem.length ∧
      mem' = overwrite mem i bs := by
  obtain ⟨i, hi, h⟩ := Rust.bind_eq_ok.mp h
  obtain ⟨hva, hlt, hle⟩ := access_bound hi
  rw [Rust.copyFromSlice_of_le hle rfl] at h
  exact ⟨i, hva, hlt, hle, (Except.ok.inj h).symm⟩

/-- What a checked read of the vector finds is what the flat memory holds there. -/
theorem peek_view (h : i + n ≤ mem.length) :
    peek (view base mem) (base.toNat + i) n = slice mem i n := by
  apply List.ext_getElem?
  intro k
  rw [getElem?_slice, getElem?_peek]
  split
  · rw [view, if_pos (by omega), show base.toNat + i + k - base.toNat = i + k by omega,
      List.getD_eq_getElem?_getD, List.getElem?_eq_getElem (by omega), Option.getD_some]
  · rfl

/-- Writing over the vector is writing to the flat memory. -/
theorem view_overwrite (h : i + bs.length ≤ mem.length) :
    view base (overwrite mem i bs) = poke (view base mem) (base.toNat + i) bs := by
  funext a
  rw [poke, view, view]
  rcases Nat.lt_or_ge a base.toNat with ha | ha
  · rw [if_neg (by omega), if_neg (by omega), if_neg (by omega)]
  · rw [if_pos ha, if_pos ha, List.getD_eq_getElem?_getD, getElem?_overwrite h]
    split
    · rw [if_pos (by omega), List.getD_eq_getElem?_getD,
        show a - (base.toNat + i) = a - base.toNat - i by omega]
    · rw [if_neg (by omega), List.getD_eq_getElem?_getD]

theorem write_changesOnly {mem' : List U8} (h : write oor base mem va bs = .ok mem') :
    ∃ i, va.toNat = base.toNat + i ∧ ChangesOnly mem mem' i bs.length := by
  obtain ⟨i, hva, -, hle, rfl⟩ := write_eq_ok h
  exact ⟨i, hva, changesOnly_overwrite hle⟩

/-- Where the flat memory of a changed window is another. -/
theorem mem_of_view_ne {mem' : List U8} (h : ChangesOnly mem mem' i n) {x : ℕ}
    (hx : view base mem' x ≠ view base mem x) : base.toNat + i ≤ x ∧ x < base.toNat + i + n := by
  by_contra hout
  refine hx ?_
  rw [view, view]
  split
  · rw [List.getD_eq_getElem?_getD, List.getD_eq_getElem?_getD, h.same _ (by omega)]
  · rfl

/-! ### What a window holds -/

/-- The window holds these bytes at an address. -/
def Holds (base : U64) (mem : List U8) (a : ℕ) (bs : List U8) : Prop :=
  ∃ pre post, mem = pre ++ (bs ++ post) ∧ a = base.toNat + pre.length

theorem Holds.le {a : ℕ} (h : Holds base mem a bs) :
    base.toNat ≤ a ∧ a + bs.length ≤ base.toNat + mem.length := by
  obtain ⟨pre, post, rfl, rfl⟩ := h
  simp only [List.length_append]
  omega

theorem holds_append {a : ℕ} {bs cs : List U8} :
    Holds base mem a (bs ++ cs) ↔ Holds base mem a bs ∧ Holds base mem (a + bs.length) cs := by
  constructor
  · rintro ⟨pre, post, rfl, rfl⟩
    refine ⟨⟨pre, cs ++ post, by simp, rfl⟩, pre ++ bs, post, by simp, ?_⟩
    rw [List.length_append, Nat.add_assoc]
  · rintro ⟨⟨pre, post, rfl, rfl⟩, pre', post', hmem, hlen⟩
    have hpre : pre'.length = (pre ++ bs).length := by
      rw [List.length_append]
      omega
    rw [← List.append_assoc] at hmem
    obtain ⟨-, rfl⟩ := List.append_inj hmem hpre.symm
    exact ⟨pre, post', by rw [List.append_assoc], rfl⟩

theorem holds_overwrite (h : i + bs.length ≤ mem.length) :
    Holds base (overwrite mem i bs) (base.toNat + i) bs :=
  ⟨mem.take i, mem.drop (i + bs.length), by rw [overwrite, List.append_assoc],
    by rw [List.length_take]; omega⟩

/-- A write below leaves it alone. -/
theorem Holds.overwrite_below {a : ℕ} {cs : List U8} (h : Holds base mem a bs)
    (hle : base.toNat + i + cs.length ≤ a) : Holds base (overwrite mem i cs) a bs := by
  obtain ⟨pre, post, rfl, rfl⟩ := h
  refine ⟨overwrite pre i cs, post, overwrite_append_left (by omega), ?_⟩
  rw [length_overwrite (by omega)]

/-- **What is held is what is read**. -/
theorem Holds.access_eq {a : ℕ} (oor : ε) (h : Holds base mem a bs) (hne : bs ≠ [])
    (hend : base.toNat + mem.length < 2 ^ 64) :
    ∃ i, access oor base mem (BitVec.ofNat 64 a) bs.length = .ok i ∧ slice mem i bs.length = bs := by
  have hle := h.le
  have hpos := List.length_pos_iff.mpr hne
  obtain ⟨pre, post, rfl, rfl⟩ := h
  refine ⟨pre.length, (access_eq_ok (by omega)).mpr ⟨?_, by omega, by omega⟩,
    slice_middle post rfl rfl⟩
  rw [BitVec.toNat_ofNat, Nat.mod_eq_of_lt (by omega)]

end Window
