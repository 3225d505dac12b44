import LeonOS.Lib.X86

/-!
# How long an instruction is

The number of bytes of an instruction, which the format of the architecture determines without
saying what the instruction does: a repeat prefix, a `REX` prefix, an opcode of one or two bytes,
and what the opcode asks for, a `ModRM` byte with all that belongs to it and an immediate.

The table has more opcodes than `decode`, those of jumps, calls and system calls among them; where
`decode` finds an instruction, its length is this one (`length_of_decode`).
-/

set_option autoImplicit false

namespace X86

open Bytes

/-- What follows an opcode. -/
structure Format where
  /-- Is there a `ModRM` byte? -/
  modrm : Bool
  /-- The number of bytes of the immediate. -/
  imm : ℕ

/-- The opcodes of one byte; `w` is `REX.W`. -/
def oneByte (w : Bool) (op : ℕ) : Option Format :=
  -- the eight operations of the arithmetic block, with their six forms
  if op < 0x40 ∧ op % 8 < 4 then some ⟨true, 0⟩
  else if op < 0x40 ∧ op % 8 = 4 then some ⟨false, 1⟩
  else if op < 0x40 ∧ op % 8 = 5 then some ⟨false, 4⟩
  -- push and pop
  else if 0x50 ≤ op ∧ op < 0x60 then some ⟨false, 0⟩
  else if op = 0x63 then some ⟨true, 0⟩
  -- conditional jumps
  else if 0x70 ≤ op ∧ op < 0x80 then some ⟨false, 1⟩
  -- group 1
  else if op = 0x80 ∨ op = 0x83 then some ⟨true, 1⟩
  else if op = 0x81 then some ⟨true, 4⟩
  -- test, xchg and mov
  else if 0x84 ≤ op ∧ op < 0x8C ∨ op = 0x8D then some ⟨true, 0⟩
  else if op = 0x90 then some ⟨false, 0⟩
  -- mov with an immediate
  else if 0xB8 ≤ op ∧ op < 0xC0 then some ⟨false, if w then 8 else 4⟩
  else if op = 0xC7 then some ⟨true, 4⟩
  else if op = 0xC3 ∨ op = 0xF4 then some ⟨false, 0⟩
  -- call and jmp
  else if op = 0xE8 ∨ op = 0xE9 then some ⟨false, 4⟩
  else if op = 0xEB then some ⟨false, 1⟩
  else if op = 0xFF then some ⟨true, 0⟩
  else none

/-- The opcodes of two bytes, the first of which is `0F`. -/
def twoByte (op : ℕ) : Option Format :=
  -- syscall
  if op = 0x05 then some ⟨false, 0⟩
  -- hints, cmov
  else if 0x18 ≤ op ∧ op < 0x20 ∨ 0x40 ≤ op ∧ op < 0x50 then some ⟨true, 0⟩
  else none

/-- The length up to the end of what follows an opcode that ends at `p`. -/
def Format.lengthFrom (f : Format) (rex : Rex) (code : ℕ → U8) (p : ℕ) : ℕ :=
  (if f.modrm then (decodeRM rex code p).2 else p) + f.imm

/-- The length of an instruction with its opcode at `p`, after the prefix `rex`. -/
def opLength (rex : Rex) (code : ℕ → U8) (p : ℕ) : Option ℕ :=
  if (code p).toNat = 0x0F then
    (twoByte (code (p + 1)).toNat).map (·.lengthFrom rex code (p + 2))
  else (oneByte rex.w (code p).toNat).map (·.lengthFrom rex code (p + 1))

/-- The length of an instruction whose `REX` prefix or opcode is at `p`. -/
def rexLength (code : ℕ → U8) (p : ℕ) : Option ℕ :=
  let pre := (code p).toNat
  if pre / 16 = 4 then
    opLength ⟨true, pre / 8 % 2 = 1, pre / 4 % 2 = 1, pre / 2 % 2 = 1, pre % 2 = 1⟩ code (p + 1)
  else opLength ⟨false, false, false, false, false⟩ code p

/-- **The length of the instruction some bytes encode.** -/
def length (code : ℕ → U8) : Option ℕ :=
  if (code 0).toNat = 0xF3 then rexLength code 1 else rexLength code 0

variable {code : ℕ → U8} {rex : Rex} {p n : ℕ} {i : Instr}

theorem opLength_oneByte {f : Format} (h0F : (code p).toNat ≠ 0x0F)
    (hf : oneByte rex.w (code p).toNat = some f) :
    opLength rex code p = some (f.lengthFrom rex code (p + 1)) := by
  rw [opLength, if_neg h0F, hf]
  rfl

theorem oneByte_push {w : Bool} {op : ℕ} (h : 0x50 ≤ op ∧ op < 0x60) :
    oneByte w op = some ⟨false, 0⟩ := by
  rw [oneByte, if_neg (by omega), if_neg (by omega), if_neg (by omega), if_pos h]

theorem oneByte_mov {w : Bool} {op : ℕ} (h : 0xB8 ≤ op ∧ op < 0xC0) :
    oneByte w op = some ⟨false, if w then 8 else 4⟩ := by
  rw [oneByte, if_neg (by omega), if_neg (by omega), if_neg (by omega), if_neg (by omega),
    if_neg (by omega), if_neg (by omega), if_neg (by omega), if_neg (by omega), if_neg (by omega),
    if_neg (by omega), if_pos h]

/-- The decoder goes on where the format says. -/
theorem opLength_of_decodeOp (h : decodeOp rex code p = some (i, n)) :
    opLength rex code p = some n := by
  have hrm {op : ℕ} (hop : (code p).toNat = op) (h0F : op ≠ 0x0F) (k : ℕ)
      (hf : oneByte rex.w op = some ⟨true, k⟩) :
      opLength rex code p = some ((decodeRM rex code (p + 1)).2 + k) :=
    opLength_oneByte (hop ▸ h0F) (hop ▸ hf)
  simp only [decodeOp] at h
  rcases ite_eq_iff.mp h with ⟨h31, h⟩ | ⟨-, h⟩
  · cases h
    exact hrm h31 (by decide) 0 rfl
  rcases ite_eq_iff.mp h with ⟨h63, h⟩ | ⟨-, h⟩
  · obtain ⟨-, h⟩ := Option.ite_none_right_eq_some.mp h
    cases h
    exact hrm h63 (by decide) 0 rfl
  rcases ite_eq_iff.mp h with ⟨h81, h⟩ | ⟨-, h⟩
  · obtain ⟨o, -, ho⟩ := Option.map_eq_some_iff.mp h
    cases ho
    exact hrm h81 (by decide) 4 rfl
  rcases ite_eq_iff.mp h with ⟨h83, h⟩ | ⟨-, h⟩
  · obtain ⟨o, -, ho⟩ := Option.map_eq_some_iff.mp h
    cases ho
    exact hrm h83 (by decide) 1 rfl
  rcases ite_eq_iff.mp h with ⟨h89, h⟩ | ⟨-, h⟩
  · cases h
    exact hrm h89 (by decide) 0 rfl
  rcases ite_eq_iff.mp h with ⟨h8A, h⟩ | ⟨-, h⟩
  · obtain ⟨-, h⟩ := Option.ite_none_right_eq_some.mp h
    cases h
    exact hrm h8A (by decide) 0 rfl
  rcases ite_eq_iff.mp h with ⟨h8B, h⟩ | ⟨-, h⟩
  · cases h
    exact hrm h8B (by decide) 0 rfl
  rcases ite_eq_iff.mp h with ⟨h8D, h⟩ | ⟨-, h⟩
  · split at h
    · cases h
      exact hrm h8D (by decide) 0 rfl
    · exact nomatch h
  rcases ite_eq_iff.mp h with ⟨hpush, h⟩ | ⟨-, h⟩
  · cases h
    exact opLength_oneByte (by omega) (oneByte_push (by omega))
  rcases ite_eq_iff.mp h with ⟨hpop, h⟩ | ⟨-, h⟩
  · cases h
    exact opLength_oneByte (by omega) (oneByte_push (by omega))
  rcases ite_eq_iff.mp h with ⟨hmov, h⟩ | ⟨-, h⟩
  · rw [opLength_oneByte (by omega) (oneByte_mov hmov), Format.lengthFrom]
    split at h <;> cases h <;> simp [*]
  rcases ite_eq_iff.mp h with ⟨hC7, h⟩ | ⟨-, h⟩
  · obtain ⟨-, h⟩ := Option.ite_none_right_eq_some.mp h
    cases h
    exact hrm hC7 (by decide) 4 rfl
  obtain ⟨⟨h0F, h49⟩, h⟩ := Option.ite_none_right_eq_some.mp h
  cases h
  rw [opLength, if_pos h0F, h49]
  rfl

/-- **The decoder and the format agree** on the length of an instruction. -/
theorem length_of_decode (h : decode code = some (i, n)) : length code = some n := by
  rw [decode] at h
  rw [length, if_neg, rexLength]
  · split_ifs at h ⊢ with hrex
    · exact opLength_of_decodeOp h
    · exact opLength_of_decodeOp h
  · intro hF3
    simp [hF3, decodeOp] at h

end X86
