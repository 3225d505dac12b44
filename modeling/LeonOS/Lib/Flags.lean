import LeonOS.Lib.Encoding

/-!
# The zero flag and the sign flag

Which instructions set the two flags, and to what (`flagsAfter`).  Arithmetic and logic set them
from the result, in the size of the operands; moves, loads of addresses, pushes and pops, jumps and
calls leave them as they are.

`test` and `cmp` are no instructions of `decode`, since they do nothing but that; they are the
`Compare`s, with a decoder of their own.
-/

set_option autoImplicit false

namespace X86

open Bytes

/-- The two flags. -/
@[ext] structure Flags where
  /-- The result is zero. -/
  zf : Bool
  /-- The result is negative. -/
  sf : Bool
  deriving DecidableEq, Repr

/-- The sign of an operand. -/
def Size.sign : Size → U64 → Bool
  | .byte, v => v.getLsbD 7
  | .dword, v => v.getLsbD 31
  | .qword, v => v.msb

/-- The flags of a result. -/
def Flags.ofResult (size : Size) (v : U64) : Flags := ⟨size.truncate v = 0, size.sign v⟩

/-- The instructions that set the flags and nothing else. -/
inductive Compare where
  /-- `85`: a conjunction. -/
  | test (size : Size) (dst : RM) (src : Reg)
  /-- `3C`: a difference with an immediate. -/
  | cmp (size : Size) (dst : RM) (imm : U64)
  deriving DecidableEq, Repr

/-- The comparison whose opcode is at `p`, after the prefix `rex`, with its whole length. -/
def decodeCompareOp (rex : Rex) (code : ℕ → U8) (p : ℕ) : Option (Compare × ℕ) :=
  let op := (code p).toNat
  let size : Size := if rex.w then .qword else .dword
  let rm := decodeRM rex code (p + 1)
  if op = 0x85 then some (.test size rm.1 (extended rex.r (regField code (p + 1))), rm.2)
  else if op = 0x3C then some (.cmp .byte (.reg .rax) (imm8 code (p + 1)), p + 2)
  else none

/-- The comparison some bytes encode, and its length. -/
def decodeCompare (code : ℕ → U8) : Option (Compare × ℕ) :=
  let pre := (code 0).toNat
  if pre / 16 = 4 then
    decodeCompareOp ⟨true, pre / 8 % 2 = 1, pre / 4 % 2 = 1, pre / 2 % 2 = 1, pre % 2 = 1⟩ code 1
  else decodeCompareOp ⟨false, false, false, false, false⟩ code 0

/-- The flags after a comparison. -/
def Compare.flags (next : U64) (s : State) : Compare → Flags
  | .test size dst src => .ofResult size (s.read next size dst &&& s.read next size (.reg src))
  | .cmp size dst imm => .ofResult size (s.read next size dst - imm)

/-- The flags after an instruction, if it sets them. -/
def Instr.flags (next : U64) (s : State) : Instr → Option Flags
  | .alu op size dst imm => some (.ofResult size (op.apply (s.read next size dst) imm))
  | .xor size dst src =>
    some (.ofResult size (s.read next size dst ^^^ s.read next size (.reg src)))
  | _ => none

/-- **The flags after the instruction that some bytes encode**; `next` is the address behind an
instruction of some length. -/
def flagsAfter (next : ℕ → U64) (s : State) (code : ℕ → U8) (old : Flags) : Flags :=
  match decode code with
  | some (i, n) => (i.flags (next n) s).getD old
  | none => match decodeCompare code with
    | some (c, n) => c.flags (next n) s
    | none => old

variable {code : ℕ → U8} {rex : Rex} {p n : ℕ} {i : Instr} {c : Compare}

/-- The flags of a byte. -/
theorem ofResult_byte (v : U64) :
    Flags.ofResult .byte v = ⟨v.setWidth 8 = 0, (v.setWidth 8).msb⟩ := by
  have hzero : v &&& 0xff = 0 ↔ v.setWidth 8 = 0 := by
    rw [← BitVec.toNat_inj, ← BitVec.toNat_inj, BitVec.toNat_and, BitVec.toNat_setWidth]
    exact iff_of_eq (congrArg (· = 0) (Nat.and_two_pow_sub_one_eq_mod v.toNat 8))
  simp only [Flags.ofResult, Size.truncate, Size.sign, hzero, BitVec.msb_setWidth]
  simp

theorem setWidth_sub_signExtend (v : U64) (i : U8) :
    (v - i.signExtend 64).setWidth 8 = v.setWidth 8 - i := by
  have hext : (i.signExtend 64).setWidth 8 = i := by
    revert i
    decide
  have hi := congrArg BitVec.toNat hext
  have hlt := (i.signExtend 64).isLt
  rw [BitVec.toNat_setWidth] at hi
  rw [← BitVec.toNat_inj, BitVec.toNat_setWidth, BitVec.toNat_sub, BitVec.toNat_sub,
    BitVec.toNat_setWidth]
  omega

theorem decodeOp_of_decodeCompareOp (h : decodeCompareOp rex code p = some (c, n)) :
    decodeOp rex code p = none := by
  rcases ite_eq_iff.mp h with ⟨h85, -⟩ | ⟨-, h⟩
  · simp [decodeOp, h85]
  · obtain ⟨h3C, -⟩ := Option.ite_none_right_eq_some.mp h
    simp [decodeOp, h3C]

/-- A comparison is no other instruction. -/
theorem decode_of_decodeCompare (h : decodeCompare code = some (c, n)) : decode code = none := by
  rw [decodeCompare] at h
  rw [decode]
  split_ifs at h ⊢ with hrex
  · exact decodeOp_of_decodeCompareOp h
  · exact decodeOp_of_decodeCompareOp h

theorem opLength_of_decodeCompareOp (h : decodeCompareOp rex code p = some (c, n)) :
    opLength rex code p = some n := by
  rcases ite_eq_iff.mp h with ⟨h85, h⟩ | ⟨-, h⟩
  · cases h
    exact opLength_oneByte (by omega) (f := ⟨true, 0⟩) (by rw [h85]; rfl)
  · obtain ⟨h3C, h⟩ := Option.ite_none_right_eq_some.mp h
    cases h
    exact opLength_oneByte (by omega) (f := ⟨false, 1⟩) (by rw [h3C]; rfl)

/-- The decoder and the format agree on the length of a comparison. -/
theorem length_of_decodeCompare (h : decodeCompare code = some (c, n)) :
    length code = some n := by
  rw [decodeCompare] at h
  rw [length, if_neg, rexLength]
  · split_ifs at h ⊢ with hrex
    · exact opLength_of_decodeCompareOp h
    · exact opLength_of_decodeCompareOp h
  · intro hF3
    simp [hF3, decodeCompareOp] at h

end X86
