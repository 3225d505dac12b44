import LeonOS.Lib.Memory

/-!
# A subset of the x86-64 instruction set

The data-moving instructions of 64-bit mode, as the architecture defines them: which bytes are
which instruction (`decode`), and what the instruction does to the general-purpose registers and
to memory (`exec`).

An instruction is a `REX` prefix, if there is one, an opcode, and what the opcode asks for: a
`ModRM` byte with its `SIB` byte and displacement, an immediate.  The decoder follows that order
and nothing in it is specific to one instruction: `decodeRM` is the one reader of a `ModRM`
operand, with every addressing form, and the opcode table of `decode` is one line an opcode.
Bytes outside the subset decode to `none`.

Two rules are what separates a right emulator from a nearly right one.  A displacement or an
immediate is *sign*-extended to the operand size; a 32-bit result is *zero*-extended into the
64-bit register, while an 8-bit result leaves the other 56 bits alone (`writeReg`).

Memory is flat: a function from natural numbers.
-/

set_option autoImplicit false

namespace X86

open Bytes

/-! ## Registers and operands -/

/-- The general-purpose registers, in the order of their codes. -/
inductive Reg where
  | rax | rcx | rdx | rbx | rsp | rbp | rsi | rdi
  | r8 | r9 | r10 | r11 | r12 | r13 | r14 | r15
  deriving DecidableEq, Repr

/-- The register with a four-bit code. -/
def Reg.ofCode : ℕ → Reg
  | 0 => .rax | 1 => .rcx | 2 => .rdx | 3 => .rbx
  | 4 => .rsp | 5 => .rbp | 6 => .rsi | 7 => .rdi
  | 8 => .r8 | 9 => .r9 | 10 => .r10 | 11 => .r11
  | 12 => .r12 | 13 => .r13 | 14 => .r14 | _ => .r15

/-- Operand sizes. -/
inductive Size where
  | byte | dword | qword
  deriving DecidableEq, Repr

/-- The number of bytes of an operand. -/
def Size.bytes : Size → ℕ
  | .byte => 1
  | .dword => 4
  | .qword => 8

/-- A memory operand: `base + index * scale + disp`, or `rip + disp`. -/
structure Addr where
  /-- The base register. -/
  base : Option Reg
  /-- The index register and its scale. -/
  index : Option (Reg × ℕ)
  /-- The displacement, sign-extended. -/
  disp : U64
  /-- Is the displacement relative to the next instruction? -/
  ripRelative : Bool
  deriving DecidableEq, Repr

/-- The operand a `ModRM` byte names beside its register. -/
inductive RM where
  | reg (r : Reg)
  | mem (a : Addr)
  deriving DecidableEq, Repr

/-- The operations of the immediate group 1 (`81` and `83`) in the subset. -/
inductive AluOp where
  | add | or | and | sub
  deriving DecidableEq, Repr

/-- The instructions. -/
inductive Instr where
  /-- `88`–`8B`: move between a register and an operand. -/
  | mov (size : Size) (dst src : RM)
  /-- `B8+r`, `C7 /0`: move an immediate. -/
  | movImm (size : Size) (dst : RM) (imm : U64)
  /-- `REX.W 63`: move a doubleword, sign-extended. -/
  | movsxd (dst : Reg) (src : RM)
  /-- `8D`: the address itself. -/
  | lea (size : Size) (dst : Reg) (a : Addr)
  /-- `50+r`. -/
  | push (r : Reg)
  /-- `58+r`. -/
  | pop (r : Reg)
  /-- `0F 49`: move when the sign flag is clear. -/
  | cmovns (size : Size) (dst : Reg) (src : RM)
  /-- `81`, `83`: an operation with an immediate. -/
  | alu (op : AluOp) (size : Size) (dst : RM) (imm : U64)
  /-- `31`: exclusive or. -/
  | xor (size : Size) (dst : RM) (src : Reg)
  deriving DecidableEq, Repr

/-! ## Decoding -/

/-- The `REX` prefix. -/
structure Rex where
  /-- Is there one? -/
  present : Bool
  /-- 64-bit operands. -/
  w : Bool
  /-- Extends the `reg` field. -/
  r : Bool
  /-- Extends the `SIB` index. -/
  x : Bool
  /-- Extends the `rm` field, the `SIB` base or the register in the opcode. -/
  b : Bool

/-- A field of three bits with the `REX` bit that extends it. -/
def extended (ext : Bool) (field : ℕ) : Reg := Reg.ofCode (field + if ext then 8 else 0)

/-- The byte at `p`, sign-extended. -/
def imm8 (code : ℕ → U8) (p : ℕ) : U64 := (code p).signExtend 64

/-- The doubleword at `p`, sign-extended. -/
def imm32 (code : ℕ → U8) (p : ℕ) : U64 :=
  (BitVec.ofNat 32 (ofLE (peek code p 4))).signExtend 64

/-- The quadword at `p`. -/
def imm64 (code : ℕ → U8) (p : ℕ) : U64 := BitVec.ofNat 64 (ofLE (peek code p 8))

/-- The displacement the `mod` field announces, and where the instruction goes on after it. -/
def decodeDisp (code : ℕ → U8) (mod p : ℕ) : U64 × ℕ :=
  if mod = 1 then (imm8 code p, p + 1)
  else if mod = 2 then (imm32 code p, p + 4)
  else (0, p)

/-- The operand of the `ModRM` byte at `p`, and where the instruction goes on after it. -/
def decodeRM (rex : Rex) (code : ℕ → U8) (p : ℕ) : RM × ℕ :=
  let mod := (code p).toNat / 64
  let rm := (code p).toNat % 8
  if mod = 3 then (.reg (extended rex.b rm), p + 1)
  else if rm = 4 then
    let sib := (code (p + 1)).toNat
    let index :=
      if !rex.x && sib / 8 % 8 = 4 then none
      else some (extended rex.x (sib / 8 % 8), 2 ^ (sib / 64))
    if mod = 0 ∧ sib % 8 = 5 then (.mem ⟨none, index, imm32 code (p + 2), false⟩, p + 6)
    else
      let d := decodeDisp code mod (p + 2)
      (.mem ⟨some (extended rex.b (sib % 8)), index, d.1, false⟩, d.2)
  else if mod = 0 ∧ rm = 5 then (.mem ⟨none, none, imm32 code (p + 1), true⟩, p + 5)
  else
    let d := decodeDisp code mod (p + 1)
    (.mem ⟨some (extended rex.b rm), none, d.1, false⟩, d.2)

/-- The `reg` field of the `ModRM` byte at `p`. -/
def regField (code : ℕ → U8) (p : ℕ) : ℕ := (code p).toNat / 8 % 8

/-- The operation of the immediate group 1. -/
def AluOp.ofField : ℕ → Option AluOp
  | 0 => some .add
  | 1 => some .or
  | 4 => some .and
  | 5 => some .sub
  | _ => none

/-- The instruction whose opcode is at `p`, after the prefix `rex`, with its whole length. -/
def decodeOp (rex : Rex) (code : ℕ → U8) (p : ℕ) : Option (Instr × ℕ) :=
  let op := (code p).toNat
  let size : Size := if rex.w then .qword else .dword
  let rm := decodeRM rex code (p + 1)
  let reg := extended rex.r (regField code (p + 1))
  if op = 0x31 then some (.xor size rm.1 reg, rm.2)
  else if op = 0x63 then if rex.w then some (.movsxd reg rm.1, rm.2) else none
  else if op = 0x81 then
    (AluOp.ofField (regField code (p + 1))).map fun o ↦
      (.alu o size rm.1 (imm32 code rm.2), rm.2 + 4)
  else if op = 0x83 then
    (AluOp.ofField (regField code (p + 1))).map fun o ↦
      (.alu o size rm.1 (imm8 code rm.2), rm.2 + 1)
  else if op = 0x89 then some (.mov size rm.1 (.reg reg), rm.2)
  else if op = 0x8A then
    -- without a prefix the codes 4 to 7 are ah, ch, dh and bh, which are not in the subset
    if rex.present then some (.mov .byte (.reg reg) rm.1, rm.2) else none
  else if op = 0x8B then some (.mov size (.reg reg) rm.1, rm.2)
  else if op = 0x8D then
    match rm.1 with
    | .mem a => some (.lea size reg a, rm.2)
    | .reg _ => none
  else if 0x50 ≤ op ∧ op < 0x58 then some (.push (extended rex.b (op - 0x50)), p + 1)
  else if 0x58 ≤ op ∧ op < 0x60 then some (.pop (extended rex.b (op - 0x58)), p + 1)
  else if 0xB8 ≤ op ∧ op < 0xC0 then
    let dst := RM.reg (extended rex.b (op - 0xB8))
    if rex.w then some (.movImm .qword dst (imm64 code (p + 1)), p + 9)
    else some (.movImm .dword dst (imm32 code (p + 1)), p + 5)
  else if op = 0xC7 then
    if regField code (p + 1) = 0 then some (.movImm size rm.1 (imm32 code rm.2), rm.2 + 4)
    else none
  else if op = 0x0F ∧ (code (p + 1)).toNat = 0x49 then
    let rm := decodeRM rex code (p + 2)
    some (.cmovns size (extended rex.r (regField code (p + 2))) rm.1, rm.2)
  else none

/-- **The instruction some bytes encode**, and its length, if it is in the subset. -/
def decode (code : ℕ → U8) : Option (Instr × ℕ) :=
  let pre := (code 0).toNat
  if pre / 16 = 4 then
    decodeOp ⟨true, pre / 8 % 2 = 1, pre / 4 % 2 = 1, pre / 2 % 2 = 1, pre % 2 = 1⟩ code 1
  else decodeOp ⟨false, false, false, false, false⟩ code 0

/-! ### The operand of a `ModRM` byte, by its `mod` field -/

section DecodeRM

variable {rex : Rex} {code : ℕ → U8} {p : ℕ}

theorem decodeRM_reg (hm : (code p).toNat / 64 = 3) :
    decodeRM rex code p = (.reg (extended rex.b ((code p).toNat % 8)), p + 1) :=
  if_pos hm

theorem decodeRM_base (hm : (code p).toNat / 64 = 0) (h4 : (code p).toNat % 8 ≠ 4)
    (h5 : (code p).toNat % 8 ≠ 5) : decodeRM rex code p =
      (.mem ⟨some (extended rex.b ((code p).toNat % 8)), none, 0, false⟩, p + 1) := by
  simp [decodeRM, decodeDisp, hm, h4, h5]

theorem decodeRM_disp8 (hm : (code p).toNat / 64 = 1) (h4 : (code p).toNat % 8 ≠ 4) :
    decodeRM rex code p = (.mem ⟨some (extended rex.b ((code p).toNat % 8)), none,
      imm8 code (p + 1), false⟩, p + 2) := by
  simp [decodeRM, decodeDisp, hm, h4]

end DecodeRM

/-- The opcodes `B8+r` with a doubleword. -/
theorem decodeOp_movImm {rex : Rex} {code : ℕ → U8} {p : ℕ} (hw : rex.w = false)
    (hlo : 0xB8 ≤ (code p).toNat) (hhi : (code p).toNat < 0xC0) : decodeOp rex code p =
      some (.movImm .dword (.reg (extended rex.b ((code p).toNat - 0xB8))) (imm32 code (p + 1)),
        p + 5) := by
  simp only [decodeOp, hw]
  rw [if_neg (by omega), if_neg (by omega), if_neg (by omega), if_neg (by omega),
    if_neg (by omega), if_neg (by omega), if_neg (by omega), if_neg (by omega),
    if_neg (by omega), if_neg (by omega), if_pos ⟨hlo, hhi⟩]
  rfl

/-! ## Execution -/

/-- What the instructions of the subset read and write. -/
@[ext] structure State where
  /-- The general-purpose registers. -/
  regs : Reg → U64
  /-- Memory. -/
  mem : ℕ → U8
  /-- The sign flag. -/
  sf : Bool

/-- The little-endian number in `n` bytes of memory at `a`. -/
def load (m : ℕ → U8) (a n : ℕ) : U64 := BitVec.ofNat 64 (ofLE (peek m a n))

theorem load_poke_self (m : ℕ → U8) (a : ℕ) (v : U64) :
    load (poke m a (toLE 8 v.toNat)) a 8 = v := by
  have h := peek_poke_self m a (toLE 8 v.toNat)
  rw [length_toLE] at h
  rw [load, h, ofLE_toLE_of_lt (by have := v.isLt; omega), BitVec.ofNat_toNat, BitVec.setWidth_eq]

/-- The address a memory operand denotes; `next` is the address of the next instruction. -/
def State.ea (s : State) (next : U64) (a : Addr) : U64 :=
  (match a.base with | some r => s.regs r | none => 0) +
    (match a.index with | some (r, k) => s.regs r * BitVec.ofNat 64 k | none => 0) +
    a.disp + (if a.ripRelative then next else 0)

/-- The low bytes of a word. -/
def Size.truncate : Size → U64 → U64
  | .byte, v => v &&& 0xff
  | .dword, v => (v.setWidth 32).setWidth 64
  | .qword, v => v

/-- The value of an operand, zero-extended. -/
def State.read (s : State) (next : U64) (size : Size) : RM → U64
  | .reg r => size.truncate (s.regs r)
  | .mem a => load s.mem (s.ea next a).toNat size.bytes

/-- What a register holds after a result of some size is written to it. -/
def Size.merge : Size → U64 → U64 → U64
  | .byte, old, v => (old &&& ~~~0xff) ||| (v &&& 0xff)
  | .dword, _, v => (v.setWidth 32).setWidth 64
  | .qword, _, v => v

/-- Write a register. -/
def State.writeReg (s : State) (size : Size) (r : Reg) (v : U64) : State :=
  { s with regs := Function.update s.regs r (size.merge (s.regs r) v) }

/-- Write an operand. -/
def State.write (s : State) (next : U64) (size : Size) : RM → U64 → State
  | .reg r, v => s.writeReg size r v
  | .mem a, v => { s with mem := poke s.mem (s.ea next a).toNat (toLE size.bytes v.toNat) }

/-- The operation itself. -/
def AluOp.apply : AluOp → U64 → U64 → U64
  | .add, x, y => x + y
  | .or, x, y => x ||| y
  | .and, x, y => x &&& y
  | .sub, x, y => x - y

/-- **The effect of an instruction** on registers and memory. -/
def exec (next : U64) (s : State) : Instr → State
  | .mov size dst src => s.write next size dst (s.read next size src)
  | .movImm size dst imm => s.write next size dst imm
  | .movsxd dst src =>
    s.writeReg .qword dst (((s.read next .dword src).setWidth 32).signExtend 64)
  | .lea size dst a => s.writeReg size dst (s.ea next a)
  | .push r =>
    let sp := s.regs .rsp - 8
    { s.writeReg .qword .rsp sp with mem := poke s.mem sp.toNat (toLE 8 (s.regs r).toNat) }
  | .pop r =>
    let v := load s.mem (s.regs .rsp).toNat 8
    (s.writeReg .qword .rsp (s.regs .rsp + 8)).writeReg .qword r v
  | .cmovns size dst src =>
    s.writeReg size dst (if s.sf then s.read next size (.reg dst) else s.read next size src)
  | .alu op size dst imm => s.write next size dst (op.apply (s.read next size dst) imm)
  | .xor size dst src =>
    s.write next size dst (s.read next size dst ^^^ s.read next size (.reg src))

end X86
