import LeonOS.Lib.Flags

/-!
# A core that runs programs

One machine out of the pieces: the instructions of `decode` with their flags, the comparisons, and
the instructions that transfer control, with an instruction pointer (`Core.step`).  A jump is
relative to the next instruction, a call pushes the address of that one, and a conditional jump
looks at the zero flag.

A stretch of a program is a number of such steps (`Core.steps`).  It ends at a system call, at a
`ret` and at a `hlt`: `syscall` leaves the program, and what is there behind it is the system's.
-/

set_option autoImplicit false

namespace X86

open Bytes

/-! ## Transfers of control -/

/-- The instructions that transfer control. -/
inductive Transfer where
  /-- `E9`, `EB`: a jump. -/
  | jmp (rel : U64)
  /-- `74`: a jump when the zero flag is set. -/
  | jz (rel : U64)
  /-- `E8`: a call. -/
  | call (rel : U64)
  /-- `FF /2` with an operand in memory: a call through a pointer. -/
  | callMem (a : Addr)
  deriving DecidableEq, Repr

/-- The transfer some bytes encode, and its length. -/
def decodeTransfer (code : ℕ → U8) : Option (Transfer × ℕ) :=
  let op := (code 0).toNat
  if op = 0xE9 then some (.jmp (imm32 code 1), 5)
  else if op = 0xEB then some (.jmp (imm8 code 1), 2)
  else if op = 0x74 then some (.jz (imm8 code 1), 2)
  else if op = 0xE8 then some (.call (imm32 code 1), 5)
  else if op = 0xFF then
    match decodeRM ⟨false, false, false, false, false⟩ code 1 with
    | (.mem a, n) => if regField code 1 = 2 then some (.callMem a, n) else none
    | (.reg _, _) => none
  else none

/-- The length of `nop` and of `endbr64`, which do nothing. -/
def hintLength (code : ℕ → U8) : Option ℕ :=
  if code 0 = 0x90 then some 1
  else if code 0 = 0xF3 ∧ code 1 = 0x0F ∧ code 2 = 0x1E ∧ code 3 = 0xFA then some 4
  else none

/-- `syscall`. -/
def IsSyscall (code : ℕ → U8) : Prop := code 0 = 0x0F ∧ code 1 = 0x05

theorem decode_of_isSyscall {code : ℕ → U8} (h : IsSyscall code) : decode code = none := by
  obtain ⟨h0, h1⟩ := h
  simp [decode, decodeOp, h0, h1]

/-! ## The machine -/

/-- The registers, memory, the flags and the instruction pointer. -/
@[ext] structure Core where
  /-- The general-purpose registers. -/
  regs : Reg → U64
  /-- Memory. -/
  mem : ℕ → U8
  /-- The flags. -/
  flags : Flags
  /-- The instruction pointer. -/
  rip : U64

namespace Core

/-- What the instructions of `decode` work on. -/
def state (c : Core) : State := ⟨c.regs, c.mem, c.flags.sf⟩

/-- The bytes at the instruction pointer. -/
def code (c : Core) (k : ℕ) : U8 := c.mem (c.rip.toNat + k)

/-- The address behind an instruction of `n` bytes. -/
def next (c : Core) (n : ℕ) : U64 := c.rip + BitVec.ofNat 64 n

/-- Push a word. -/
def push (c : Core) (v : U64) : Core :=
  { c with
    regs := Function.update c.regs .rsp (c.regs .rsp - 8)
    mem := poke c.mem (c.regs .rsp - 8).toNat (toLE 8 v.toNat) }

/-- An instruction that moves data, of `n` bytes. -/
def data (c : Core) (i : Instr) (n : ℕ) : Core where
  regs := (exec (c.next n) c.state i).regs
  mem := (exec (c.next n) c.state i).mem
  flags := (i.flags (c.next n) c.state).getD c.flags
  rip := c.next n

/-- A comparison of `n` bytes. -/
def compare (c : Core) (cmp : Compare) (n : ℕ) : Core :=
  { c with flags := cmp.flags (c.next n) c.state, rip := c.next n }

/-- A transfer of `n` bytes. -/
def transfer (c : Core) (n : ℕ) : Transfer → Core
  | .jmp rel => { c with rip := c.next n + rel }
  | .jz rel => { c with rip := if c.flags.zf then c.next n + rel else c.next n }
  | .call rel => { c.push (c.next n) with rip := c.next n + rel }
  | .callMem a =>
    { c.push (c.next n) with rip := load c.mem (c.state.ea (c.next n) a).toNat 8 }

/-- **The instruction at the instruction pointer**, if it is one of the subset. -/
def step (c : Core) : Option Core :=
  match decode c.code with
  | some (i, n) => some (c.data i n)
  | none => match decodeCompare c.code with
    | some (cmp, n) => some (c.compare cmp n)
    | none => match decodeTransfer c.code with
      | some (t, n) => some (c.transfer n t)
      | none => (hintLength c.code).map fun n ↦ { c with rip := c.next n }

/-- **A stretch** of `n` instructions, if all of them are of the subset. -/
def steps : ℕ → Core → Option Core
  | 0, c => some c
  | n + 1, c => c.step.bind (steps n)

/-! ### The step, by what the bytes are -/

variable {c c' : Core} {n : ℕ}

theorem step_data {i : Instr} (h : decode c.code = some (i, n)) : c.step = some (c.data i n) := by
  rw [step, h]

theorem step_compare {cmp : Compare} (h : decodeCompare c.code = some (cmp, n)) :
    c.step = some (c.compare cmp n) := by
  rw [step, decode_of_decodeCompare h, h]

theorem step_transfer {t : Transfer} (hd : decode c.code = none)
    (hc : decodeCompare c.code = none) (h : decodeTransfer c.code = some (t, n)) :
    c.step = some (c.transfer n t) := by
  rw [step, hd, hc, h]

theorem step_hint (hd : decode c.code = none) (hc : decodeCompare c.code = none)
    (ht : decodeTransfer c.code = none) (h : hintLength c.code = some n) :
    c.step = some { c with rip := c.next n } := by
  rw [step, hd, hc, ht, h]
  rfl

theorem steps_succ (h : c.step = some c') : steps (n + 1) c = steps n c' := by
  rw [steps, h, Option.bind_some]

end Core

end X86
