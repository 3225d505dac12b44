import LeonOS.Kernel.Syscall

/-!
# System calls of native programs

What the assembly of `kernel/src/native_runner.rs` calls: `leonos3_native_syscall_dispatch` for a
system call that returns, `leonos3_native_mark_exit` for `exit` and `exit_group`.

A native program shares the address space of the kernel, so its pointers are used as they are.
Output goes to the terminal that `run_native_elf_with_args` has installed, which is there as long
as a program runs.
-/

set_option autoImplicit false

namespace LeonOS

open Bytes

/-- The functions of `native_runner.rs` that a program reaches. -/
abbrev OsM (α : Type) := RustM Empty Os α

/-- A call into `syscall.rs`. -/
def nativeSys {α : Type} (x : SysM α) : OsM α := fun os ↦
  match x os.world with
  | .ok a w => .ok a { os with world := w }
  | .error e w => .error e { os with world := w }

theorem ensures_nativeSys {α : Type} {x : SysM α} {os : Os} {P : α → Os → Prop} :
    RustM.Ensures (nativeSys x) os P ↔
      RustM.Ensures x os.world fun a w ↦ P a { os with world := w } := by
  constructor
  · intro h a w hx
    exact h a _ (by rw [nativeSys, hx])
  · intro h a os' hx
    rw [nativeSys] at hx
    cases hrun : x os.world with
    | ok b w =>
      rw [hrun] at hx
      cases hx
      exact h _ w hrun
    | error e w =>
      rw [hrun] at hx
      exact nomatch hx

/-- `term_write_impl`. -/
def termWrite (ptr len : ℕ) : OsM Unit :=
  modify fun os ↦ { os with
    world := { os.world with touched := List.range' ptr len ++ os.world.touched }
    screen := os.screen ++ peek os.world.ram ptr len }

/-- The loop over the bytes of stdin, with `n` bytes to go. -/
def nativeReadFrom (ptr : ℕ) : ℕ → ℕ → SysM U64
  | 0, got => return BitVec.ofNat 64 got
  | n + 1, got => do
    match ← readStdinByteBlocking with
    | none => return BitVec.ofNat 64 got
    | some ch =>
      let mapped := if ch = 0x0D then 0x0A else ch
      store (ptr + got) [mapped]
      if mapped = 0x0A then
        return BitVec.ofNat 64 (got + 1)
      nativeReadFrom ptr n (got + 1)

/-- `leonos3_native_syscall_dispatch`; its argument `a4` goes to an argument of `dispatch` that is
not used. -/
def nativeDispatch (nr : Nr) (a0 a1 a2 a3 : U64) : OsM U64 :=
  match nr with
  | .write => do
    if (a0 = 1 ∨ a0 = 2) ∧ a1 ≠ 0 ∧ a2 ≠ 0 then
      termWrite a1.toNat a2.toNat
      return a2
    nativeSys (dispatch .write a0 a1 a2 a3)
  | .read => do
    if a0 = 0 then
      if a1 = 0 ∨ a2 = 0 then
        return 0
      return ← nativeSys (nativeReadFrom a1.toNat a2.toNat 0)
    nativeSys (dispatch .read a0 a1 a2 a3)
  | nr => nativeSys (dispatch nr a0 a1 a2 a3)

/-- `leonos3_native_mark_exit`. -/
def nativeMarkExit (code : U64) : OsM Unit :=
  nativeSys (modifyKernel (·.markExitCode (code.setWidth 32)))

/-- What `leonos3_native_syscall_entry` calls: the exits are told apart before the dispatcher. -/
def nativeSyscall (nr a0 a1 a2 a3 : U64) : OsM U64 :=
  match Nr.decode nr.toNat with
  | .exit | .exitGroup => do
    nativeMarkExit a0
    return 0
  | nr => nativeDispatch nr a0 a1 a2 a3

/-- `run_native_elf_with_args`, between its loading phase and the jump to the program. -/
def nativeStart : OsM Unit := nativeSys (modifyKernel (·.markExitCode 0))

end LeonOS
