import LeonOS.Lib.Asm

/-!
# The assembly around native programs

The `global_asm!` block of `kernel/src/native_runner.rs`, instruction by instruction.
`leonos3_native_enter` starts a program on a stack of its own, `leonos3_native_syscall_entry` is
where the `syscall` instructions of the program lead to, and `.Lnative_exit` is the way back to the
kernel for `exit` and `exit_group`.

The functions of the kernel that the block calls, `leonos3_native_syscall_dispatch` and
`leonos3_native_mark_exit`, are compiled, and parameters here; so are the addresses that the
assembler and the linker give to the instructions and to the two statics.
-/

set_option autoImplicit false

namespace LeonOS

open Bytes X86

namespace Native

/-- How many instructions the block has. -/
def codeLength : ℕ := 43

/-- Where things are. -/
structure Layout where
  /-- The address of an instruction. -/
  addr : ℕ → U64
  /-- `leonos3_native_return_rsp`. -/
  returnRsp : U64
  /-- `leonos3_native_return_rip`. -/
  returnRip : U64
  /-- `leonos3_native_syscall_dispatch`. -/
  dispatch : U64
  /-- `leonos3_native_mark_exit`. -/
  markExit : U64
  /-- Instructions have addresses of their own. -/
  apart : ∀ i j, i < codeLength → j < codeLength → addr i = addr j → i = j
  /-- So have the functions. -/
  functions : ∀ i < codeLength, addr i ≠ dispatch ∧ addr i ≠ markExit
  /-- The functions are two. -/
  dispatch_ne : dispatch ≠ markExit

namespace Layout

variable (L : Layout)

/-- `leonos3_native_enter`. -/
def enterLabel : U64 := L.addr 0

/-- `.Lnative_return`. -/
def nativeReturn : U64 := L.addr 5

/-- `leonos3_native_syscall_entry`. -/
def syscallEntry : U64 := L.addr 6

/-- `.Lnative_exit`. -/
def nativeExit : U64 := L.addr 40

/-- `[rip + a]` in the instruction with an index. -/
def ripTo (i : ℕ) (a : U64) : Addr := ⟨none, none, a - L.addr (i + 1), true⟩

/-- The block. -/
def code : List Asm := [
  -- leonos3_native_enter:
  .data (.mov .qword (.mem (L.ripTo 0 L.returnRsp)) (.reg .rsp)),
  .data (.lea .qword .rax (L.ripTo 1 L.nativeReturn)),
  .data (.mov .qword (.mem (L.ripTo 2 L.returnRip)) (.reg .rax)),
  .data (.mov .qword (.reg .rsp) (.reg .rsi)),
  .call (.operand (.reg .rdi)),
  -- .Lnative_return:
  .ret,
  -- leonos3_native_syscall_entry:
  .cmp .rax 60,
  .je L.nativeExit,
  .cmp .rax 231,
  .je L.nativeExit,
  .data (.push .rcx),
  .data (.push .r11),
  .data (.push .rbx),
  .data (.push .rbp),
  .data (.push .r12),
  .data (.push .r13),
  .data (.push .r14),
  .data (.push .r15),
  .data (.mov .qword (.reg .rbx) (.reg .rdi)),
  .data (.mov .qword (.reg .rbp) (.reg .rsi)),
  .data (.mov .qword (.reg .r12) (.reg .rdx)),
  .data (.mov .qword (.reg .r13) (.reg .r10)),
  .data (.mov .qword (.reg .r14) (.reg .r8)),
  .data (.mov .qword (.reg .r15) (.reg .r9)),
  .data (.mov .qword (.reg .rdi) (.reg .rax)),
  .data (.mov .qword (.reg .rsi) (.reg .rbx)),
  .data (.mov .qword (.reg .rdx) (.reg .rbp)),
  .data (.mov .qword (.reg .rcx) (.reg .r12)),
  .data (.mov .qword (.reg .r8) (.reg .r13)),
  .data (.mov .qword (.reg .r9) (.reg .r14)),
  .call (.label L.dispatch),
  .data (.pop .r15),
  .data (.pop .r14),
  .data (.pop .r13),
  .data (.pop .r12),
  .data (.pop .rbp),
  .data (.pop .rbx),
  .data (.pop .r11),
  .data (.pop .rcx),
  .jmp (.operand (.reg .rcx)),
  -- .Lnative_exit:
  .call (.label L.markExit),
  .data (.mov .qword (.reg .rsp) (.mem (L.ripTo 41 L.returnRsp))),
  .jmp (.operand (.mem (L.ripTo 42 L.returnRip)))]

/-- The block, with the functions that it calls. -/
def program (dispatch markExit : State → State) : Program where
  addr := L.addr
  code := L.code
  ext a := if a = L.dispatch then some dispatch else if a = L.markExit then some markExit else none

/-- An address that is not in the block, nor that of a function that it calls. -/
def Outside (a : U64) : Prop := (∀ i < codeLength, L.addr i ≠ a) ∧ a ≠ L.dispatch ∧ a ≠ L.markExit

variable {L} {dispatch markExit : State → State} {a : U64}

theorem program_apart : (L.program dispatch markExit).Apart := fun i j hi hj ↦ L.apart i j hi hj

theorem find_eq_none (h : ∀ i < codeLength, L.addr i ≠ a) :
    (L.program dispatch markExit).find a = none :=
  List.find?_eq_none.mpr fun i hi heq ↦ h i (List.mem_range.mp hi) (of_decide_eq_true heq)

theorem Outside.program (h : L.Outside a) : (L.program dispatch markExit).Outside a :=
  ⟨find_eq_none h.1, (if_neg h.2.1).trans (if_neg h.2.2)⟩

@[simp] theorem ea_ripTo (i : ℕ) (s : State) : s.ea (L.addr (i + 1)) (L.ripTo i a) = a := by
  simp only [State.ea, ripTo, if_true]
  bv_omega

end Layout

/-- A layout: an instruction every four bytes, and the rest at some distance. -/
def Layout.spaced : Layout where
  addr i := BitVec.ofNat 64 (0x100000 + 4 * i)
  returnRsp := 0x200000
  returnRip := 0x200008
  dispatch := 0x300000
  markExit := 0x300100
  apart i j hi hj h := by
    rw [codeLength] at hi hj
    have heq := congrArg BitVec.toNat h
    simp only [BitVec.toNat_ofNat] at heq
    omega
  functions i hi := by
    rw [codeLength] at hi
    constructor <;> bv_omega
  dispatch_ne := by decide

/-- What is below the block is outside. -/
theorem Layout.outside_spaced {a : U64} (h : a.toNat < 0x100000) : spaced.Outside a := by
  refine ⟨fun i hi ↦ ?_, ?_, ?_⟩
  · rw [codeLength] at hi
    simp only [spaced]
    bv_omega
  · simp only [spaced]
    bv_omega
  · simp only [spaced]
    bv_omega

/-! ## The two numbers of an exit -/

section Compares

variable {L : Layout} {dispatch markExit : State → State} {m : X86.Machine}

/-- An exit goes to `.Lnative_exit`. -/
theorem reaches_nativeExit (hrip : m.rip = L.syscallEntry)
    (hexit : m.cpu.regs .rax = 60 ∨ m.cpu.regs .rax = 231) : ∃ sf zf,
      (L.program dispatch markExit).Reaches m ⟨{ m.cpu with sf := sf }, zf, L.nativeExit⟩ := by
  have h60 := Program.reaches_cmpJe (P := L.program dispatch markExit) (i := 6)
    Layout.program_apart rfl rfl hrip
  by_cases hrax : m.cpu.regs .rax = 60
  · rw [if_pos hrax] at h60
    exact ⟨_, _, h60⟩
  · rw [if_neg hrax] at h60
    have h231 := Program.reaches_cmpJe (P := L.program dispatch markExit) (i := 8)
      (m := ⟨{ m.cpu with sf := (m.cpu.regs .rax - 60).msb }, m.cpu.regs .rax = 60, L.addr 8⟩)
      Layout.program_apart rfl rfl rfl
    rw [if_pos (hexit.resolve_left hrax)] at h231
    exact ⟨_, _, h60.trans h231⟩

/-- Other calls go on behind the compares. -/
theorem reaches_pushes (hrip : m.rip = L.syscallEntry) (hexit : m.cpu.regs .rax ≠ 60)
    (hexitGroup : m.cpu.regs .rax ≠ 231) : (L.program dispatch markExit).Reaches m
      ⟨{ m.cpu with sf := (m.cpu.regs .rax - 231).msb }, false, L.addr 10⟩ := by
  have h60 := Program.reaches_cmpJe (P := L.program dispatch markExit) (i := 6)
    Layout.program_apart rfl rfl hrip
  have h231 := Program.reaches_cmpJe (P := L.program dispatch markExit) (i := 8)
    (m := ⟨{ m.cpu with sf := (m.cpu.regs .rax - 60).msb }, m.cpu.regs .rax = 60, L.addr 8⟩)
    Layout.program_apart rfl rfl rfl
  rw [if_neg hexit] at h60
  rw [if_neg hexitGroup, decide_eq_false hexitGroup] at h231
  exact h60.trans h231

end Compares

/-- A word of memory. -/
def word (a : U64) : Set ℕ := {x | a.toNat ≤ x ∧ x < a.toNat + 8}

theorem load_congr {m m' : ℕ → U8} {a : U64} (h : ∀ x ∈ word a, m x = m' x) :
    X86.load m a.toNat 8 = X86.load m' a.toNat 8 := by
  rw [X86.load, peek_congr fun x hlo hhi ↦ h x ⟨hlo, hhi⟩, X86.load]

end Native

end LeonOS
