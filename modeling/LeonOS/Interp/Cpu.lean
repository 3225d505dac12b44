import LeonOS.Elf.Parse
import LeonOS.Lib.X86

/-!
# The interpreter's machine

The data of `kernel/src/elf_runner.rs` below the instruction loop: the `Cpu` with the thirteen
general-purpose registers it keeps, the errors a run can end in, and the functions that read and
write guest memory.

Guest memory is the vector `mem`, a window at the address `base`: every reader and writer goes
through `vaToIndex` and checks the whole access against the end of the vector before it touches an
element, so a failed access changes nothing.

To compare the interpreter with the architecture, `Cpu.regs` and `Window.view` present the two as
the register file and the memory of `X86.State`.  The `Cpu` has no `r11`, `r14` and `r15`:
`Cpu.regs` takes their values from elsewhere.
-/

set_option autoImplicit false

namespace LeonOS

open Bytes X86

/-- `RunError`. -/
inductive RunError where
  | parse (e : ElfError)
  | noLoadSegment
  | addressOutOfRange
  | unsupportedComplexElf (entry : U64) (segments memorySize : ℕ)
  | unsupportedInstruction (rip : U64) (bytes : Vector U8 8)
  | stepLimit (steps : ℕ) (lastRip : U64)
  deriving DecidableEq

/-- `Cpu`. -/
structure Cpu where
  rax : U64
  rbp : U64
  rbx : U64
  rsp : U64
  rdi : U64
  rsi : U64
  rdx : U64
  rcx : U64
  r8 : U64
  r9 : U64
  r10 : U64
  r12 : U64
  r13 : U64
  rip : U64
  zf : Bool
  sf : Bool
  deriving DecidableEq, Repr

namespace Cpu

/-- The registers a program starts with. -/
def start (initialRsp entry : U64) : Cpu where
  rax := 0
  rbp := 0
  rbx := 0
  rsp := initialRsp
  rdi := 0
  rsi := 0
  rdx := 0
  rcx := 0
  r8 := 0
  r9 := 0
  r10 := 0
  r12 := 0
  r13 := 0
  rip := entry
  zf := false
  sf := false

/-- Does the `Cpu` keep this register? -/
def holds : Reg → Bool
  | .r11 | .r14 | .r15 => false
  | _ => true

/-- The field for a register. -/
def get (cpu : Cpu) : Reg → U64
  | .rax => cpu.rax | .rcx => cpu.rcx | .rdx => cpu.rdx | .rbx => cpu.rbx
  | .rsp => cpu.rsp | .rbp => cpu.rbp | .rsi => cpu.rsi | .rdi => cpu.rdi
  | .r8 => cpu.r8 | .r9 => cpu.r9 | .r10 => cpu.r10 | .r12 => cpu.r12 | .r13 => cpu.r13
  | .r11 | .r14 | .r15 => 0

/-- Assignment to the field for a register; a register the `Cpu` does not keep has none. -/
def put (cpu : Cpu) (r : Reg) (v : U64) : Cpu :=
  match r with
  | .rax => { cpu with rax := v } | .rcx => { cpu with rcx := v }
  | .rdx => { cpu with rdx := v } | .rbx => { cpu with rbx := v }
  | .rsp => { cpu with rsp := v } | .rbp => { cpu with rbp := v }
  | .rsi => { cpu with rsi := v } | .rdi => { cpu with rdi := v }
  | .r8 => { cpu with r8 := v } | .r9 => { cpu with r9 := v }
  | .r10 => { cpu with r10 := v } | .r12 => { cpu with r12 := v }
  | .r13 => { cpu with r13 := v }
  | .r11 | .r14 | .r15 => cpu

/-- The register file, with `ghost` for the registers the `Cpu` does not keep. -/
def regs (cpu : Cpu) (ghost : Reg → U64) (r : Reg) : U64 :=
  if holds r then cpu.get r else ghost r

theorem regs_put (cpu : Cpu) (ghost : Reg → U64) {r : Reg} (h : holds r = true) (v : U64) :
    (cpu.put r v).regs ghost = Function.update (cpu.regs ghost) r v := by
  funext q
  rcases eq_or_ne q r with rfl | hq
  · rw [Function.update_self, regs, if_pos h]
    cases q <;> first | rfl | exact absurd h (by decide)
  · rw [Function.update_of_ne hq, regs, regs]
    cases r <;> cases q <;> first | rfl | exact absurd rfl hq

@[simp] theorem put_rip (cpu : Cpu) (r : Reg) (v : U64) : (cpu.put r v).rip = cpu.rip := by
  cases r <;> rfl

@[simp] theorem put_zf (cpu : Cpu) (r : Reg) (v : U64) : (cpu.put r v).zf = cpu.zf := by
  cases r <;> rfl

@[simp] theorem put_sf (cpu : Cpu) (r : Reg) (v : U64) : (cpu.put r v).sf = cpu.sf := by
  cases r <;> rfl

end Cpu

/-- `get_reg64`. -/
def getReg64 (cpu : Cpu) (reg : U8) : U64 :=
  match reg with
  | 0 => cpu.rax
  | 1 => cpu.rcx
  | 2 => cpu.rdx
  | 3 => cpu.rbx
  | 4 => cpu.rsp
  | 5 => cpu.rbp
  | 6 => cpu.rsi
  | 7 => cpu.rdi
  | _ => 0

/-- `set_reg64`. -/
def setReg64 (cpu : Cpu) (reg : U8) (val : U64) : Cpu :=
  match reg with
  | 0 => { cpu with rax := val }
  | 1 => { cpu with rcx := val }
  | 2 => { cpu with rdx := val }
  | 3 => { cpu with rbx := val }
  | 4 => { cpu with rsp := val }
  | 5 => { cpu with rbp := val }
  | 6 => { cpu with rsi := val }
  | 7 => { cpu with rdi := val }
  | _ => cpu

/-- `get_al`. -/
def getAl (cpu : Cpu) : U8 := (cpu.rax &&& 0xff).setWidth 8

/-- `set_al`. -/
def setAl (cpu : Cpu) (v : U8) : Cpu :=
  { cpu with rax := (cpu.rax &&& ~~~0xff) ||| v.setWidth 64 }

/-! ## Guest memory -/

/-- `va_to_index`. -/
def vaToIndex (base : U64) (mem : List U8) (va : U64) : Rust RunError ℕ :=
  Window.index .addressOutOfRange base mem va

/-- `read_bytes`: eight bytes, with zeros past the end of memory. -/
def readBytes (base : U64) (mem : List U8) (va : U64) : Rust RunError (Vector U8 8) := do
  let idx ← vaToIndex base mem va
  let n := min 8 (mem.length - idx)
  return Vector.ofFn fun k ↦ if k < n then mem.getD (idx + k) 0 else 0

/-- `read_u8`. -/
def readU8 (base : U64) (mem : List U8) (va : U64) : Rust RunError U8 := do
  let i ← vaToIndex base mem va
  Rust.index mem i

/-- `read_u32`. -/
def readU32 (base : U64) (mem : List U8) (va : U64) : Rust RunError (BitVec 32) := do
  let i ← Window.access .addressOutOfRange base mem va 4
  return BitVec.ofNat 32 (ofLE (slice mem i 4))

/-- `read_i32`, sign-extended as every caller uses it. -/
def readI32 (base : U64) (mem : List U8) (va : U64) : Rust RunError U64 := do
  return (← readU32 base mem va).signExtend 64

/-- `read_u64`. -/
def readU64 (base : U64) (mem : List U8) (va : U64) : Rust RunError U64 := do
  let i ← Window.access .addressOutOfRange base mem va 8
  return BitVec.ofNat 64 (ofLE (slice mem i 8))

/-- `write_u32`; the value is the memory afterwards. -/
def writeU32 (base : U64) (mem : List U8) (va : U64) (v : BitVec 32) : Rust RunError (List U8) :=
  Window.write .addressOutOfRange base mem va (toLE 4 v.toNat)

/-- `write_u64`; the value is the memory afterwards. -/
def writeU64 (base : U64) (mem : List U8) (va : U64) (v : U64) : Rust RunError (List U8) :=
  Window.write .addressOutOfRange base mem va (toLE 8 v.toNat)

/-! ### What the accesses do to the flat view of guest memory -/

theorem readU8_eq_ok {base va : U64} {mem : List U8} {v : U8} (h : readU8 base mem va = .ok v) :
    v = Window.view base mem va.toNat := by
  obtain ⟨i, hi, h⟩ := Rust.bind_eq_ok.mp h
  obtain ⟨hva, hlt⟩ := Window.index_eq_ok.mp hi
  rw [Rust.index, List.getElem?_eq_getElem hlt] at h
  rw [hva, Window.view, if_pos (by omega), Nat.add_sub_cancel_left, List.getD_eq_getElem?_getD,
    List.getElem?_eq_getElem hlt]
  exact (Except.ok.inj h).symm

theorem readU32_eq_ok {base va : U64} {mem : List U8} {v : BitVec 32}
    (h : readU32 base mem va = .ok v) :
    v = BitVec.ofNat 32 (ofLE (peek (Window.view base mem) va.toNat 4)) := by
  obtain ⟨i, hi, h⟩ := Rust.bind_eq_ok.mp h
  obtain ⟨hva, -, hle⟩ := Window.access_bound hi
  rw [hva, Window.peek_view hle]
  exact (Except.ok.inj h).symm

theorem readU64_eq_ok {base va v : U64} {mem : List U8} (h : readU64 base mem va = .ok v) :
    v = X86.load (Window.view base mem) va.toNat 8 := by
  obtain ⟨i, hi, h⟩ := Rust.bind_eq_ok.mp h
  obtain ⟨hva, -, hle⟩ := Window.access_bound hi
  rw [X86.load, hva, Window.peek_view hle]
  exact (Except.ok.inj h).symm

theorem view_write {base va : U64} {mem mem' bs : List U8}
    (h : Window.write (.addressOutOfRange : RunError) base mem va bs = .ok mem') :
    Window.view base mem' = poke (Window.view base mem) va.toNat bs := by
  obtain ⟨i, hva, -, hle, rfl⟩ := Window.write_eq_ok h
  rw [Window.view_overwrite hle, hva]

end LeonOS
