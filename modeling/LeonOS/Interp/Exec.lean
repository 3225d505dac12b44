import LeonOS.Interp.Cpu

/-!
# One step of the interpreter

`exec_one` of `kernel/src/elf_runner.rs`.  The source is a chain of some seventy `if`s, each a
pattern on the first bytes of the instruction with the effect of the instructions it stands for;
the first one that does not fall through ends the step.  Here an *arm* is a computation that
returns `some` when the source's branch returns and `none` when it falls through, `arms` lists
them in the order of the source, and `execOne` takes the first that returns.

Branches that differ only in their bytes and registers are one arm with parameters (`movArm`,
`pushArm`, `popArm`, `zeroArm`, …).  The few that decode a `ModRM` byte have an arm each, with
their `match` on the destination as the source has it: a register that is missing from the `match`
is skipped.

A step touches nothing but the `Cpu`, guest memory and, through `syscall` alone, the rest of the
system, whose type `ω` stays open here.
-/

set_option autoImplicit false

namespace LeonOS

open Bytes X86

/-- What a program being interpreted works on: its registers, its memory, and the kernel. -/
structure Guest (ω : Type) where
  /-- `cpu`. -/
  cpu : Cpu
  /-- `mem`. -/
  mem : List U8
  /-- The terminal and the globals of the kernel. -/
  os : ω

/-- The functions of the interpreter. -/
abbrev Interp (ω α : Type) := RustM RunError (Guest ω) α

variable {ω : Type}

/-! ## Small steps -/

/-- Change the registers. -/
def modifyCpu (f : Cpu → Cpu) : Interp ω Unit := modify fun g ↦ { g with cpu := f g.cpu }

/-- The registers. -/
def getCpu : Interp ω Cpu := do return (← get).cpu

/-- `cpu.rip += n`. -/
def ripAdd (n : ℕ) : Interp ω Unit := do
  let rip ← RustM.lift (Rust.addWord (← getCpu).rip n)
  modifyCpu ({ · with rip := rip })

/-- `cpu.rip + n`. -/
def ripPlus (n : ℕ) : Interp ω U64 := do
  RustM.lift (Rust.addWord (← getCpu).rip n)

/-- A read of guest memory. -/
def reading {α : Type} (f : List U8 → Rust RunError α) : Interp ω α := do
  RustM.lift (f (← get).mem)

/-- A write to guest memory. -/
def writing (f : List U8 → Rust RunError (List U8)) : Interp ω Unit := do
  let mem ← RustM.lift (f (← get).mem)
  modify ({ · with mem := mem })

/-- `push_u64`. -/
def pushU64 (base v : U64) : Interp ω Unit := do
  let rsp := (← getCpu).rsp
  let newRsp ← RustM.lift (Rust.okOr (Rust.checkedSub rsp.toNat 8) .addressOutOfRange)
  writing fun mem ↦ writeU64 base mem (BitVec.ofNat 64 newRsp) v
  modifyCpu ({ · with rsp := BitVec.ofNat 64 newRsp })

/-- `pop_u64`. -/
def popU64 (base : U64) : Interp ω U64 := do
  let rsp := (← getCpu).rsp
  let v ← reading fun mem ↦ readU64 base mem rsp
  let newRsp ← RustM.lift (Rust.okOr (Rust.checkedAdd rsp.toNat 8) .addressOutOfRange)
  modifyCpu ({ · with rsp := BitVec.ofNat 64 newRsp })
  return v

/-! ## Arms -/

/-- The branch `if c { body }`, whose body returns. -/
def arm (c : Prop) [Decidable c] (body : Interp ω Bool) : Interp ω (Option Bool) :=
  if c then some <$> body else pure none

/-- The end of most branches: `cpu.rip += n; return Ok(false)`. -/
def next (n : ℕ) : Interp ω Bool := do
  ripAdd n
  return false

/-- `cpu.dst = v; cpu.rip += n; return Ok(false)`. -/
def assign (dst : Reg) (v : U64) (n : ℕ) : Interp ω Bool := do
  modifyCpu (·.put dst v)
  next n

/-- `if c { cpu.dst = value(cpu); … }`: a register computed from registers. -/
def setArm (c : Prop) [Decidable c] (dst : Reg) (value : Cpu → U64) (n : ℕ) :
    Interp ω (Option Bool) :=
  arm c do assign dst (value (← getCpu)) n

/-- `if c { cpu.dst = cpu.src; … }`. -/
def movArm (c : Prop) [Decidable c] (dst src : Reg) (n : ℕ) : Interp ω (Option Bool) :=
  setArm c dst (·.get src) n

/-- `if c { cpu.dst = 0; … }`: an exclusive or of a register with itself. -/
def zeroArm (c : Prop) [Decidable c] (dst : Reg) (n : ℕ) : Interp ω (Option Bool) :=
  setArm c dst (fun _ ↦ 0) n

/-- `if c { push_u64(base, mem, cpu, cpu.src)?; … }`. -/
def pushArm (base : U64) (c : Prop) [Decidable c] (src : Reg) (n : ℕ) :
    Interp ω (Option Bool) :=
  arm c do
    pushU64 base ((← getCpu).get src)
    next n

/-- `if c { cpu.dst = pop_u64(base, mem, cpu)?; … }`. -/
def popArm (base : U64) (c : Prop) [Decidable c] (dst : Reg) (n : ℕ) : Interp ω (Option Bool) :=
  arm c do
    let v ← popU64 base
    assign dst v n

/-- `if c { cpu.dst = read_u64(base, mem, addr(cpu))?; … }`. -/
def loadArm (base : U64) (c : Prop) [Decidable c] (dst : Reg) (addr : Cpu → U64) (n : ℕ) :
    Interp ω (Option Bool) :=
  arm c do
    let cpu ← getCpu
    let v ← reading fun mem ↦ readU64 base mem (addr cpu)
    assign dst v n

/-- `if c { cpu.dst = read_u32(base, mem, cpu.rip + 3)? as u64; cpu.rip += 7; … }`. -/
def movImmArm (base : U64) (c : Prop) [Decidable c] (dst : Reg) : Interp ω (Option Bool) :=
  arm c do
    let va ← ripPlus 3
    let imm ← reading fun mem ↦ readU32 base mem va
    assign dst (imm.setWidth 64) 7

/-- `if c { cpu.dst = (next as i64 + disp) as u64; cpu.rip = next; … }` with `next = rip + 7` and
`disp` the last four bytes. -/
def leaRipArm (base : U64) (c : Prop) [Decidable c] (dst : Reg) : Interp ω (Option Bool) :=
  arm c do
    let va ← ripPlus 3
    let disp ← reading fun mem ↦ readI32 base mem va
    let nextRip ← ripPlus 7
    let v ← RustM.lift (Rust.addSigned nextRip disp)
    modifyCpu fun cpu ↦ { cpu.put dst v with rip := nextRip }
    return false

/-- `test r, r`. -/
def testArm (c : Prop) [Decidable c] (r : Reg) : Interp ω (Option Bool) :=
  arm c do
    modifyCpu fun cpu ↦ { cpu with zf := cpu.get r = 0, sf := (cpu.get r).msb }
    next 3

/-- `cpu.rip = ((next as i64) + rel) as u64; return Ok(false)`. -/
def jump (nextRip rel : U64) : Interp ω Bool := do
  let target ← RustM.lift (Rust.addSigned nextRip rel)
  modifyCpu ({ · with rip := target })
  return false

/-! ### Branches that decode a `ModRM` byte -/

/-- `(modrm >> 6) & 0x03`. -/
def modeOf (modrm : U8) : U8 := (modrm >>> 6) &&& 0x03

/-- `(modrm >> 3) & 0x07`. -/
def regOf (modrm : U8) : U8 := (modrm >>> 3) &&& 0x07

/-- `modrm & 0x07`. -/
def rmOf (modrm : U8) : U8 := modrm &&& 0x07

/-- The `match op` of the two group 1 branches: the operation they execute, if it is one of theirs
(`and` is not). -/
def group1 (op : U8) (cur imm : U64) : Option U64 :=
  match op with
  | 0 => some (cur + imm)
  | 1 => some (cur ||| imm)
  | 5 => some (cur - imm)
  | _ => none

/-- The end of the two group 1 branches. -/
def group1Arm (modrm : U8) (imm : U64) (n : ℕ) : Interp ω (Option Bool) := do
  match group1 (regOf modrm) (getReg64 (← getCpu) (rmOf modrm)) imm with
  | some v =>
    modifyCpu (setReg64 · (rmOf modrm) v)
    some <$> next n
  | none => return none

/-- add/or/sub r64, imm8 (`48 83`, mod = 11). -/
def aluImm8Arm (b : Vector U8 8) : Interp ω (Option Bool) :=
  if b[0] = 0x48 ∧ b[1] = 0x83 ∧ b[2] &&& 0xC0 = 0xC0 then
    group1Arm b[2] (b[3].signExtend 64) 4
  else pure none

/-- add/or/sub r64, imm32 (`48 81`, mod = 11).  The immediate is read before the operation is
looked at. -/
def aluImm32Arm (base : U64) (b : Vector U8 8) : Interp ω (Option Bool) := do
  if b[0] = 0x48 ∧ b[1] = 0x81 ∧ b[2] &&& 0xC0 = 0xC0 then
    let va ← ripPlus 3
    let imm ← reading fun mem ↦ readI32 base mem va
    group1Arm b[2] imm 7
  else return none

/-- `[reg]` and `[reg + disp8]`, the addresses of the `8B` branch. -/
def movLoadAddr (cpu : Cpu) (modrm disp : U8) : Option (Rust RunError U64) :=
  if modeOf modrm = 0x00 then
    if rmOf modrm = 0x05 then none else some (.ok (getReg64 cpu (rmOf modrm)))
  else if modeOf modrm = 0x01 then
    some (Rust.addSigned (getReg64 cpu (rmOf modrm)) (disp.signExtend 64))
  else none

/-- The `match reg` of the `8B` branch. -/
def movLoadPut (cpu : Cpu) (reg : U8) (v : U64) : Cpu :=
  match reg with
  | 0 => { cpu with rax := v }
  | 1 => { cpu with rcx := v }
  | 2 => { cpu with rdx := v }
  | 6 => { cpu with rsi := v }
  | 7 => { cpu with rdi := v }
  | _ => cpu

/-- mov r32, [r/m64 + disp] subset: `8B /r`. -/
def movLoadArm (base : U64) (b : Vector U8 8) : Interp ω (Option Bool) := do
  if b[0] = 0x8B ∧ rmOf b[1] ≠ 0x04 then
    match movLoadAddr (← getCpu) b[1] b[2] with
    | some addr =>
      let addr ← RustM.lift addr
      let v ← reading fun mem ↦ readU32 base mem addr
      modifyCpu (movLoadPut · (regOf b[1]) (v.setWidth 64))
      some <$> next (if modeOf b[1] = 0x01 then 3 else 2)
    | none => return none
  else return none

/-- The `match reg` of the `48 8D` branch. -/
def leaPut (cpu : Cpu) (reg : U8) (addr : U64) : Cpu :=
  match reg with
  | 0 => { cpu with rax := addr }
  | 2 => { cpu with rdx := addr }
  | 5 => { cpu with rbp := addr }
  | 6 => { cpu with rsi := addr }
  | 7 => { cpu with rdi := addr }
  | _ => cpu

/-- The `match reg` of the `4C 8D` branch. -/
def leaHighPut (cpu : Cpu) (reg : U8) (addr : U64) : Cpu :=
  match reg with
  | 0 => { cpu with r8 := addr }
  | 1 => { cpu with r9 := addr }
  | _ => cpu

/-- lea r64, [r/m64 + disp8] subset, for the prefix `rex` and the registers `put` knows. -/
def leaArm (rex : U8) (put : Cpu → U8 → U64 → Cpu) (b : Vector U8 8) : Interp ω (Option Bool) :=
  arm (b[0] = rex ∧ b[1] = 0x8D ∧ modeOf b[2] = 0x01 ∧ rmOf b[2] ≠ 0x04) do
    let addr ← RustM.lift
      (Rust.addSigned (getReg64 (← getCpu) (rmOf b[2])) (b[3].signExtend 64))
    modifyCpu (put · (regOf b[2]) addr)
    next 4

/-- The `match b[1] - 0xB8` of the `41 B8+r` branch. -/
def movHighPut (cpu : Cpu) (reg : U8) (imm : U64) : Cpu :=
  match reg with
  | 0 => { cpu with r8 := imm }
  | 1 => { cpu with r9 := imm }
  | _ => cpu

/-- mov r8d/r9d, imm32. -/
def movHighArm (base : U64) (b : Vector U8 8) : Interp ω (Option Bool) :=
  arm (b[0] = 0x41 ∧ 0xB8 ≤ b[1] ∧ b[1] ≤ 0xBF) do
    let va ← ripPlus 2
    let imm ← reading fun mem ↦ readU32 base mem va
    modifyCpu (movHighPut · (b[1] - 0xB8) (imm.setWidth 64))
    next 6

/-- The `match b[0] - 0xB8` of the `B8+r` branch. -/
def movLowPut (cpu : Cpu) (reg : U8) (imm : U64) : Cpu :=
  match reg with
  | 0 => { cpu with rax := imm }
  | 1 => { cpu with rcx := imm }
  | 2 => { cpu with rdx := imm }
  | 3 => cpu
  | 4 => { cpu with rsp := imm }
  | 5 => { cpu with rbp := imm }
  | 6 => { cpu with rsi := imm }
  | 7 => { cpu with rdi := imm }
  | _ => cpu

/-- mov r32, imm32 (zero-extend to 64-bit). -/
def movLowArm (base : U64) (b : Vector U8 8) : Interp ω (Option Bool) :=
  arm (0xB8 ≤ b[0] ∧ b[0] ≤ 0xBF) do
    let va ← ripPlus 1
    let imm ← reading fun mem ↦ readU32 base mem va
    modifyCpu (movLowPut · (b[0] - 0xB8) (imm.setWidth 64))
    next 5

/-- mov r/m32, imm32 (`C7 /0`) at `[reg + disp8]`. -/
def storeImmArm (base : U64) (b : Vector U8 8) : Interp ω (Option Bool) :=
  arm (b[0] = 0xC7 ∧ regOf b[1] = 0 ∧ modeOf b[1] = 0x01 ∧ rmOf b[1] ≠ 0x04) do
    let addr ← RustM.lift
      (Rust.addSigned (getReg64 (← getCpu) (rmOf b[1])) (b[2].signExtend 64))
    let va ← ripPlus 3
    let imm ← reading fun mem ↦ readU32 base mem va
    writing fun mem ↦ writeU32 base mem addr imm
    next 7

/-- mov dword [rsp + disp8], imm32 (`C7 /0` with the `SIB` byte `24`). -/
def storeImmSpArm (base : U64) (b : Vector U8 8) : Interp ω (Option Bool) :=
  arm (b[0] = 0xC7 ∧ regOf b[1] = 0 ∧ modeOf b[1] = 0x01 ∧ rmOf b[1] = 0x04 ∧ b[2] = 0x24) do
    let addr ← RustM.lift (Rust.addSigned (← getCpu).rsp (b[3].signExtend 64))
    let va ← ripPlus 4
    let imm ← reading fun mem ↦ readU32 base mem va
    writing fun mem ↦ writeU32 base mem addr imm
    next 8

/-! ### Calls and jumps -/

/-- call rel32 (`E8`). -/
def callRel32 (base : U64) : Interp ω Bool := do
  let va ← ripPlus 1
  let rel ← reading fun mem ↦ readI32 base mem va
  let nextRip ← ripPlus 5
  pushU64 base nextRip
  jump nextRip rel

/-- jmp rel32 (`E9`). -/
def jmpArm (base : U64) (b : Vector U8 8) : Interp ω (Option Bool) :=
  arm (b[0] = 0xE9) do
    let va ← ripPlus 1
    let rel ← reading fun mem ↦ readI32 base mem va
    let nextRip ← ripPlus 5
    jump nextRip rel

/-- jmp rel8 (`EB`). -/
def jmpShortArm (b : Vector U8 8) : Interp ω (Option Bool) :=
  arm (b[0] = 0xEB) do
    let nextRip ← ripPlus 2
    jump nextRip (b[1].signExtend 64)

/-- je rel8 (`74`). -/
def jeArm (b : Vector U8 8) : Interp ω (Option Bool) :=
  arm (b[0] = 0x74) do
    let nextRip ← ripPlus 2
    if (← getCpu).zf then jump nextRip (b[1].signExtend 64)
    else
      modifyCpu ({ · with rip := nextRip })
      return false

/-- `va < base || va >= base + mem.len()`. -/
def isOutside (base : U64) (mem : List U8) (va : U64) : Rust RunError Bool := do
  if va.toNat < base.toNat then
    return true
  let top ← Rust.add base.toNat mem.length
  return va.toNat ≥ top

/-- `va >= base && va < base + mem.len()`. -/
def isInside (base : U64) (mem : List U8) (va : U64) : Rust RunError Bool := do
  if ¬va.toNat ≥ base.toNat then
    return false
  let top ← Rust.add base.toNat mem.length
  return va.toNat < top

/-- call [rip + disp32] (`FF 15`).  A pointer that leads out of guest memory is not called if `rdi`
is a guest address: the program goes on there, with nothing pushed. -/
def callPtr (base : U64) : Interp ω Bool := do
  let va ← ripPlus 2
  let disp ← reading fun mem ↦ readI32 base mem va
  let nextRip ← ripPlus 6
  let ptrVa ← RustM.lift (Rust.addSigned nextRip disp)
  let target ← reading fun mem ↦ readU64 base mem ptrVa
  let rdi := (← getCpu).rdi
  if ← reading fun mem ↦ isOutside base mem target then
    if ← reading fun mem ↦ isInside base mem rdi then
      modifyCpu ({ · with rip := rdi })
      return false
  pushU64 base nextRip
  modifyCpu ({ · with rip := target })
  return false

/-! ## The chain -/

/-- The address `rdx + rax * 8 + 8`. -/
def rdxRax8 (cpu : Cpu) : U64 := cpu.rdx + cpu.rax * 8 + 8

/-- The branches of `exec_one`, in their order. -/
def arms (syscall : Interp ω Bool) (base : U64) (b : Vector U8 8) :
    List (Interp ω (Option Bool)) := [
  -- ENDBR64 (CET) as NOP
  arm (b[0] = 0xF3 ∧ b[1] = 0x0F ∧ b[2] = 0x1E ∧ b[3] = 0xFA) (next 4),
  arm (b[0] = 0x90) (next 1),
  arm (b[0] = 0xC3 ∨ b[0] = 0xF4) (pure true),
  pushArm base (b[0] = 0x41 ∧ b[1] = 0x55) .r13 2,
  popArm base (b[0] = 0x41 ∧ b[1] = 0x5D) .r13 2,
  pushArm base (b[0] = 0x41 ∧ b[1] = 0x54) .r12 2,
  popArm base (b[0] = 0x41 ∧ b[1] = 0x5C) .r12 2,
  pushArm base (b[0] = 0x53) .rbx 1,
  popArm base (b[0] = 0x5B) .rbx 1,
  -- movsxd rax, esi
  setArm (b[0] = 0x48 ∧ b[1] = 0x63 ∧ b[2] = 0xC6) .rax
    (fun cpu ↦ (cpu.rsi.setWidth 32).signExtend 64) 3,
  movArm (b[0] = 0x49 ∧ b[1] = 0x89 ∧ b[2] = 0xFD) .r13 .rdi 3,
  pushArm base (b[0] = 0x55) .rbp 1,
  popArm base (b[0] = 0x5D) .rbp 1,
  -- lea rdi, [rdx + rax*8 + 8]
  setArm (b[0] = 0x48 ∧ b[1] = 0x8D ∧ b[2] = 0x7C ∧ b[3] = 0xC2 ∧ b[4] = 0x08) .rdi rdxRax8 5,
  -- mov [rdx + rax*8 + 8], rdi
  arm (b[0] = 0x48 ∧ b[1] = 0x89 ∧ b[2] = 0x7C ∧ b[3] = 0xC2 ∧ b[4] = 0x08) (do
    let cpu ← getCpu
    writing fun mem ↦ writeU64 base mem (rdxRax8 cpu) cpu.rdi
    next 5),
  -- mov rdi, [rdx + rax*8 + 8]
  loadArm base (b[0] = 0x48 ∧ b[1] = 0x8B ∧ b[2] = 0x7C ∧ b[3] = 0xC2 ∧ b[4] = 0x08)
    .rdi rdxRax8 5,
  movArm (b[0] = 0x48 ∧ b[1] = 0x89 ∧ b[2] = 0xC5) .rbp .rax 3,
  movArm (b[0] = 0x48 ∧ b[1] = 0x89 ∧ b[2] = 0xE5) .rbp .rsp 3,
  movArm (b[0] = 0x48 ∧ b[1] = 0x89 ∧ b[2] = 0xEC) .rsp .rbp 3,
  aluImm8Arm b,
  aluImm32Arm base b,
  movArm (b[0] = 0x48 ∧ b[1] = 0x89 ∧ b[2] = 0xC7) .rdi .rax 3,
  movArm (b[0] = 0x48 ∧ b[1] = 0x89 ∧ b[2] = 0xF8) .rax .rdi 3,
  movArm (b[0] = 0x4C ∧ b[1] = 0x89 ∧ b[2] = 0xC2) .rdx .r8 3,
  movArm (b[0] = 0x4C ∧ b[1] = 0x89 ∧ b[2] = 0xCE) .rsi .r9 3,
  movArm (b[0] = 0x48 ∧ b[1] = 0x89 ∧ b[2] = 0xD7) .rdi .rdx 3,
  movArm (b[0] = 0x48 ∧ b[1] = 0x89 ∧ b[2] = 0xD6) .rsi .rdx 3,
  zeroArm (b[0] = 0x48 ∧ b[1] = 0x31 ∧ b[2] = 0xED) .rbp 3,
  movArm (b[0] = 0x48 ∧ b[1] = 0x89 ∧ b[2] = 0xE7) .rdi .rsp 3,
  movLoadArm base b,
  leaArm 0x48 leaPut b,
  leaArm 0x4C leaHighPut b,
  -- mov rsi, [rdi]
  loadArm base (b[0] = 0x48 ∧ b[1] = 0x8B ∧ b[2] = 0x37) .rsi (·.rdi) 3,
  -- lea rdx, [rdi + 8]
  setArm (b[0] = 0x48 ∧ b[1] = 0x8D ∧ b[2] = 0x57 ∧ b[3] = 0x08) .rdx (·.rdi + 8) 4,
  movArm (b[0] = 0x48 ∧ b[1] = 0x89 ∧ b[2] = 0xE2) .rdx .rsp 3,
  movArm (b[0] = 0x48 ∧ b[1] = 0x89 ∧ b[2] = 0xE6) .rsi .rsp 3,
  movArm (b[0] = 0x49 ∧ b[1] = 0x89 ∧ b[2] = 0xD1) .r9 .rdx 3,
  movArm (b[0] = 0x49 ∧ b[1] = 0x89 ∧ b[2] = 0xD0) .r8 .rdx 3,
  setArm (b[0] = 0x48 ∧ b[1] = 0x83 ∧ b[2] = 0xE4) .rsp (·.rsp &&& b[3].signExtend 64) 4,
  -- lea r9, [rsp + disp8]
  arm (b[0] = 0x4C ∧ b[1] = 0x8D ∧ b[2] = 0x4C ∧ b[3] = 0x24) (do
    let v ← RustM.lift (Rust.addSigned (← getCpu).rsp (b[4].signExtend 64))
    assign .r9 v 5),
  pushArm base (b[0] = 0x50) .rax 1,
  pushArm base (b[0] = 0x54) .rsp 1,
  popArm base (b[0] = 0x5E) .rsi 1,
  zeroArm (b[0] = 0x45 ∧ b[1] = 0x31 ∧ b[2] = 0xC0) .r8 3,
  zeroArm (b[0] = 0x45 ∧ b[1] = 0x31 ∧ b[2] = 0xC9) .r9 3,
  zeroArm (b[0] = 0x45 ∧ b[1] = 0x31 ∧ b[2] = 0xD2) .r10 3,
  zeroArm (b[0] = 0x31 ∧ b[1] = 0xED) .rbp 2,
  zeroArm (b[0] = 0x31 ∧ b[1] = 0xC9) .rcx 2,
  zeroArm (b[0] = 0x31 ∧ b[1] = 0xD2) .rdx 2,
  zeroArm (b[0] = 0x31 ∧ b[1] = 0xC0) .rax 2,
  zeroArm (b[0] = 0x31 ∧ b[1] = 0xFF) .rdi 2,
  testArm (b[0] = 0x48 ∧ b[1] = 0x85 ∧ b[2] = 0xC0) .rax,
  testArm (b[0] = 0x48 ∧ b[1] = 0x85 ∧ b[2] = 0xD2) .rdx,
  -- cmovns rdx, rax
  setArm (b[0] = 0x48 ∧ b[1] = 0x0F ∧ b[2] = 0x49 ∧ b[3] = 0xD0) .rdx
    (fun cpu ↦ if !cpu.sf then cpu.rax else cpu.rdx) 4,
  -- mov al, [r9 + r8 - 1]
  arm (b[0] = 0x43 ∧ b[1] = 0x8A ∧ b[2] = 0x44 ∧ b[3] = 0x01 ∧ b[4] = 0xFF) (do
    let cpu ← getCpu
    let v ← reading fun mem ↦ readU8 base mem (cpu.r9 + cpu.r8 - 1)
    modifyCpu (setAl · v)
    next 5),
  -- lea rdx, [rdx - 1]
  setArm (b[0] = 0x48 ∧ b[1] = 0x8D ∧ b[2] = 0x52 ∧ b[3] = 0xFF) .rdx (·.rdx - 1) 4,
  -- cmp al, imm8
  arm (b[0] = 0x3C) (do
    modifyCpu fun cpu ↦
      { cpu with zf := getAl cpu = b[1], sf := (getAl cpu - b[1]).msb }
    next 2),
  movImmArm base (b[0] = 0x48 ∧ b[1] = 0xC7 ∧ b[2] = 0xC0) .rax,
  movImmArm base (b[0] = 0x48 ∧ b[1] = 0xC7 ∧ b[2] = 0xC7) .rdi,
  movImmArm base (b[0] = 0x48 ∧ b[1] = 0xC7 ∧ b[2] = 0xC6) .rsi,
  movImmArm base (b[0] = 0x48 ∧ b[1] = 0xC7 ∧ b[2] = 0xC2) .rdx,
  movHighArm base b,
  movLowArm base b,
  leaRipArm base (b[0] = 0x48 ∧ b[1] = 0x8D ∧ b[2] = 0x3D) .rdi,
  leaRipArm base (b[0] = 0x4C ∧ b[1] = 0x8D ∧ b[2] = 0x05) .r8,
  leaRipArm base (b[0] = 0x4C ∧ b[1] = 0x8D ∧ b[2] = 0x0D) .r9,
  leaRipArm base (b[0] = 0x48 ∧ b[1] = 0x8D ∧ b[2] = 0x35) .rsi,
  storeImmArm base b,
  storeImmSpArm base b,
  arm (b[0] = 0x0F ∧ b[1] = 0x05) (do
    let exit ← syscall
    ripAdd 2
    return exit),
  arm (b[0] = 0xE8) (callRel32 base),
  jmpArm base b,
  jmpShortArm b,
  jeArm b,
  arm (b[0] = 0xFF ∧ b[1] = 0x15) (callPtr base)]

/-- Take the first arm that returns. -/
def firstArm {α : Type} : List (Interp ω (Option α)) → Interp ω α → Interp ω α
  | [], otherwise => otherwise
  | a :: rest, otherwise => do
    match ← a with
    | some r => return r
    | none => firstArm rest otherwise

/-- `exec_one`; `syscall` is `handle_syscall` on the same `base`. -/
def execOne (syscall : Interp ω Bool) (base : U64) : Interp ω Bool := do
  let rip := (← getCpu).rip
  let b ← reading fun mem ↦ readBytes base mem rip
  firstArm (arms syscall base b) (throw (.err (.unsupportedInstruction rip b)))

/-! ## The loop -/

/-- `MAX_STEPS`. -/
def maxSteps : ℕ := 128 * 1024

/-- The step loop of `run_linux_elf_with_args`, with `n` steps to go. -/
def runSteps (syscall : Interp ω Bool) (base : U64) : ℕ → Interp ω Unit
  | 0 => do throw (.err (.stepLimit maxSteps (← getCpu).rip))
  | n + 1 => do
    if ← execOne syscall base then return ()
    runSteps syscall base n

end LeonOS
