import LeonOS.Interp.Calls
import LeonOS.Interp.Panics

/-!
# Sums that overflow

`exec_one` computes addresses with the plain `+` of Rust, which panics when it overflows.  In most
branches the sum cannot get that far.  In eleven of them it is a sum of signed numbers, the first of
which is a register or the address of the next instruction (`SignedSum`): there a program chooses
numbers that overflow.  In ten the last byte of the instruction need not be in memory, so that one
at the end of the address space takes `rip` past it (`CutAt`).  A system call has overflows of its
own (`CallOverflows`).  These are all (`panics_execOne_iff`).
-/

set_option autoImplicit false

namespace LeonOS

open Bytes RustM X86

variable {ω : Type} {g : Guest ω} {base : U64} {syscall : Interp ω Bool}

/-! ## The sums -/

/-- The opcode and the `ModRM` byte of an instruction of the `leaRipArm`s. -/
def LeaRip (code : ℕ → U8) : Prop :=
  code 1 = 0x8D ∧ (code 0 = 0x48 ∧ (code 2 = 0x3D ∨ code 2 = 0x35) ∨
    code 0 = 0x4C ∧ (code 2 = 0x05 ∨ code 2 = 0x0D))

/-- The instruction at `rip` adds these two as signed numbers. -/
inductive SignedSum (base : U64) (g : Guest ω) : U64 → U64 → Prop
  /-- `mov r32, [reg + disp8]`. -/
  | movLoad (h0 : g.code base 0 = 0x8B) (hmode : modeOf (g.code base 1) = 0x01)
      (hrm : rmOf (g.code base 1) ≠ 0x04) :
      SignedSum base g (getReg64 g.cpu (rmOf (g.code base 1))) (imm8 (g.code base) 2)
  /-- `lea r64, [reg + disp8]`. -/
  | lea (h0 : g.code base 0 = 0x48 ∨ g.code base 0 = 0x4C) (h1 : g.code base 1 = 0x8D)
      (hmode : modeOf (g.code base 2) = 0x01) (hrm : rmOf (g.code base 2) ≠ 0x04) :
      SignedSum base g (getReg64 g.cpu (rmOf (g.code base 2))) (imm8 (g.code base) 3)
  /-- `lea r9, [rsp + disp8]`. -/
  | leaSp (h0 : g.code base 0 = 0x4C) (h1 : g.code base 1 = 0x8D) (h2 : g.code base 2 = 0x4C)
      (h3 : g.code base 3 = 0x24) : SignedSum base g g.cpu.rsp (imm8 (g.code base) 4)
  /-- `lea r64, [rip + disp32]`. -/
  | leaRip {disp : U64} (h : LeaRip (g.code base))
      (hdisp : readI32 base g.mem (g.nextRip 3) = .ok disp) : SignedSum base g (g.nextRip 7) disp
  /-- `mov dword [reg + disp8], imm32`. -/
  | store (h0 : g.code base 0 = 0xC7) (hreg : regOf (g.code base 1) = 0)
      (hmode : modeOf (g.code base 1) = 0x01) (hrm : rmOf (g.code base 1) ≠ 0x04) :
      SignedSum base g (getReg64 g.cpu (rmOf (g.code base 1))) (imm8 (g.code base) 2)
  /-- `mov dword [rsp + disp8], imm32`. -/
  | storeSp (h0 : g.code base 0 = 0xC7) (hreg : regOf (g.code base 1) = 0)
      (hmode : modeOf (g.code base 1) = 0x01) (hrm : rmOf (g.code base 1) = 0x04)
      (h2 : g.code base 2 = 0x24) : SignedSum base g g.cpu.rsp (imm8 (g.code base) 3)
  /-- `call rel32`, when the return address could be pushed. -/
  | call {rel : U64} {mem : List U8} (h0 : g.code base 0 = 0xE8)
      (hrel : readI32 base g.mem (g.nextRip 1) = .ok rel) (hsp : 8 ≤ g.cpu.rsp.toNat)
      (hpush : writeU64 base g.mem (g.cpu.rsp - 8) (g.nextRip 5) = .ok mem) :
      SignedSum base g (g.nextRip 5) rel
  /-- `jmp rel32`. -/
  | jmp {rel : U64} (h0 : g.code base 0 = 0xE9)
      (hrel : readI32 base g.mem (g.nextRip 1) = .ok rel) : SignedSum base g (g.nextRip 5) rel
  /-- `jmp rel8`. -/
  | jmpShort (h0 : g.code base 0 = 0xEB) : SignedSum base g (g.nextRip 2) (imm8 (g.code base) 1)
  /-- `je rel8`, taken. -/
  | je (h0 : g.code base 0 = 0x74) (hzf : g.cpu.zf = true) :
      SignedSum base g (g.nextRip 2) (imm8 (g.code base) 1)
  /-- `call [rip + disp32]`. -/
  | callPtr {disp : U64} (h0 : g.code base 0 = 0xFF) (h1 : g.code base 1 = 0x15)
      (hdisp : readI32 base g.mem (g.nextRip 2) = .ok disp) : SignedSum base g (g.nextRip 6) disp

/-- The bytes of the instruction at `rip` that the step goes over without having looked whether the
last of them is in memory. -/
inductive CutAt (base : U64) (g : Guest ω) : ℕ → Prop
  /-- add, or, sub with imm8. -/
  | alu (h0 : g.code base 0 = 0x48) (h1 : g.code base 1 = 0x83)
      (hmod : g.code base 2 &&& 0xC0 = 0xC0)
      (hop : regOf (g.code base 2) = 0 ∨ regOf (g.code base 2) = 1 ∨ regOf (g.code base 2) = 5) :
      CutAt base g 4
  /-- `and rsp, imm8`. -/
  | and (h0 : g.code base 0 = 0x48) (h1 : g.code base 1 = 0x83) (h2 : g.code base 2 = 0xE4) :
      CutAt base g 4
  /-- `mov r32, [reg]` and `mov r32, [reg + disp8]`, when the operand could be read. -/
  | movLoad {addr : U64} {v : BitVec 32} (h0 : g.code base 0 = 0x8B)
      (hrm : rmOf (g.code base 1) ≠ 0x04)
      (haddr : movLoadAddr g.cpu (g.code base 1) (g.code base 2) = some (.ok addr))
      (hv : readU32 base g.mem addr = .ok v) :
      CutAt base g (if modeOf (g.code base 1) = 0x01 then 3 else 2)
  /-- `lea r64, [reg + disp8]`. -/
  | lea (h0 : g.code base 0 = 0x48 ∨ g.code base 0 = 0x4C) (h1 : g.code base 1 = 0x8D)
      (hmode : modeOf (g.code base 2) = 0x01) (hrm : rmOf (g.code base 2) ≠ 0x04) : CutAt base g 4
  /-- `lea r9, [rsp + disp8]`. -/
  | leaSp (h0 : g.code base 0 = 0x4C) (h1 : g.code base 1 = 0x8D) (h2 : g.code base 2 = 0x4C)
      (h3 : g.code base 3 = 0x24) : CutAt base g 5
  /-- `cmp al, imm8`. -/
  | cmp (h0 : g.code base 0 = 0x3C) : CutAt base g 2
  /-- `mov dword [reg + disp8], imm32`, up to the immediate. -/
  | store (h0 : g.code base 0 = 0xC7) (hreg : regOf (g.code base 1) = 0)
      (hmode : modeOf (g.code base 1) = 0x01) (hrm : rmOf (g.code base 1) ≠ 0x04) : CutAt base g 3
  /-- `mov dword [rsp + disp8], imm32`, up to the immediate. -/
  | storeSp (h0 : g.code base 0 = 0xC7) (hreg : regOf (g.code base 1) = 0)
      (hmode : modeOf (g.code base 1) = 0x01) (hrm : rmOf (g.code base 1) = 0x04)
      (h2 : g.code base 2 = 0x24) : CutAt base g 4
  /-- `jmp rel8`. -/
  | jmpShort (h0 : g.code base 0 = 0xEB) : CutAt base g 2
  /-- `je rel8`. -/
  | je (h0 : g.code base 0 = 0x74) : CutAt base g 2

/-- **A step overflows**: a signed sum does, `rip` does, or the system call panics. -/
inductive Overflows (syscall : Interp ω Bool) (base : U64) (g : Guest ω) : Prop
  | sum {a d : U64} (h : SignedSum base g a d) (hover : a.saddOverflow d = true)
  | cut {n : ℕ} (h : CutAt base g n) (htop : 2 ^ 64 ≤ g.cpu.rip.toNat + n)
  | syscall (h0 : g.code base 0 = 0x0F) (h1 : g.code base 1 = 0x05) (h : Panics syscall g)

/-! ## Small steps -/

section Small

variable {n : ℕ} {α : Type}

theorem panics_bind_ripPlus {k : U64 → Interp ω α} : Panics (ripPlus n >>= k) g ↔
    2 ^ 64 ≤ g.cpu.rip.toNat + n ∨
      g.cpu.rip.toNat + n < 2 ^ 64 ∧ Panics (k (g.nextRip n)) g := by
  rw [ripPlus, bind_assoc, panics_bind_getCpu, panics_bind_lift, Rust.addWord_eq_panic]
  simp [Guest.nextRip]

theorem panics_next : Panics (next n) g ↔ 2 ^ 64 ≤ g.cpu.rip.toNat + n := by
  rw [next, ripAdd, bind_assoc, panics_bind_getCpu, bind_assoc, panics_bind_lift,
    Rust.addWord_eq_panic, or_iff_left]
  rintro ⟨_, -, h⟩
  exact not_panics_pure h

theorem panics_assign {dst : Reg} {v : U64} :
    Panics (assign dst v n) g ↔ 2 ^ 64 ≤ g.cpu.rip.toNat + n := by
  rw [assign, panics_bind_modifyCpu, panics_next, Cpu.put_rip]

theorem panics_bind_pushU64 {v : U64} {k : Unit → Interp ω α} :
    Panics (pushU64 base v >>= k) g ↔ 8 ≤ g.cpu.rsp.toNat ∧
      ∃ mem, writeU64 base g.mem (g.cpu.rsp - 8) v = .ok mem ∧
        Panics (k ()) { g with cpu := { g.cpu with rsp := g.cpu.rsp - 8 }, mem := mem } := by
  have hpush : ¬Panics (pushU64 base v) g := by
    rw [pushU64, panics_bind_getCpu, panics_bind_lift]
    rintro (h | ⟨newRsp, -, h⟩)
    · exact Rust.okOr_ne_panic h
    · rcases panics_bind_writing.mp h with h | ⟨mem, -, h⟩
      · exact Window.write_ne_panic h
      · exact not_panics_modify h
  rw [panics_bind, or_iff_right hpush]
  simp [pushU64_eq_ok, and_assoc, @Unique.exists_iff Unit]

theorem panics_bind_popU64 {k : U64 → Interp ω α} (h : Panics (popU64 base >>= k) g) :
    ∃ v, Panics (k v) { g with cpu := { g.cpu with rsp := g.cpu.rsp + 8 } } := by
  rcases panics_bind.mp h with h | ⟨v, g', hpop, h⟩
  · rw [popU64, panics_bind_getCpu, panics_bind_reading] at h
    rcases h with h | ⟨v, -, h⟩
    · exact absurd h readU64_ne_panic
    · rcases panics_bind_lift.mp h with h | ⟨newRsp, -, h⟩
      · exact absurd h Rust.okOr_ne_panic
      · exact absurd h not_panics_pure
  · obtain ⟨-, -, rfl⟩ := popU64_eq_ok.mp hpop
    exact ⟨v, h⟩

theorem panics_jump {nextRip rel : U64} :
    Panics (jump nextRip rel) g ↔ nextRip.saddOverflow rel = true := by
  rw [jump, panics_bind_lift, Rust.addSigned_eq_panic, or_iff_left]
  rintro ⟨_, -, h⟩
  exact not_panics_pure h

theorem panics_arm {c : Prop} [Decidable c] {body : Interp ω Bool} :
    Panics (arm c body) g ↔ c ∧ Panics body g := by
  rw [arm, panics_ite, panics_map, or_iff_left]
  exact fun h ↦ not_panics_pure h.2

end Small

/-! ## Arms -/

/-- The arm panics only where the step overflows. -/
def OnlyOverflows (syscall : Interp ω Bool) (base : U64) (b : Vector U8 8)
    (a : Interp ω (Option Bool)) : Prop :=
  ∀ g : Guest ω, base.toNat + g.mem.length < 2 ^ 64 → (∀ k (hk : k < 8), g.code base k = b[k]) →
    Panics a g → Overflows syscall base g

/-- A byte that is not zero is in memory, so that `rip` can go past it. -/
theorem rip_lt_of_code {k : ℕ} (hend : base.toNat + g.mem.length < 2 ^ 64)
    (h : g.code base k ≠ 0) : g.cpu.rip.toNat + k + 1 < 2 ^ 64 := by
  rw [Guest.code, Window.view] at h
  split at h
  · have hlt : g.cpu.rip.toNat + k - base.toNat < g.mem.length := by
      refine Nat.lt_of_not_le fun hle ↦ h ?_
      rw [List.getD_eq_getElem?_getD, List.getElem?_eq_none hle, Option.getD_none]
    omega
  · exact absurd rfl h

/-- A doubleword that could be read is in memory. -/
theorem rip_lt_of_readI32 {p : ℕ} {v : U64} (hend : base.toNat + g.mem.length < 2 ^ 64)
    (hp : g.cpu.rip.toNat + p < 2 ^ 64) (h : readI32 base g.mem (g.nextRip p) = .ok v) :
    g.cpu.rip.toNat + p + 4 < 2 ^ 64 := by
  obtain ⟨w, hw, -⟩ := Rust.bind_eq_ok.mp h
  obtain ⟨i, hi, -⟩ := Rust.bind_eq_ok.mp hw
  obtain ⟨hva, -, hle⟩ := Window.access_bound hi
  rw [Guest.nextRip, BitVec.toNat_add, BitVec.toNat_ofNat, Nat.add_mod_mod,
    Nat.mod_eq_of_lt hp] at hva
  omega

theorem rip_lt_of_readU32 {p : ℕ} {v : BitVec 32} (hend : base.toNat + g.mem.length < 2 ^ 64)
    (hp : g.cpu.rip.toNat + p < 2 ^ 64) (h : readU32 base g.mem (g.nextRip p) = .ok v) :
    g.cpu.rip.toNat + p + 4 < 2 ^ 64 :=
  rip_lt_of_readI32 hend hp (Rust.bind_eq_ok.mpr ⟨v, h, rfl⟩)

section Arms

variable {b : Vector U8 8} {c : Prop} [Decidable c] {n : ℕ} {dst src : Reg}

/-- The bytes before an instruction, if there are others, and its last byte, which is not zero. -/
def Ends (b : Vector U8 8) (c : Prop) (n : ℕ) : Prop :=
  ∀ code : ℕ → U8, (∀ k (hk : k < 8), code k = b[k]) → c → code (n - 1) ≠ 0

/-- An arm that can only overflow by going past its own last byte does not. -/
theorem onlyOverflows_of_ends {body : Interp ω Bool} (hlast : Ends b c n)
    (hbody : ∀ g : Guest ω, base.toNat + g.mem.length < 2 ^ 64 → Panics body g →
      2 ^ 64 ≤ g.cpu.rip.toNat + n) : OnlyOverflows syscall base b (arm c body) := by
  intro g hend hb h
  obtain ⟨hc, h⟩ := panics_arm.mp h
  have hroom := rip_lt_of_code hend (hlast (g.code base) hb hc)
  have htop := hbody g hend h
  omega

theorem onlyOverflows_next (hlast : Ends b c n) :
    OnlyOverflows syscall base b (arm c (next n)) :=
  onlyOverflows_of_ends hlast fun _ _ h ↦ panics_next.mp h

theorem onlyOverflows_setArm {value : Cpu → U64} (hlast : Ends b c n) :
    OnlyOverflows syscall base b (setArm c dst value n) :=
  onlyOverflows_of_ends hlast fun _ _ h ↦ panics_assign.mp (panics_bind_getCpu.mp h)

theorem onlyOverflows_pushArm (hlast : Ends b c n) :
    OnlyOverflows syscall base b (pushArm base c src n) := by
  refine onlyOverflows_of_ends hlast fun g _ h ↦ ?_
  obtain ⟨-, mem, -, h⟩ := panics_bind_pushU64.mp (panics_bind_getCpu.mp h)
  have htop := panics_next.mp h
  exact htop

theorem onlyOverflows_popArm (hlast : Ends b c n) :
    OnlyOverflows syscall base b (popArm base c dst n) := by
  refine onlyOverflows_of_ends hlast fun g _ h ↦ ?_
  obtain ⟨v, h⟩ := panics_bind_popU64 h
  have htop := panics_assign.mp h
  exact htop

theorem onlyOverflows_loadArm {addr : Cpu → U64} (hlast : Ends b c n) :
    OnlyOverflows syscall base b (loadArm base c dst addr n) := by
  refine onlyOverflows_of_ends hlast fun g _ h ↦ ?_
  rcases panics_bind_reading.mp (panics_bind_getCpu.mp h) with h | ⟨v, -, h⟩
  · exact absurd h readU64_ne_panic
  · exact panics_assign.mp h

theorem onlyOverflows_movImmArm (hlast : Ends b c 3) :
    OnlyOverflows syscall base b (movImmArm base c dst) := by
  refine onlyOverflows_of_ends hlast fun g hend h ↦ ?_
  rcases panics_bind_ripPlus.mp h with h | ⟨hp, h⟩
  · exact h
  rcases panics_bind_reading.mp h with h | ⟨v, hv, h⟩
  · exact absurd h readU32_ne_panic
  · exact absurd (panics_assign.mp h) (not_le.mpr (rip_lt_of_readU32 hend hp hv))

theorem onlyOverflows_testArm {r : Reg} (hlast : Ends b c 3) :
    OnlyOverflows syscall base b (testArm c r) := by
  refine onlyOverflows_of_ends hlast fun g _ h ↦ ?_
  rw [panics_bind_modifyCpu] at h
  have htop := panics_next.mp h
  exact htop

theorem onlyOverflows_leaRipArm (hc : ∀ code : ℕ → U8, (∀ k (hk : k < 8), code k = b[k]) → c →
    LeaRip code ∧ code 2 ≠ 0) : OnlyOverflows syscall base b (leaRipArm base c dst) := by
  intro g hend hb h
  obtain ⟨h0, h⟩ := panics_arm.mp h
  obtain ⟨hcode, hlast⟩ := hc _ hb h0
  have hroom := rip_lt_of_code hend hlast
  rcases panics_bind_ripPlus.mp h with h | ⟨hp, h⟩
  · omega
  rcases panics_bind_reading.mp h with h | ⟨disp, hdisp, h⟩
  · exact absurd h readI32_ne_panic
  have hnext := rip_lt_of_readI32 hend hp hdisp
  rcases panics_bind_ripPlus.mp h with h | ⟨-, h⟩
  · omega
  rcases panics_bind_lift.mp h with h | ⟨v, -, h⟩
  · exact .sum (.leaRip hcode hdisp) (Rust.addSigned_eq_panic.mp h)
  · exact absurd h not_panics_pure

/-! ### Arms that decode a `ModRM` byte -/

@[simp] theorem setReg64_rip (cpu : Cpu) (r : U8) (v : U64) : (setReg64 cpu r v).rip = cpu.rip := by
  unfold setReg64
  split <;> rfl

@[simp] theorem movLoadPut_rip (cpu : Cpu) (r : U8) (v : U64) :
    (movLoadPut cpu r v).rip = cpu.rip := by
  unfold movLoadPut
  split <;> rfl

@[simp] theorem leaPut_rip (cpu : Cpu) (r : U8) (v : U64) : (leaPut cpu r v).rip = cpu.rip := by
  unfold leaPut
  split <;> rfl

@[simp] theorem leaHighPut_rip (cpu : Cpu) (r : U8) (v : U64) :
    (leaHighPut cpu r v).rip = cpu.rip := by
  unfold leaHighPut
  split <;> rfl

@[simp] theorem movHighPut_rip (cpu : Cpu) (r : U8) (v : U64) :
    (movHighPut cpu r v).rip = cpu.rip := by
  unfold movHighPut
  split <;> rfl

@[simp] theorem movLowPut_rip (cpu : Cpu) (r : U8) (v : U64) :
    (movLowPut cpu r v).rip = cpu.rip := by
  unfold movLowPut
  split <;> rfl

/-- `rip` goes on after a change of the registers. -/
theorem panics_modify_next {f : Cpu → Cpu} (hf : (f g.cpu).rip = g.cpu.rip) :
    Panics (modifyCpu f >>= fun _ ↦ next n) g ↔ 2 ^ 64 ≤ g.cpu.rip.toNat + n := by
  rw [panics_bind_modifyCpu, panics_next, hf]

theorem group1_isSome_iff {op : U8} (cur imm : U64) :
    (∃ v, group1 op cur imm = some v) ↔ op = 0 ∨ op = 1 ∨ op = 5 := by
  unfold group1
  split <;> simp_all

theorem panics_group1Arm {modrm : U8} {imm : U64} : Panics (group1Arm modrm imm n) g ↔
    (regOf modrm = 0 ∨ regOf modrm = 1 ∨ regOf modrm = 5) ∧ 2 ^ 64 ≤ g.cpu.rip.toNat + n := by
  rw [group1Arm, panics_bind_getCpu, ← group1_isSome_iff (getReg64 g.cpu (rmOf modrm)) imm]
  cases group1 (regOf modrm) (getReg64 g.cpu (rmOf modrm)) imm with
  | none => simp
  | some v =>
    dsimp only
    rw [panics_bind_modifyCpu, panics_map, panics_next, setReg64_rip]
    simp

theorem onlyOverflows_aluImm8Arm : OnlyOverflows syscall base b (aluImm8Arm b) := by
  intro g hend hb h
  rw [aluImm8Arm, panics_ite, ← hb 0, ← hb 1, ← hb 2] at h
  rcases h with ⟨⟨h0, h1, hmod⟩, h⟩ | ⟨-, h⟩
  · obtain ⟨hop, htop⟩ := panics_group1Arm.mp h
    exact .cut (.alu h0 h1 hmod hop) htop
  · exact absurd h not_panics_pure

theorem onlyOverflows_aluImm32Arm : OnlyOverflows syscall base b (aluImm32Arm base b) := by
  intro g hend hb h
  rw [aluImm32Arm, panics_ite, ← hb 0, ← hb 1, ← hb 2] at h
  rcases h with ⟨⟨h0, h1, hmod⟩, h⟩ | ⟨-, h⟩
  · have hlast : g.code base 2 ≠ 0 := by
      rintro hzero
      rw [hzero] at hmod
      exact absurd hmod (by decide)
    have hroom := rip_lt_of_code hend hlast
    rcases panics_bind_ripPlus.mp h with h | ⟨hp, h⟩
    · omega
    rcases panics_bind_reading.mp h with h | ⟨imm, himm, h⟩
    · exact absurd h readI32_ne_panic
    have hnext := rip_lt_of_readI32 hend hp himm
    have htop := (panics_group1Arm.mp h).2
    omega
  · exact absurd h not_panics_pure

theorem onlyOverflows_movLoadArm : OnlyOverflows syscall base b (movLoadArm base b) := by
  intro g hend hb h
  rw [movLoadArm, panics_ite, ← hb 0, ← hb 1, ← hb 2] at h
  rcases h with ⟨⟨h0, hrm⟩, h⟩ | ⟨-, h⟩
  · rw [panics_bind_getCpu] at h
    cases haddr : movLoadAddr g.cpu (g.code base 1) (g.code base 2) with
    | none =>
      rw [haddr] at h
      exact absurd h not_panics_pure
    | some addr =>
      rw [haddr] at h
      rcases panics_bind_lift.mp h with h | ⟨addr, hok, h⟩
      · rw [h, movLoadAddr] at haddr
        split at haddr
        · split at haddr
          · exact nomatch haddr
          · exact nomatch Option.some_inj.mp haddr
        · split at haddr
          · rename_i hmode
            exact .sum (.movLoad h0 hmode hrm)
              (Rust.addSigned_eq_panic.mp (Option.some_inj.mp haddr))
          · exact nomatch haddr
      rw [hok] at haddr
      rcases panics_bind_reading.mp h with h | ⟨v, hv, h⟩
      · exact absurd h readU32_ne_panic
      rw [panics_bind_modifyCpu, panics_map, panics_next, movLoadPut_rip] at h
      exact .cut (.movLoad h0 hrm haddr hv) h
  · exact absurd h not_panics_pure

theorem onlyOverflows_leaArm {rex : U8} {put : Cpu → U8 → U64 → Cpu} (hrex : rex = 0x48 ∨ rex = 0x4C)
    (hput : ∀ cpu r v, (put cpu r v).rip = cpu.rip) :
    OnlyOverflows syscall base b (leaArm rex put b) := by
  intro g hend hb h
  rw [leaArm, panics_arm, ← hb 0, ← hb 1, ← hb 2, ← hb 3] at h
  obtain ⟨⟨h0, h1, hmode, hrm⟩, h⟩ := h
  rw [← h0] at hrex
  rcases panics_bind_lift.mp (panics_bind_getCpu.mp h) with h | ⟨addr, -, h⟩
  · exact .sum (.lea hrex h1 hmode hrm) (Rust.addSigned_eq_panic.mp h)
  · exact .cut (.lea hrex h1 hmode hrm) ((panics_modify_next (hput _ _ _)).mp h)

theorem onlyOverflows_movHighArm : OnlyOverflows syscall base b (movHighArm base b) := by
  refine onlyOverflows_of_ends (n := 2) ?_ fun g hend h ↦ ?_
  · rintro code hb ⟨-, hlo, -⟩ hzero
    rw [← hb 1, hzero] at hlo
    exact absurd hlo (by decide)
  · rcases panics_bind_ripPlus.mp h with h | ⟨hp, h⟩
    · exact h
    rcases panics_bind_reading.mp h with h | ⟨v, hv, h⟩
    · exact absurd h readU32_ne_panic
    exact absurd ((panics_modify_next (movHighPut_rip _ _ _)).mp h)
      (not_le.mpr (rip_lt_of_readU32 hend hp hv))

theorem onlyOverflows_movLowArm : OnlyOverflows syscall base b (movLowArm base b) := by
  refine onlyOverflows_of_ends (n := 1) ?_ fun g hend h ↦ ?_
  · rintro code hb ⟨hlo, -⟩ hzero
    rw [← hb 0, hzero] at hlo
    exact absurd hlo (by decide)
  · rcases panics_bind_ripPlus.mp h with h | ⟨hp, h⟩
    · exact h
    rcases panics_bind_reading.mp h with h | ⟨v, hv, h⟩
    · exact absurd h readU32_ne_panic
    exact absurd ((panics_modify_next (movLowPut_rip _ _ _)).mp h)
      (not_le.mpr (rip_lt_of_readU32 hend hp hv))

theorem onlyOverflows_storeImmArm : OnlyOverflows syscall base b (storeImmArm base b) := by
  intro g hend hb h
  rw [storeImmArm, panics_arm, ← hb 0, ← hb 1, ← hb 2] at h
  obtain ⟨⟨h0, hreg, hmode, hrm⟩, h⟩ := h
  rcases panics_bind_lift.mp (panics_bind_getCpu.mp h) with h | ⟨addr, -, h⟩
  · exact .sum (.store h0 hreg hmode hrm) (Rust.addSigned_eq_panic.mp h)
  rcases panics_bind_ripPlus.mp h with h | ⟨hp, h⟩
  · exact .cut (.store h0 hreg hmode hrm) h
  rcases panics_bind_reading.mp h with h | ⟨imm, himm, h⟩
  · exact absurd h readU32_ne_panic
  rcases panics_bind_writing.mp h with h | ⟨mem, -, h⟩
  · exact absurd h Window.write_ne_panic
  have hnext := rip_lt_of_readU32 hend hp himm
  have htop := panics_next.mp h
  exact absurd htop (not_le.mpr hnext)

theorem onlyOverflows_storeImmSpArm : OnlyOverflows syscall base b (storeImmSpArm base b) := by
  intro g hend hb h
  rw [storeImmSpArm, panics_arm, ← hb 0, ← hb 1, ← hb 2, ← hb 3] at h
  obtain ⟨⟨h0, hreg, hmode, hrm, h2⟩, h⟩ := h
  rcases panics_bind_lift.mp (panics_bind_getCpu.mp h) with h | ⟨addr, -, h⟩
  · exact .sum (.storeSp h0 hreg hmode hrm h2) (Rust.addSigned_eq_panic.mp h)
  rcases panics_bind_ripPlus.mp h with h | ⟨hp, h⟩
  · exact .cut (.storeSp h0 hreg hmode hrm h2) h
  rcases panics_bind_reading.mp h with h | ⟨imm, himm, h⟩
  · exact absurd h readU32_ne_panic
  rcases panics_bind_writing.mp h with h | ⟨mem, -, h⟩
  · exact absurd h Window.write_ne_panic
  have hnext := rip_lt_of_readU32 hend hp himm
  have htop := panics_next.mp h
  exact absurd htop (not_le.mpr hnext)

/-! ### Calls and jumps -/

theorem panics_callRel32 (hend : base.toNat + g.mem.length < 2 ^ 64) (h0 : g.code base 0 = 0xE8) :
    Panics (callRel32 base) g ↔ ∃ rel mem, readI32 base g.mem (g.nextRip 1) = .ok rel ∧
      8 ≤ g.cpu.rsp.toNat ∧ writeU64 base g.mem (g.cpu.rsp - 8) (g.nextRip 5) = .ok mem ∧
        (g.nextRip 5).saddOverflow rel = true := by
  have hroom := rip_lt_of_code (g := g) hend (k := 0) (by rw [h0]; decide)
  rw [callRel32, panics_bind_ripPlus, or_iff_right (by omega), and_iff_right (by omega),
    panics_bind_reading, or_iff_right readI32_ne_panic]
  refine exists_congr fun rel ↦ ⟨?_, ?_⟩
  · rintro ⟨hrel, h⟩
    have hnext := rip_lt_of_readI32 hend hroom hrel
    rcases panics_bind_ripPlus.mp h with h | ⟨-, h⟩
    · omega
    obtain ⟨hsp, mem, hpush, h⟩ := panics_bind_pushU64.mp h
    exact ⟨mem, hrel, hsp, hpush, panics_jump.mp h⟩
  · rintro ⟨mem, hrel, hsp, hpush, hover⟩
    have hnext := rip_lt_of_readI32 hend hroom hrel
    exact ⟨hrel, panics_bind_ripPlus.mpr (.inr ⟨by omega,
      panics_bind_pushU64.mpr ⟨hsp, mem, hpush, panics_jump.mpr hover⟩⟩)⟩

theorem isOutside_ne_panic {mem : List U8} {va : U64} (hend : base.toNat + mem.length < 2 ^ 64) :
    isOutside base mem va ≠ .error .panic := by
  rw [isOutside, Rust.add_of_lt hend]
  split
  · exact fun h ↦ by cases h
  · exact fun h ↦ by cases h

theorem isInside_ne_panic {mem : List U8} {va : U64} (hend : base.toNat + mem.length < 2 ^ 64) :
    isInside base mem va ≠ .error .panic := by
  rw [isInside, Rust.add_of_lt hend]
  split
  · exact fun h ↦ nomatch h
  · exact fun h ↦ nomatch h

theorem panics_callPtr (hend : base.toNat + g.mem.length < 2 ^ 64) (h1 : g.code base 1 = 0x15) :
    Panics (callPtr base) g ↔ ∃ disp, readI32 base g.mem (g.nextRip 2) = .ok disp ∧
      (g.nextRip 6).saddOverflow disp = true := by
  have hroom := rip_lt_of_code (g := g) hend (k := 1) (by rw [h1]; decide)
  have hcall (g : Guest ω) (nextRip target : U64) : ¬Panics (do
      pushU64 base nextRip
      modifyCpu ({ · with rip := target })
      return false : Interp ω Bool) g := fun h ↦ by
    obtain ⟨-, mem, -, h⟩ := panics_bind_pushU64.mp h
    exact not_panics_pure h
  rw [callPtr, panics_bind_ripPlus, or_iff_right (by omega), and_iff_right (by omega),
    panics_bind_reading, or_iff_right readI32_ne_panic]
  refine exists_congr fun disp ↦ and_congr_right fun hdisp ↦ ?_
  have hnext := rip_lt_of_readI32 hend (by omega) hdisp
  rw [panics_bind_ripPlus, or_iff_right (by omega), and_iff_right (by omega), panics_bind_lift,
    Rust.addSigned_eq_panic, or_iff_left]
  rintro ⟨ptrVa, -, h⟩
  rcases panics_bind_reading.mp h with h | ⟨target, -, h⟩
  · exact readU64_ne_panic h
  rcases panics_bind_reading.mp (panics_bind_getCpu.mp h) with h | ⟨outside, -, h⟩
  · exact isOutside_ne_panic hend h
  dsimp only at h
  rw [panics_ite] at h
  rcases h with ⟨-, h⟩ | ⟨-, h⟩
  · rcases panics_bind_reading.mp h with h | ⟨inside, -, h⟩
    · exact isInside_ne_panic hend h
    rw [panics_ite] at h
    rcases h with ⟨-, h⟩ | ⟨-, h⟩
    · exact not_panics_pure h
    · exact hcall _ _ _ h
  · exact hcall _ _ _ h

theorem onlyOverflows_call :
    OnlyOverflows syscall base b (arm (b.get 0 = 0xE8) (callRel32 base)) := by
  intro g hend hb h
  obtain ⟨hc, h⟩ := panics_arm.mp h
  have h0 := (hb 0 (by decide)).trans hc
  obtain ⟨rel, mem, hrel, hsp, hpush, hover⟩ := (panics_callRel32 hend h0).mp h
  exact .sum (.call h0 hrel hsp hpush) hover

theorem onlyOverflows_callPtr :
    OnlyOverflows syscall base b (arm (b.get 0 = 0xFF ∧ b.get 1 = 0x15) (callPtr base)) := by
  intro g hend hb h
  obtain ⟨hc, h⟩ := panics_arm.mp h
  have h0 := (hb 0 (by decide)).trans hc.1
  have h1 := (hb 1 (by decide)).trans hc.2
  obtain ⟨disp, hdisp, hover⟩ := (panics_callPtr hend h1).mp h
  exact .sum (.callPtr h0 h1 hdisp) hover

theorem onlyOverflows_jmpArm : OnlyOverflows syscall base b (jmpArm base b) := by
  intro g hend hb h
  rw [jmpArm, panics_arm, ← hb 0] at h
  obtain ⟨h0, h⟩ := h
  have hroom := rip_lt_of_code (g := g) hend (k := 0) (by rw [h0]; decide)
  rcases panics_bind_ripPlus.mp h with h | ⟨hp, h⟩
  · omega
  rcases panics_bind_reading.mp h with h | ⟨rel, hrel, h⟩
  · exact absurd h readI32_ne_panic
  have hnext := rip_lt_of_readI32 hend hp hrel
  rcases panics_bind_ripPlus.mp h with h | ⟨-, h⟩
  · omega
  · exact .sum (.jmp h0 hrel) (panics_jump.mp h)

theorem onlyOverflows_jmpShortArm : OnlyOverflows syscall base b (jmpShortArm b) := by
  intro g hend hb h
  rw [jmpShortArm, panics_arm, ← hb 0, ← hb 1] at h
  obtain ⟨h0, h⟩ := h
  rcases panics_bind_ripPlus.mp h with h | ⟨-, h⟩
  · exact .cut (.jmpShort h0) h
  · exact .sum (.jmpShort h0) (panics_jump.mp h)

theorem onlyOverflows_jeArm : OnlyOverflows syscall base b (jeArm b) := by
  intro g hend hb h
  rw [jeArm, panics_arm, ← hb 0, ← hb 1] at h
  obtain ⟨h0, h⟩ := h
  rcases panics_bind_ripPlus.mp h with h | ⟨-, h⟩
  · exact .cut (.je h0) h
  rw [panics_bind_getCpu, panics_ite] at h
  rcases h with ⟨hzf, h⟩ | ⟨-, h⟩
  · exact .sum (.je h0 hzf) (panics_jump.mp h)
  · exact absurd h not_panics_pure

/-! ### Arms that the chain has in full -/

theorem onlyOverflows_storeRdi (hlast : Ends b c 5) : OnlyOverflows syscall base b (arm c (do
    let cpu ← getCpu
    writing fun mem ↦ writeU64 base mem (rdxRax8 cpu) cpu.rdi
    next 5)) := by
  refine onlyOverflows_of_ends hlast fun g _ h ↦ ?_
  rcases panics_bind_writing.mp (panics_bind_getCpu.mp h) with h | ⟨mem, -, h⟩
  · exact absurd h Window.write_ne_panic
  · have htop := panics_next.mp h
    exact htop

theorem onlyOverflows_movAl (hlast : Ends b c 5) : OnlyOverflows syscall base b (arm c (do
    let cpu ← getCpu
    let v ← reading fun mem ↦ readU8 base mem (cpu.r9 + cpu.r8 - 1)
    modifyCpu (setAl · v)
    next 5)) := by
  refine onlyOverflows_of_ends hlast fun g _ h ↦ ?_
  rcases panics_bind_reading.mp (panics_bind_getCpu.mp h) with h | ⟨v, -, h⟩
  · exact absurd h readU8_ne_panic
  · exact (panics_modify_next (f := (setAl · v)) rfl).mp h

theorem onlyOverflows_andRsp {value : Cpu → U64} : OnlyOverflows syscall base b
    (setArm (b.get 0 = 0x48 ∧ b.get 1 = 0x83 ∧ b.get 2 = 0xE4) .rsp value 4) := by
  intro g hend hb h
  obtain ⟨⟨hc0, hc1, hc2⟩, h⟩ := panics_arm.mp h
  have h0 := (hb 0 (by decide)).trans hc0
  have h1 := (hb 1 (by decide)).trans hc1
  have h2 := (hb 2 (by decide)).trans hc2
  exact .cut (.and h0 h1 h2) (panics_assign.mp (panics_bind_getCpu.mp h))

theorem onlyOverflows_leaSp : OnlyOverflows syscall base b
    (arm (b.get 0 = 0x4C ∧ b.get 1 = 0x8D ∧ b.get 2 = 0x4C ∧ b.get 3 = 0x24) (do
      let v ← lift (Rust.addSigned (← getCpu).rsp ((b.get 4).signExtend 64))
      assign .r9 v 5)) := by
  intro g hend hb h
  obtain ⟨⟨hc0, hc1, hc2, hc3⟩, h⟩ := panics_arm.mp h
  have h0 := (hb 0 (by decide)).trans hc0
  have h1 := (hb 1 (by decide)).trans hc1
  have h2 := (hb 2 (by decide)).trans hc2
  have h3 := (hb 3 (by decide)).trans hc3
  have hdisp : g.code base 4 = b.get 4 := hb 4 (by decide)
  rw [← hdisp] at h
  rcases panics_bind_lift.mp (panics_bind_getCpu.mp h) with h | ⟨v, -, h⟩
  · exact .sum (.leaSp h0 h1 h2 h3) (Rust.addSigned_eq_panic.mp h)
  · exact .cut (.leaSp h0 h1 h2 h3) (panics_assign.mp h)

theorem onlyOverflows_cmp : OnlyOverflows syscall base b (arm (b.get 0 = 0x3C) (do
    modifyCpu fun cpu ↦ { cpu with zf := getAl cpu = b.get 1, sf := (getAl cpu - b.get 1).msb }
    next 2)) := by
  intro g hend hb h
  obtain ⟨hc, h⟩ := panics_arm.mp h
  have h0 := (hb 0 (by decide)).trans hc
  rw [panics_bind_modifyCpu] at h
  have htop := panics_next.mp h
  exact .cut (.cmp h0) htop

theorem onlyOverflows_syscall
    (hsys : ∀ (g : Guest ω) stop g', syscall g = .ok stop g' → g'.cpu.rip = g.cpu.rip) :
    OnlyOverflows syscall base b (arm (b.get 0 = 0x0F ∧ b.get 1 = 0x05) (do
      let exit ← syscall
      ripAdd 2
      return exit)) := by
  intro g hend hb h
  obtain ⟨hc, h⟩ := panics_arm.mp h
  have h0 := (hb 0 (by decide)).trans hc.1
  have h1 := (hb 1 (by decide)).trans hc.2
  rcases panics_bind.mp h with h | ⟨stop, g', hrun, h⟩
  · exact .syscall h0 h1 h
  · have hroom := rip_lt_of_code (g := g) hend (k := 1) (by rw [h1]; decide)
    have hrip := hsys g stop g' hrun
    have htop : 2 ^ 64 ≤ g'.cpu.rip.toNat + 2 := by
      rw [← panics_next, next, panics_bind]
      rcases panics_bind.mp h with h | ⟨_, _, -, h⟩
      · exact .inl h
      · exact absurd h not_panics_pure
    rw [hrip] at htop
    omega

/-- **No arm panics but by an overflow.**  The lemmas stand in the order of the arms; what is left of
each is that its last byte is not zero. -/
theorem arms_onlyOverflow
    (hsys : ∀ (g : Guest ω) stop g', syscall g = .ok stop g' → g'.cpu.rip = g.cpu.rip) :
    ∀ a ∈ arms syscall base b, OnlyOverflows syscall base b a := by
  simp only [arms, List.forall_mem_cons]
  refine ⟨onlyOverflows_next ?_, onlyOverflows_next ?_,
    fun _ _ _ h ↦ absurd (panics_arm.mp h).2 not_panics_pure, onlyOverflows_pushArm ?_,
    onlyOverflows_popArm ?_, onlyOverflows_pushArm ?_, onlyOverflows_popArm ?_,
    onlyOverflows_pushArm ?_, onlyOverflows_popArm ?_, onlyOverflows_setArm ?_,
    onlyOverflows_setArm ?_, onlyOverflows_pushArm ?_, onlyOverflows_popArm ?_,
    onlyOverflows_setArm ?_, onlyOverflows_storeRdi ?_, onlyOverflows_loadArm ?_,
    onlyOverflows_setArm ?_, onlyOverflows_setArm ?_, onlyOverflows_setArm ?_,
    onlyOverflows_aluImm8Arm, onlyOverflows_aluImm32Arm, onlyOverflows_setArm ?_,
    onlyOverflows_setArm ?_, onlyOverflows_setArm ?_, onlyOverflows_setArm ?_,
    onlyOverflows_setArm ?_, onlyOverflows_setArm ?_, onlyOverflows_setArm ?_,
    onlyOverflows_setArm ?_, onlyOverflows_movLoadArm, onlyOverflows_leaArm (.inl rfl) leaPut_rip,
    onlyOverflows_leaArm (.inr rfl) leaHighPut_rip, onlyOverflows_loadArm ?_,
    onlyOverflows_setArm ?_, onlyOverflows_setArm ?_, onlyOverflows_setArm ?_,
    onlyOverflows_setArm ?_, onlyOverflows_setArm ?_, onlyOverflows_andRsp, onlyOverflows_leaSp,
    onlyOverflows_pushArm ?_, onlyOverflows_pushArm ?_, onlyOverflows_popArm ?_,
    onlyOverflows_setArm ?_, onlyOverflows_setArm ?_, onlyOverflows_setArm ?_,
    onlyOverflows_setArm ?_, onlyOverflows_setArm ?_, onlyOverflows_setArm ?_,
    onlyOverflows_setArm ?_, onlyOverflows_setArm ?_, onlyOverflows_testArm ?_,
    onlyOverflows_testArm ?_, onlyOverflows_setArm ?_, onlyOverflows_movAl ?_,
    onlyOverflows_setArm ?_, onlyOverflows_cmp, onlyOverflows_movImmArm ?_,
    onlyOverflows_movImmArm ?_, onlyOverflows_movImmArm ?_, onlyOverflows_movImmArm ?_,
    onlyOverflows_movHighArm, onlyOverflows_movLowArm, onlyOverflows_leaRipArm ?_,
    onlyOverflows_leaRipArm ?_, onlyOverflows_leaRipArm ?_, onlyOverflows_leaRipArm ?_,
    onlyOverflows_storeImmArm, onlyOverflows_storeImmSpArm, onlyOverflows_syscall hsys,
    onlyOverflows_call, onlyOverflows_jmpArm, onlyOverflows_jmpShortArm, onlyOverflows_jeArm,
    onlyOverflows_callPtr, List.forall_mem_nil _⟩
  all_goals
    rintro code hb h
    simp [LeaRip, hb _ _, h]

end Arms

/-! ## The chain -/

theorem panics_firstArm {α : Type} {as : List (Interp ω (Option α))} {e : RunError}
    (has : ∀ a ∈ as, FallsThrough a) (h : Panics (firstArm as (throw (.err e))) g) :
    ∃ a ∈ as, Panics a g := by
  induction as with
  | nil => exact nomatch panics_throw.mp h
  | cons a rest ih =>
    obtain ⟨ha, hrest⟩ := List.forall_mem_cons.mp has
    rw [firstArm, panics_bind] at h
    rcases h with h | ⟨o, g', hrun, h⟩
    · exact ⟨a, List.mem_cons_self, h⟩
    · cases o with
      | some r => exact absurd h not_panics_pure
      | none =>
        obtain rfl := ha g g' hrun
        obtain ⟨a', ha', h⟩ := ih hrest h
        exact ⟨a', List.mem_cons_of_mem a ha', h⟩

/-- A step that panics overflows. -/
theorem overflows_of_panics (hend : base.toNat + g.mem.length < 2 ^ 64)
    (hsys : ∀ (g : Guest ω) stop g', syscall g = .ok stop g' → g'.cpu.rip = g.cpu.rip)
    (h : Panics (execOne syscall base) g) : Overflows syscall base g := by
  rw [execOne, panics_bind_getCpu, panics_bind_reading] at h
  rcases h with h | ⟨b, hb, h⟩
  · exact absurd h readBytes_ne_panic
  · obtain ⟨a, ha, h⟩ := panics_firstArm arms_fall_through h
    exact arms_onlyOverflow hsys a ha g hend (fun k hk ↦ (readBytes_eq_ok hb k hk).symm) h

/-- The chain panics where the arm that is reached does. -/
theorem panics_firstArm_of {α : Type} {a : Interp ω (Option α)} (h : Panics a g)
    (rest : List (Interp ω (Option α))) (o : Interp ω α) : Panics (firstArm (a :: rest) o) g := by
  rw [firstArm, panics_bind]
  exact .inl h

theorem firstArm_of_none {α : Type} {a : Interp ω (Option α)} (h : a g = .ok none g)
    (rest : List (Interp ω (Option α))) (o : Interp ω α) :
    firstArm (a :: rest) o g = firstArm rest o g := by
  rw [firstArm, bind_apply, h]

theorem firstArm_aluImm8_of_ne {b : Vector U8 8} (h0 : 0 < 8) (h1 : 1 < 8)
    (h : b[0] ≠ 0x48 ∨ b[1] ≠ 0x83)
    (rest : List (Interp ω (Option Bool))) (o : Interp ω Bool) :
    firstArm (aluImm8Arm b :: rest) o = firstArm rest o := by
  rw [aluImm8Arm, if_neg fun hc ↦ h.elim (· hc.1) (· hc.2.1)]
  rfl

theorem firstArm_movLoad_of_ne {b : Vector U8 8} (h0 : 0 < 8) (h : b[0] ≠ 0x8B)
    (rest : List (Interp ω (Option Bool))) (o : Interp ω Bool) :
    firstArm (movLoadArm base b :: rest) o = firstArm rest o := by
  rw [movLoadArm, if_neg fun hc ↦ h hc.1]
  rfl

section Chain

variable {b : Vector U8 8} {o : Interp ω Bool}

attribute [local simp] arms setArm movArm zeroArm pushArm popArm loadArm movImmArm leaRipArm testArm
  leaArm movHighArm movLowArm storeImmArm storeImmSpArm jmpArm jmpShortArm jeArm
  aluImm32Arm firstArm_none firstArm_arm_of_not firstArm_arm_of firstArm_aluImm8_of_ne
  firstArm_movLoad_of_ne

theorem chain_aluImm8 (h0 : b.get 0 = 0x48) (h1 : b.get 1 = 0x83) (h : Panics (aluImm8Arm b) g) :
    Panics (firstArm (arms syscall base b) o) g := by
  replace h0 : b[0] = 0x48 := h0
  replace h1 : b[1] = 0x83 := h1
  have hpanic := panics_firstArm_of h
  simp only [Panics] at hpanic ⊢
  simp [h0, h1, hpanic]

theorem chain_movLoad (h0 : b.get 0 = 0x8B) (h : Panics (movLoadArm base b) g) :
    Panics (firstArm (arms syscall base b) o) g := by
  replace h0 : b[0] = 0x8B := h0
  have hpanic := panics_firstArm_of h
  simp only [Panics] at hpanic ⊢
  simp [h0, hpanic]

theorem chain_lea48 (h : Panics (leaArm 0x48 leaPut b) g) :
    Panics (firstArm (arms syscall base b) o) g := by
  obtain ⟨⟨h0, h1, hmode, hrm⟩, hbody⟩ := panics_arm.mp h
  replace hrm : rmOf b[2] ≠ 4#8 := hrm
  have h2 : b[2] ≠ 124#8 := fun h2 ↦ by
    rw [h2] at hrm
    exact hrm (by decide)
  simp only [Panics] at hbody ⊢
  simpa [h0, h1, h2, hmode, hrm] using hbody

theorem chain_lea4C (h : Panics (leaArm 0x4C leaHighPut b) g) :
    Panics (firstArm (arms syscall base b) o) g := by
  obtain ⟨⟨h0, h1, hmode, hrm⟩, hbody⟩ := panics_arm.mp h
  replace hrm : rmOf b[2] ≠ 4#8 := hrm
  simp only [Panics] at hbody ⊢
  simpa [h0, h1, hmode, hrm] using hbody

theorem chain_andRsp (h0 : b.get 0 = 0x48) (h1 : b.get 1 = 0x83) (h2 : b.get 2 = 0xE4)
    (htop : 2 ^ 64 ≤ g.cpu.rip.toNat + 4) : Panics (firstArm (arms syscall base b) o) g := by
  replace h0 : b[0] = 0x48 := h0
  replace h1 : b[1] = 0x83 := h1
  replace h2 : b[2] = 0xE4 := h2
  have hnone : aluImm8Arm b g = .ok none g := by
    rw [aluImm8Arm, if_pos ⟨h0, h1, by rw [h2]; decide⟩, h2]
    rfl
  have hskip := firstArm_of_none hnone
  have hbody : Panics (assign .rsp (g.cpu.rsp &&& b[3].signExtend 64) 4) g :=
    panics_assign.mpr htop
  simp only [Panics] at hbody ⊢
  simpa [h0, h1, h2, hskip, bind_getCpu] using hbody

theorem chain_leaSp (h0 : b.get 0 = 0x4C) (h1 : b.get 1 = 0x8D) (h2 : b.get 2 = 0x4C)
    (h3 : b.get 3 = 0x24) (h : Panics (do
      let v ← lift (Rust.addSigned (← getCpu).rsp ((b.get 4).signExtend 64))
      assign .r9 v 5 : Interp ω Bool) g) : Panics (firstArm (arms syscall base b) o) g := by
  replace h0 : b[0] = 0x4C := h0
  replace h1 : b[1] = 0x8D := h1
  replace h2 : b[2] = 0x4C := h2
  replace h3 : b[3] = 0x24 := h3
  have hdisp : b.get 4 = b[4] := rfl
  rw [hdisp] at h
  have hmode : ¬rmOf 76#8 ≠ 4#8 := by decide
  simp only [Panics] at h ⊢
  simpa [h0, h1, h2, h3, hmode] using h

theorem chain_cmp (h0 : b.get 0 = 0x3C) (htop : 2 ^ 64 ≤ g.cpu.rip.toNat + 2) :
    Panics (firstArm (arms syscall base b) o) g := by
  replace h0 : b[0] = 0x3C := h0
  have hbody : Panics (next 2) { g with cpu := { g.cpu with
      zf := getAl g.cpu = b[1], sf := (getAl g.cpu - b[1]).msb } } := panics_next.mpr htop
  simp only [Panics] at hbody ⊢
  simpa [h0, bind_modifyCpu] using hbody

theorem chain_leaRip {dst : Reg} {modrm rex : U8}
    (hmodrm : (rex = 0x48 ∧ modrm = 0x3D ∧ dst = .rdi) ∨
      (rex = 0x4C ∧ modrm = 0x05 ∧ dst = .r8) ∨ (rex = 0x4C ∧ modrm = 0x0D ∧ dst = .r9) ∨
      (rex = 0x48 ∧ modrm = 0x35 ∧ dst = .rsi))
    (h : Panics (leaRipArm base (b.get 0 = rex ∧ b.get 1 = 0x8D ∧ b.get 2 = modrm) dst) g) :
    Panics (firstArm (arms syscall base b) o) g := by
  obtain ⟨⟨h0, h1, h2⟩, hbody⟩ := panics_arm.mp h
  replace h0 : b[0] = rex := h0
  replace h1 : b[1] = 0x8D := h1
  replace h2 : b[2] = modrm := h2
  have hmode : ∀ m ∈ [61#8, 5#8, 13#8, 53#8], modeOf m ≠ 1#8 := by decide
  simp only [Panics] at hbody ⊢
  rcases hmodrm with ⟨rfl, rfl, rfl⟩ | ⟨rfl, rfl, rfl⟩ | ⟨rfl, rfl, rfl⟩ | ⟨rfl, rfl, rfl⟩
  · simpa [h0, h1, h2, hmode _] using hbody
  · simpa [h0, h1, h2, hmode _] using hbody
  · simpa [h0, h1, h2, hmode _] using hbody
  · simpa [h0, h1, h2, hmode _] using hbody

theorem chain_storeImm (h : Panics (storeImmArm base b) g) :
    Panics (firstArm (arms syscall base b) o) g := by
  obtain ⟨⟨h0, hreg, hmode, hrm⟩, hbody⟩ := panics_arm.mp h
  replace hrm : rmOf b[1] ≠ 4#8 := hrm
  simp only [Panics] at hbody ⊢
  simpa [h0, hreg, hmode, hrm] using hbody

theorem chain_storeImmSp (h : Panics (storeImmSpArm base b) g) :
    Panics (firstArm (arms syscall base b) o) g := by
  obtain ⟨⟨h0, hreg, hmode, hrm, h2⟩, hbody⟩ := panics_arm.mp h
  simp only [Panics] at hbody ⊢
  simpa [h0, hreg, hmode, hrm, h2] using hbody

theorem chain_syscall (h0 : b.get 0 = 0x0F) (h1 : b.get 1 = 0x05) (h : Panics syscall g) :
    Panics (firstArm (arms syscall base b) o) g := by
  replace h0 : b[0] = 0x0F := h0
  replace h1 : b[1] = 0x05 := h1
  have hbody : Panics (do
      let exit ← syscall
      ripAdd 2
      return exit) g := panics_bind.mpr (.inl h)
  simp only [Panics] at hbody ⊢
  simpa [h0, h1] using hbody

theorem chain_jmp (h : Panics (jmpArm base b) g) : Panics (firstArm (arms syscall base b) o) g := by
  obtain ⟨h0, hbody⟩ := panics_arm.mp h
  simp only [Panics] at hbody ⊢
  simpa [h0] using hbody

theorem chain_jmpShort (h : Panics (jmpShortArm b) g) :
    Panics (firstArm (arms syscall base b) o) g := by
  obtain ⟨h0, hbody⟩ := panics_arm.mp h
  simp only [Panics] at hbody ⊢
  simpa [h0] using hbody

theorem chain_je (h : Panics (jeArm b) g) : Panics (firstArm (arms syscall base b) o) g := by
  obtain ⟨h0, hbody⟩ := panics_arm.mp h
  simp only [Panics] at hbody ⊢
  simpa [h0] using hbody

end Chain

theorem panics_of_chain (h0 : g.code base 0 ≠ 0) (h : ∀ b : Vector U8 8,
    (∀ k (hk : k < 8), b[k] = g.code base k) → ∀ o : Interp ω Bool,
      Panics (firstArm (arms syscall base b) o) g) : Panics (execOne syscall base) g := by
  obtain ⟨b, hb, hx⟩ := execOne_of_code syscall h0
  rw [Panics, hx]
  exact h b hb _

/-- Both `leaArm`s have one body. -/
theorem panics_of_lea (h0 : g.code base 0 = 0x48 ∨ g.code base 0 = 0x4C)
    (h1 : g.code base 1 = 0x8D) (hmode : modeOf (g.code base 2) = 0x01)
    (hrm : rmOf (g.code base 2) ≠ 0x04)
    (hbody : ∀ put : Cpu → U8 → U64 → Cpu, (∀ cpu r v, (put cpu r v).rip = cpu.rip) → Panics (do
      let addr ← lift
        (Rust.addSigned (getReg64 g.cpu (rmOf (g.code base 2))) (imm8 (g.code base) 3))
      modifyCpu (put · (regOf (g.code base 2)) addr)
      next 4 : Interp ω Bool) g) : Panics (execOne syscall base) g := by
  refine panics_of_chain (by rcases h0 with h0 | h0 <;> rw [h0] <;> decide) fun b hb o ↦ ?_
  have harm {rex : U8} {put : Cpu → U8 → U64 → Cpu} (hput : ∀ cpu r v, (put cpu r v).rip = cpu.rip)
      (h0 : g.code base 0 = rex) : Panics (leaArm rex put b) g := by
    rw [leaArm, panics_arm, hb 0, hb 1, hb 2, hb 3]
    exact ⟨⟨h0, h1, hmode, hrm⟩, panics_bind_getCpu.mpr (hbody put hput)⟩
  rcases h0 with h0 | h0
  · exact chain_lea48 (harm leaPut_rip h0)
  · exact chain_lea4C (harm leaHighPut_rip h0)

/-- So have the `leaRipArm`s, in which only the signed sum may overflow. -/
theorem panics_of_leaRip (hend : base.toNat + g.mem.length < 2 ^ 64) {disp : U64}
    (hcode : LeaRip (g.code base)) (hdisp : readI32 base g.mem (g.nextRip 3) = .ok disp)
    (hover : (g.nextRip 7).saddOverflow disp = true) : Panics (execOne syscall base) g := by
  obtain ⟨h1, hcode⟩ := hcode
  have h2 : g.code base 2 ≠ 0 := by
    rcases hcode with ⟨-, h2 | h2⟩ | ⟨-, h2 | h2⟩ <;> rw [h2] <;> decide
  have hroom := rip_lt_of_code hend h2
  have hnext := rip_lt_of_readI32 hend (by omega) hdisp
  refine panics_of_chain ?_ fun b hb o ↦ ?_
  · rcases hcode with ⟨h0, -⟩ | ⟨h0, -⟩ <;> rw [h0] <;> decide
  have harm {rex modrm : U8} {dst : Reg} (h0 : g.code base 0 = rex) (h2 : g.code base 2 = modrm) :
      Panics (leaRipArm base (b[0] = rex ∧ b[1] = 0x8D ∧ b[2] = modrm) dst) g := by
    refine panics_arm.mpr ⟨⟨(hb 0 _).trans h0, (hb 1 _).trans h1, (hb 2 _).trans h2⟩, ?_⟩
    refine panics_bind_ripPlus.mpr (.inr ⟨by omega, panics_bind_reading.mpr (.inr ⟨_, hdisp, ?_⟩)⟩)
    refine panics_bind_ripPlus.mpr (.inr ⟨by omega, panics_bind_lift.mpr (.inl ?_)⟩)
    exact Rust.addSigned_eq_panic.mpr hover
  rcases hcode with ⟨h0, h2 | h2⟩ | ⟨h0, h2 | h2⟩
  · exact chain_leaRip (.inl ⟨rfl, rfl, rfl⟩) (harm h0 h2)
  · exact chain_leaRip (.inr (.inr (.inr ⟨rfl, rfl, rfl⟩))) (harm h0 h2)
  · exact chain_leaRip (.inr (.inl ⟨rfl, rfl, rfl⟩)) (harm h0 h2)
  · exact chain_leaRip (.inr (.inr (.inl ⟨rfl, rfl, rfl⟩))) (harm h0 h2)

/-- A signed sum that overflows makes the step panic. -/
theorem panics_of_sum (hend : base.toNat + g.mem.length < 2 ^ 64) {a d : U64}
    (h : SignedSum base g a d) (hover : a.saddOverflow d = true) :
    Panics (execOne syscall base) g := by
  have hsum {α : Type} {k : U64 → Interp ω α} : Panics (lift (Rust.addSigned a d) >>= k) g :=
    panics_bind_lift.mpr (.inl (Rust.addSigned_eq_panic.mpr hover))
  cases h with
  | movLoad h0 hmode hrm =>
    refine panics_of_chain (by rw [h0]; decide) fun b hb o ↦ ?_
    refine chain_movLoad ((hb 0 _).trans h0) ?_
    rw [movLoadArm, hb 0, hb 1, hb 2, if_pos ⟨h0, hrm⟩, panics_bind_getCpu, movLoadAddr,
      if_neg (by rw [hmode]; decide), if_pos hmode]
    exact hsum
  | lea h0 h1 hmode hrm => exact panics_of_lea h0 h1 hmode hrm fun _ _ ↦ hsum
  | leaSp h0 h1 h2 h3 =>
    refine panics_of_chain (by rw [h0]; decide) fun b hb o ↦ ?_
    refine chain_leaSp ((hb 0 _).trans h0) ((hb 1 _).trans h1) ((hb 2 _).trans h2)
      ((hb 3 _).trans h3) ?_
    have hdisp : b.get 4 = g.code base 4 := hb 4 (by decide)
    rw [hdisp]
    exact panics_bind_getCpu.mpr hsum
  | leaRip hcode hdisp => exact panics_of_leaRip hend hcode hdisp hover
  | store h0 hreg hmode hrm =>
    refine panics_of_chain (by rw [h0]; decide) fun b hb o ↦ chain_storeImm ?_
    rw [storeImmArm, panics_arm, hb 0, hb 1, hb 2]
    exact ⟨⟨h0, hreg, hmode, hrm⟩, panics_bind_getCpu.mpr hsum⟩
  | storeSp h0 hreg hmode hrm h2 =>
    refine panics_of_chain (by rw [h0]; decide) fun b hb o ↦ chain_storeImmSp ?_
    rw [storeImmSpArm, panics_arm, hb 0, hb 1, hb 2, hb 3]
    exact ⟨⟨h0, hreg, hmode, hrm, h2⟩, panics_bind_getCpu.mpr hsum⟩
  | call h0 hrel hsp hpush =>
    rw [Panics, execOne_callRel32 h0]
    exact (panics_callRel32 hend h0).mpr ⟨_, _, hrel, hsp, hpush, hover⟩
  | jmp h0 hrel =>
    have hroom := rip_lt_of_code (g := g) hend (k := 0) (by rw [h0]; decide)
    have hnext := rip_lt_of_readI32 hend hroom hrel
    refine panics_of_chain (by rw [h0]; decide) fun b hb o ↦ chain_jmp ?_
    rw [jmpArm, panics_arm, hb 0]
    refine ⟨h0, panics_bind_ripPlus.mpr (.inr ⟨by omega, ?_⟩)⟩
    refine panics_bind_reading.mpr (.inr ⟨_, hrel, panics_bind_ripPlus.mpr (.inr ⟨by omega, ?_⟩)⟩)
    exact panics_jump.mpr hover
  | jmpShort h0 =>
    refine panics_of_chain (by rw [h0]; decide) fun b hb o ↦ chain_jmpShort ?_
    rw [jmpShortArm, panics_arm, hb 0, hb 1, panics_bind_ripPlus, panics_jump]
    exact ⟨h0, (le_or_gt _ _).imp_right fun h ↦ ⟨h, hover⟩⟩
  | je h0 hzf =>
    refine panics_of_chain (by rw [h0]; decide) fun b hb o ↦ chain_je ?_
    rw [jeArm, panics_arm, hb 0, hb 1, panics_bind_ripPlus, panics_bind_getCpu, if_pos hzf,
      panics_jump]
    exact ⟨h0, (le_or_gt _ _).imp_right fun h ↦ ⟨h, hover⟩⟩
  | callPtr h0 h1 hdisp =>
    rw [Panics, execOne_callPtr h0 h1]
    exact (panics_callPtr hend h1).mpr ⟨_, hdisp, hover⟩

/-- So does an instruction that is cut off by the end of the address space. -/
theorem panics_of_cut {n : ℕ} (h : CutAt base g n) (htop : 2 ^ 64 ≤ g.cpu.rip.toNat + n) :
    Panics (execOne syscall base) g := by
  -- the sum before it may overflow as well
  have hsum {a d : U64} {k : U64 → Interp ω Bool} (hk : ∀ v, Panics (k v) g) :
      Panics (lift (Rust.addSigned a d) >>= k) g := by
    rw [panics_bind_lift, Rust.addSigned]
    split
    · exact .inl rfl
    · exact .inr ⟨_, rfl, hk _⟩
  cases h with
  | alu h0 h1 hmod hop =>
    refine panics_of_chain (by rw [h0]; decide) fun b hb o ↦ ?_
    refine chain_aluImm8 ((hb 0 _).trans h0) ((hb 1 _).trans h1) ?_
    rw [aluImm8Arm, hb 0, hb 1, hb 2, if_pos ⟨h0, h1, hmod⟩]
    exact panics_group1Arm.mpr ⟨hop, htop⟩
  | and h0 h1 h2 =>
    refine panics_of_chain (by rw [h0]; decide) fun b hb o ↦ ?_
    exact chain_andRsp ((hb 0 _).trans h0) ((hb 1 _).trans h1) ((hb 2 _).trans h2) htop
  | movLoad h0 hrm haddr hv =>
    refine panics_of_chain (by rw [h0]; decide) fun b hb o ↦ ?_
    refine chain_movLoad ((hb 0 _).trans h0) ?_
    rw [movLoadArm, hb 0, hb 1, hb 2, if_pos ⟨h0, hrm⟩, panics_bind_getCpu, haddr]
    refine panics_bind_lift.mpr (.inr ⟨_, rfl, panics_bind_reading.mpr (.inr ⟨_, hv, ?_⟩)⟩)
    rw [panics_bind_modifyCpu, panics_map, panics_next, movLoadPut_rip]
    exact htop
  | lea h0 h1 hmode hrm =>
    refine panics_of_lea h0 h1 hmode hrm fun put hput ↦ hsum fun v ↦ ?_
    exact (panics_modify_next (f := (put · (regOf (g.code base 2)) v)) (hput _ _ _)).mpr htop
  | leaSp h0 h1 h2 h3 =>
    refine panics_of_chain (by rw [h0]; decide) fun b hb o ↦ ?_
    exact chain_leaSp ((hb 0 _).trans h0) ((hb 1 _).trans h1) ((hb 2 _).trans h2)
      ((hb 3 _).trans h3) (panics_bind_getCpu.mpr (hsum fun v ↦ panics_assign.mpr htop))
  | cmp h0 =>
    refine panics_of_chain (by rw [h0]; decide) fun b hb o ↦ ?_
    exact chain_cmp ((hb 0 _).trans h0) htop
  | store h0 hreg hmode hrm =>
    refine panics_of_chain (by rw [h0]; decide) fun b hb o ↦ chain_storeImm ?_
    rw [storeImmArm, panics_arm, hb 0, hb 1, hb 2]
    refine ⟨⟨h0, hreg, hmode, hrm⟩, panics_bind_getCpu.mpr (hsum fun v ↦ ?_)⟩
    exact panics_bind_ripPlus.mpr (.inl htop)
  | storeSp h0 hreg hmode hrm h2 =>
    refine panics_of_chain (by rw [h0]; decide) fun b hb o ↦ chain_storeImmSp ?_
    rw [storeImmSpArm, panics_arm, hb 0, hb 1, hb 2, hb 3]
    refine ⟨⟨h0, hreg, hmode, hrm, h2⟩, panics_bind_getCpu.mpr (hsum fun v ↦ ?_)⟩
    exact panics_bind_ripPlus.mpr (.inl htop)
  | jmpShort h0 =>
    refine panics_of_chain (by rw [h0]; decide) fun b hb o ↦ chain_jmpShort ?_
    rw [jmpShortArm, panics_arm, hb 0, panics_bind_ripPlus]
    exact ⟨h0, .inl htop⟩
  | je h0 =>
    refine panics_of_chain (by rw [h0]; decide) fun b hb o ↦ chain_je ?_
    rw [jeArm, panics_arm, hb 0, panics_bind_ripPlus]
    exact ⟨h0, .inl htop⟩

/-- **When a step panics**, for any system call that leaves `rip` alone. -/
theorem panics_execOne_iff (hend : base.toNat + g.mem.length < 2 ^ 64)
    (hsys : ∀ (g : Guest ω) stop g', syscall g = .ok stop g' → g'.cpu.rip = g.cpu.rip) :
    Panics (execOne syscall base) g ↔ Overflows syscall base g := by
  refine ⟨overflows_of_panics hend hsys, ?_⟩
  rintro (⟨h, hover⟩ | ⟨h, htop⟩ | ⟨h0, h1, h⟩)
  · exact panics_of_sum hend h hover
  · exact panics_of_cut h htop
  · refine panics_of_chain (by rw [h0]; decide) fun b hb o ↦ ?_
    exact chain_syscall ((hb 0 _).trans h0) ((hb 1 _).trans h1) h

/-! ## Steps of a program -/

/-- **No sum of the step overflows.** -/
structure StepFits (run : Run) (base : U64) (g : Guest Os) : Prop where
  /-- The signed sums do not. -/
  sums : ∀ a d, SignedSum base g a d → a.saddOverflow d = false
  /-- The instruction does not reach the end of the address space. -/
  whole : ∀ n, CutAt base g n → g.cpu.rip.toNat + n < 2 ^ 64
  /-- The system call does not. -/
  call : g.code base 0 = 0x0F → g.code base 1 = 0x05 → ¬CallOverflows run base g

/-- It panics otherwise. -/
theorem not_panics_step_iff {run : Run} {tmp : StackSlot} {base : U64} {g : Guest Os}
    (hk : g.os.world.kernel.FilesOk) (hend : base.toNat + g.mem.length < 2 ^ 64) :
    ¬Panics (execOne (handleSyscall run tmp base) base) g ↔ StepFits run base g := by
  have hcall : Panics (handleSyscall run tmp base) g ↔ CallOverflows run base g :=
    panics_handleSyscall hk hend
  have hrip : ∀ (g : Guest Os) stop g', handleSyscall run tmp base g = .ok stop g' →
      g'.cpu.rip = g.cpu.rip := fun g stop g' h ↦ by
    obtain ⟨v, hcpu⟩ := handleSyscall_onlyRax h
    rw [hcpu]
  rw [panics_execOne_iff hend hrip]
  constructor
  · intro h
    refine ⟨fun a d hsum ↦ ?_, fun n hcut ↦ ?_, fun h0 h1 hover ↦ ?_⟩
    · exact eq_false_of_ne_true fun hover ↦ h (.sum hsum hover)
    · exact not_le.mp fun htop ↦ h (.cut hcut htop)
    · exact h (.syscall h0 h1 (hcall.mpr hover))
  · rintro h (⟨hsum, hover⟩ | ⟨hcut, htop⟩ | ⟨h0, h1, hover⟩)
    · exact absurd (h.sums _ _ hsum) (ne_false_of_eq_true hover)
    · exact absurd htop (not_le.mpr (h.whole _ hcut))
    · exact h.call h0 h1 (hcall.mp hover)

/-- **Panics of a step**: exactly when one of its sums overflows. -/
theorem step_panics_iff (run : Run) (tmp : StackSlot) (base : U64) (g : Guest Os)
    (hk : g.os.world.kernel.Reachable) (hend : base.toNat + g.mem.length < 2 ^ 64) :
    (¬Panics (execOne (handleSyscall run tmp base) base) g ↔ StepFits run base g) ∧
      (¬Panics (handleSyscall run tmp base) g ↔ ¬CallOverflows run base g) :=
  ⟨not_panics_step_iff hk.filesOk hend, not_congr (panics_handleSyscall hk.filesOk hend)⟩

/-- `mov eax, [rax + 1]` with the largest signed number in `rax`. -/
def loadPastMax : Guest Os where
  cpu := { Cpu.start 0x400010 0x400000 with rax := 0x7FFFFFFFFFFFFFFF }
  mem := [0x8B, 0x40, 0x01, 0xC3]
  os := ⟨⟨.boot, fun _ ↦ 0, []⟩, []⟩

theorem step_panics_iff_loadPastMax :
    (¬Panics (execOne (handleSyscall (fun _ _ _ ↦ pure ()) ⟨1, by decide⟩ 0x400000) 0x400000)
        loadPastMax ↔ StepFits (fun _ _ _ ↦ pure ()) 0x400000 loadPastMax) ∧
      (¬Panics (handleSyscall (fun _ _ _ ↦ pure ()) ⟨1, by decide⟩ 0x400000) loadPastMax ↔
        ¬CallOverflows (fun _ _ _ ↦ pure ()) 0x400000 loadPastMax) :=
  step_panics_iff _ _ 0x400000 loadPastMax Kernel.reachable_boot (by decide)

/-- The address does not wrap around: the interpreter panics. -/
theorem loadPastMax_panics : ¬∀ (run : Run) (tmp : StackSlot) (base : U64) (g : Guest Os),
    g.os.world.kernel.Reachable → base.toNat + g.mem.length < 2 ^ 64 →
      ¬Panics (execOne (handleSyscall run tmp base) base) g ∧
        ¬Panics (handleSyscall run tmp base) g := by
  intro h
  refine (h (fun _ _ _ ↦ pure ()) ⟨1, by decide⟩ 0x400000 loadPastMax Kernel.reachable_boot
    (by decide)).1 ?_
  exact panics_of_sum (by decide) (.movLoad rfl rfl (by decide)) (by decide)

end LeonOS
