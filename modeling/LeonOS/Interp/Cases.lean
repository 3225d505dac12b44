import LeonOS.Interp.Conform
import LeonOS.Interp.Overflow
import LeonOS.Lib.Flags

/-!
# What a step can do

Every completed step of the interpreter is one of five kinds (`StepCase`): it goes on behind an
instruction that works on registers, or on flags only, or that writes to memory once; it transfers
control; or it is a system call.  Each kind says where `rip` is, what has become of memory and of
the flags, and that the bytes at `rip` are those of such an instruction: its length and the
comparison it makes are read off them.

What the registers hold is not said here; that is the subject of `Interp.Conform`.  The lemmas are
one a family of arms, and then the list of arms (`execOne_cases`).
-/

set_option autoImplicit false

namespace LeonOS

open Bytes X86 RustM

variable {ω : Type} {g g' : Guest ω} {base : U64} {n : ℕ} {b : Vector U8 8}

/-! ## The kinds of steps -/

/-- A stop, a call or a jump. -/
def Transfers (code : ℕ → U8) : Prop :=
  code 0 ∈ [0xC3, 0xF4, 0xE8, 0xE9, 0xEB, 0x74] ∨ (code 0 = 0xFF ∧ code 1 = 0x15)

/-- The count that a system call has returned. -/
def countOf (r : U64) : ℕ := if isErrno r then 0 else r.toNat

/-- The step at `rip` may write to the `n` bytes at `a`, when it leaves `r` in `rax`. -/
inductive Stores (base : U64) (g : Guest ω) (r : U64) : U64 → ℕ → Prop
  /-- A push. -/
  | push (src : Reg) (len : ℕ) (h : decode (g.code base) = some (.push src, len)) :
    Stores base g r (g.cpu.rsp - 8) 8
  /-- A call pushes the address behind it. -/
  | call (h : g.code base 0 = 0xE8 ∨ (g.code base 0 = 0xFF ∧ g.code base 1 = 0x15)) :
    Stores base g r (g.cpu.rsp - 8) 8
  /-- `mov [rdx + rax*8 + 8], rdi`. -/
  | mov (h : peek (g.code base) 0 5 = [0x48, 0x89, 0x7C, 0xC2, 0x08]) :
    Stores base g r (g.cpu.rdx + g.cpu.rax * 8 + 8) 8
  /-- `C7 /0` with an operand in memory. -/
  | movImm (a : Addr) (imm : U64) (len : ℕ)
    (h : decode (g.code base) = some (.movImm .dword (.mem a) imm, len)) :
    Stores base g r ((g.arch base 0).ea (g.nextRip len) a) 4
  /-- A `read` system call: no more than it was asked for, and no more than it returns. -/
  | read (got : ℕ) (h0 : g.code base 0 = 0x0F) (h1 : g.code base 1 = 0x05)
    (hnr : Nr.decode g.cpu.rax.toNat = .read) (hcount : got ≤ g.cpu.rdx.toNat)
    (hr : got ≤ countOf r) : Stores base g r g.cpu.rsi got

/-- The flags of the `Cpu`. -/
def Cpu.flags (cpu : Cpu) : Flags := ⟨cpu.zf, cpu.sf⟩

/-- An instruction of `n` bytes that is no comparison. -/
structure Plain (code : ℕ → U8) (n : ℕ) : Prop where
  /-- Its length. -/
  length : X86.length code = some n
  /-- It sets more than flags. -/
  compare : decodeCompare code = none

/-- `rip` has gone on by `n`, and memory is as it was. -/
structure Advanced (n : ℕ) (g g' : Guest ω) : Prop where
  /-- Memory is as it was. -/
  mem : g'.mem = g.mem
  /-- `rip` has gone on. -/
  rip : g'.cpu.rip = g.nextRip n
  /-- There is a next address. -/
  bound : g.cpu.rip.toNat + n < 2 ^ 64

/-- **The kinds of steps.** -/
inductive StepCase (syscall : Interp ω Bool) (base : U64) (g : Guest ω) (stop : Bool)
    (g' : Guest ω) : Prop
  /-- Registers have changed. -/
  | registers (n : ℕ) (hplain : Plain (g.code base) n) (h : Advanced n g g')
    (hflags : g'.cpu.flags = g.cpu.flags)
  /-- Flags have changed. -/
  | compare (n : ℕ) (c : Compare) (hdec : decodeCompare (g.code base) = some (c, n))
    (h : Advanced n g g') (hflags : g'.cpu.flags = c.flags (g.nextRip n) (g.arch base 0))
  /-- Some bytes of memory have been written. -/
  | store (n : ℕ) (va : U64) (bs : List U8) (hplain : Plain (g.code base) n)
    (hs : ∀ r, Stores base g r va bs.length)
    (hw : Window.write (.addressOutOfRange : RunError) base g.mem va bs = .ok g'.mem)
    (hrip : g'.cpu.rip = g.nextRip n) (hbound : g.cpu.rip.toNat + n < 2 ^ 64)
    (hflags : g'.cpu.flags = g.cpu.flags)
  /-- `rip` is elsewhere; a call has pushed an address. -/
  | transfer (htransfers : Transfers (g.code base)) (hcompare : decodeCompare (g.code base) = none)
    (hmem : g'.mem = g.mem ∨ ∃ v, (∀ r, Stores base g r (g.cpu.rsp - 8) 8) ∧
      writeU64 base g.mem (g.cpu.rsp - 8) v = .ok g'.mem)
    (hflags : g'.cpu.flags = g.cpu.flags)
  /-- A system call, and then `rip` goes on. -/
  | syscall (h0 : g.code base 0 = 0x0F) (h1 : g.code base 1 = 0x05) (g₁ : Guest ω)
    (hrun : syscall g = .ok stop g₁) (hbound : g₁.cpu.rip.toNat + 2 < 2 ^ 64)
    (h : g' = { g₁ with cpu := { g₁.cpu with rip := g₁.nextRip 2 } })

theorem toNat_nextRip (h : g.cpu.rip.toNat + n < 2 ^ 64) :
    (g.nextRip n).toNat = g.cpu.rip.toNat + n := by
  rw [Guest.nextRip, BitVec.toNat_add, BitVec.toNat_ofNat, Nat.add_mod_mod, Nat.mod_eq_of_lt h]

/-! ## Steps as postconditions -/

section Ensures

variable {α : Type}

@[simp] theorem ensures_getCpu {P : Cpu → Guest ω → Prop} :
    Ensures (getCpu : Interp ω Cpu) g P ↔ P g.cpu g :=
  ensures_of_eq rfl

@[simp] theorem ensures_modifyCpu {f : Cpu → Cpu} {P : Unit → Guest ω → Prop} :
    Ensures (modifyCpu f) g P ↔ P () { g with cpu := f g.cpu } :=
  ensures_of_eq rfl

@[simp] theorem ensures_ripPlus {P : U64 → Guest ω → Prop} :
    Ensures (ripPlus n) g P ↔ (g.cpu.rip.toNat + n < 2 ^ 64 → P (g.nextRip n) g) := by
  simp [Ensures, Guest.nextRip]

@[simp] theorem ensures_reading {f : List U8 → Rust RunError α} {P : α → Guest ω → Prop} :
    Ensures (reading f) g P ↔ ∀ a, f g.mem = .ok a → P a g := by
  simp [Ensures]

@[simp] theorem ensures_writing {f : List U8 → Rust RunError (List U8)}
    {P : Unit → Guest ω → Prop} : Ensures (writing f) g P ↔
      ∀ mem, f g.mem = .ok mem → P () { g with mem := mem } := by
  simp [writing, ensures_bind]

@[simp] theorem ensures_ripAdd {P : Unit → Guest ω → Prop} : Ensures (ripAdd n) g P ↔
    (g.cpu.rip.toNat + n < 2 ^ 64 →
      P () { g with cpu := { g.cpu with rip := g.nextRip n } }) := by
  simp [ripAdd, ensures_bind, Guest.nextRip]

@[simp] theorem ensures_next {P : Bool → Guest ω → Prop} : Ensures (next n) g P ↔
    (g.cpu.rip.toNat + n < 2 ^ 64 →
      P false { g with cpu := { g.cpu with rip := g.nextRip n } }) := by
  simp [next]

@[simp] theorem ensures_assign {dst : Reg} {v : U64} {P : Bool → Guest ω → Prop} :
    Ensures (assign dst v n) g P ↔
      (g.cpu.rip.toNat + n < 2 ^ 64 → P false (g.assigned dst v n)) := by
  simp [assign, ensures_bind, Guest.nextRip, Guest.assigned]

@[simp] theorem ensures_jump {nextRip rel : U64} {P : Bool → Guest ω → Prop}
    (h : ∀ v, P false { g with cpu := { g.cpu with rip := v } }) :
    Ensures (jump nextRip rel) g P := by
  simp [jump, ensures_bind, h]

theorem ensures_pushU64 {v : U64} {P : Unit → Guest ω → Prop} :
    Ensures (pushU64 base v) g P ↔ (8 ≤ g.cpu.rsp.toNat →
      ∀ mem, writeU64 base g.mem (g.cpu.rsp - 8) v = .ok mem →
        P () { g with cpu := { g.cpu with rsp := g.cpu.rsp - 8 }, mem := mem }) := by
  simp only [Ensures, pushU64_eq_ok]
  grind

theorem ensures_popU64 {P : U64 → Guest ω → Prop} :
    Ensures (popU64 base) g P ↔ ∀ v, readU64 base g.mem g.cpu.rsp = .ok v →
      g.cpu.rsp.toNat + 8 < 2 ^ 64 →
        P v { g with cpu := { g.cpu with rsp := g.cpu.rsp + 8 } } := by
  simp only [Ensures, popU64_eq_ok]
  grind

end Ensures

/-! ## Arms that work on registers -/

/-- A return of an arm, at the bytes `b`, is one of the kinds. -/
def Covered (syscall : Interp ω Bool) (base : U64) (g : Guest ω) (b : Vector U8 8)
    (a : Interp ω (Option Bool)) : Prop :=
  Begins b (g.code base) → ∀ stop g', a g = .ok (some stop) g' → StepCase syscall base g stop g'

section Arms

variable {syscall : Interp ω Bool} {c : Prop} [Decidable c] {body : Interp ω Bool}

theorem covered_arm (h : c → Begins b (g.code base) →
    Ensures body g fun stop g' ↦ StepCase syscall base g stop g') :
    Covered syscall base g b (arm c body) := by
  intro hb stop g' hrun
  obtain ⟨hc, hrun⟩ := arm_eq_some.mp hrun
  exact h hc hb stop g' hrun

/-- The bytes `b` are those of a plain instruction of length `n`, if `c` holds. -/
def IsPlain (b : Vector U8 8) (c : Prop) (n : ℕ) : Prop := c → ∀ code, Begins b code → Plain code n

/-- `rip` has gone on, with memory and the flags as they were. -/
def Quiet (n : ℕ) (g g' : Guest ω) : Prop := Advanced n g g' ∧ g'.cpu.flags = g.cpu.flags

theorem covered_next (hplain : IsPlain b c n)
    (hbody : Ensures body g fun _ g' ↦ Quiet n g g') :
    Covered syscall base g b (arm c body) :=
  covered_arm fun hc hb ↦ hbody.mono fun _ _ ⟨h, hflags⟩ ↦
    .registers n (hplain hc _ hb) h hflags

theorem quiet_assigned {dst : Reg} {v : U64} (h : g.cpu.rip.toNat + n < 2 ^ 64) :
    Quiet n g (g.assigned dst v n) := by
  refine ⟨⟨rfl, rfl, h⟩, ?_⟩
  simp [Guest.assigned, Cpu.flags]

theorem covered_setArm {dst : Reg} {value : Cpu → U64} (hplain : IsPlain b c n) :
    Covered syscall base g b (setArm c dst value n) :=
  covered_next hplain <| by simpa [ensures_bind] using quiet_assigned

theorem covered_popArm {dst : Reg} (hplain : IsPlain b c n) :
    Covered syscall base g b (popArm base c dst n) :=
  covered_next hplain <| by
    simp only [ensures_bind, ensures_popU64, ensures_assign]
    intro v _ _ h
    refine ⟨⟨rfl, rfl, h⟩, ?_⟩
    simp [Guest.assigned, Cpu.flags]

theorem covered_loadArm {dst : Reg} {addr : Cpu → U64} (hplain : IsPlain b c n) :
    Covered syscall base g b (loadArm base c dst addr n) :=
  covered_next hplain <| by
    simp only [ensures_bind, ensures_getCpu, ensures_reading, ensures_assign]
    exact fun _ _ ↦ quiet_assigned

theorem covered_movImmArm {dst : Reg} (hplain : IsPlain b c 7) :
    Covered syscall base g b (movImmArm base c dst) :=
  covered_next hplain <| by
    simp only [ensures_bind, ensures_ripPlus, ensures_reading, ensures_assign]
    exact fun _ _ _ ↦ quiet_assigned

theorem covered_leaRipArm {dst : Reg} (hplain : IsPlain b c 7) :
    Covered syscall base g b (leaRipArm base c dst) :=
  covered_next hplain <| by
    simp only [ensures_bind, ensures_ripPlus, ensures_reading, ensures_lift, ensures_modifyCpu,
      ensures_pure]
    intro _ _ _ h v _
    refine ⟨⟨rfl, rfl, h⟩, ?_⟩
    simp [Cpu.flags]

/-! ### Arms that decode a `ModRM` byte -/

theorem begins_mode {code : ℕ → U8} {k : ℕ} (hk : k < 8) (hb : Begins b code) {m : U8}
    (h : modeOf b[k] = m) : (code k).toNat / 64 = m.toNat := by
  rw [hb k hk, ← toNat_modeOf, h]

theorem begins_rm {code : ℕ → U8} {k : ℕ} (hk : k < 8) (hb : Begins b code) {r : U8}
    (h : rmOf b[k] ≠ r) : (code k).toNat % 8 ≠ r.toNat := by
  rw [hb k hk, ← toNat_rmOf]
  exact fun heq ↦ h (BitVec.eq_of_toNat_eq heq)

section Bytes

attribute [local simp] X86.length rexLength opLength oneByte twoByte Format.lengthFrom decodeCompare
  decodeCompareOp

theorem plain_aluImm8 :
    IsPlain b (b.get 0 = 0x48 ∧ b.get 1 = 0x83 ∧ b.get 2 &&& 0xC0 = 0xC0) 4 := by
  rintro ⟨h0, h1, h2⟩ code hb
  replace h0 := (hb 0 (by decide)).trans h0
  replace h1 := (hb 1 (by decide)).trans h1
  have hm : (code 2).toNat / 64 = 3 := by
    rw [hb 2 (by decide)]
    exact mod_three _ h2
  constructor <;> simp [h0, h1, decodeRM_reg hm]

theorem plain_aluImm32 :
    IsPlain b (b.get 0 = 0x48 ∧ b.get 1 = 0x81 ∧ b.get 2 &&& 0xC0 = 0xC0) 7 := by
  rintro ⟨h0, h1, h2⟩ code hb
  replace h0 := (hb 0 (by decide)).trans h0
  replace h1 := (hb 1 (by decide)).trans h1
  have hm : (code 2).toNat / 64 = 3 := by
    rw [hb 2 (by decide)]
    exact mod_three _ h2
  constructor <;> simp [h0, h1, decodeRM_reg hm]

theorem plain_lea {rex : U8} (hrex : rex = 0x48 ∨ rex = 0x4C) :
    IsPlain b (b.get 0 = rex ∧ b.get 1 = 0x8D ∧ modeOf (b.get 2) = 0x01 ∧
      rmOf (b.get 2) ≠ 0x04) 4 := by
  rintro ⟨h0, h1, hm, h4⟩ code hb
  replace h0 := (hb 0 (by decide)).trans h0
  replace h1 := (hb 1 (by decide)).trans h1
  have hm := begins_mode (k := 2) (by decide) hb hm
  have h4 := begins_rm (k := 2) (by decide) hb h4
  rcases hrex with rfl | rfl <;> constructor <;> simp [h0, h1, decodeRM_disp8 hm h4]

theorem plain_movLow : IsPlain b (0xB8 ≤ b.get 0 ∧ b.get 0 ≤ 0xBF) 5 := by
  intro hc code hb
  obtain ⟨-, hlo, hhi⟩ := toNat_sub_B8 (m := b[0]) hc
  rw [← hb 0 (by decide)] at hlo hhi
  constructor
  · rw [X86.length, if_neg (by omega), rexLength, if_neg (by omega),
      opLength_oneByte (by omega) (oneByte_mov ⟨hlo, hhi⟩)]
    rfl
  · rw [decodeCompare, if_neg (by omega), decodeCompareOp, if_neg (by omega), if_neg (by omega)]

theorem plain_movHigh : IsPlain b (b.get 0 = 0x41 ∧ 0xB8 ≤ b.get 1 ∧ b.get 1 ≤ 0xBF) 6 := by
  rintro ⟨h0, hc⟩ code hb
  obtain ⟨-, hlo, hhi⟩ := toNat_sub_B8 (m := b[1]) hc
  rw [← hb 1 (by decide)] at hlo hhi
  have h0 : code 0 = 0x41 := (hb 0 (by decide)).trans h0
  constructor
  · rw [X86.length, h0, if_neg (by decide), rexLength, h0, if_pos (by decide),
      opLength_oneByte (by omega) (oneByte_mov ⟨hlo, hhi⟩)]
    rfl
  · rw [decodeCompare, h0, if_pos (by decide), decodeCompareOp, if_neg (by omega),
      if_neg (by omega)]

theorem plain_movLoad_base :
    IsPlain b (b.get 0 = 0x8B ∧ rmOf (b.get 1) ≠ 0x04 ∧ modeOf (b.get 1) = 0 ∧
      rmOf (b.get 1) ≠ 5) 2 := by
  rintro ⟨h0, h4, hm, h5⟩ code hb
  replace h0 := (hb 0 (by decide)).trans h0
  have hm := begins_mode (k := 1) (by decide) hb hm
  have h4 := begins_rm (k := 1) (by decide) hb h4
  have h5 := begins_rm (k := 1) (by decide) hb h5
  constructor <;> simp [h0, decodeRM_base hm h4 h5]

theorem plain_movLoad_disp8 :
    IsPlain b (b.get 0 = 0x8B ∧ rmOf (b.get 1) ≠ 0x04 ∧ modeOf (b.get 1) = 1) 3 := by
  rintro ⟨h0, h4, hm⟩ code hb
  replace h0 := (hb 0 (by decide)).trans h0
  have hm := begins_mode (k := 1) (by decide) hb hm
  have h4 := begins_rm (k := 1) (by decide) hb h4
  constructor <;> simp [h0, decodeRM_disp8 hm h4]

end Bytes

@[simp] theorem setReg64_flags (cpu : Cpu) (r : U8) (v : U64) :
    (setReg64 cpu r v).flags = cpu.flags := by
  unfold setReg64
  split <;> rfl

@[simp] theorem movLoadPut_flags (cpu : Cpu) (r : U8) (v : U64) :
    (movLoadPut cpu r v).flags = cpu.flags := by
  unfold movLoadPut
  split <;> rfl

@[simp] theorem leaPut_flags (cpu : Cpu) (r : U8) (v : U64) :
    (leaPut cpu r v).flags = cpu.flags := by
  unfold leaPut
  split <;> rfl

@[simp] theorem leaHighPut_flags (cpu : Cpu) (r : U8) (v : U64) :
    (leaHighPut cpu r v).flags = cpu.flags := by
  unfold leaHighPut
  split <;> rfl

@[simp] theorem movHighPut_flags (cpu : Cpu) (r : U8) (v : U64) :
    (movHighPut cpu r v).flags = cpu.flags := by
  unfold movHighPut
  split <;> rfl

@[simp] theorem movLowPut_flags (cpu : Cpu) (r : U8) (v : U64) :
    (movLowPut cpu r v).flags = cpu.flags := by
  unfold movLowPut
  split <;> rfl

/-- Registers that have changed without `rip` or the flags, and then `rip` goes on. -/
theorem ensures_modify_next {f : Cpu → Cpu} (hrip : (f g.cpu).rip = g.cpu.rip)
    (hflags : (f g.cpu).flags = g.cpu.flags) :
    Ensures (do modifyCpu f; next n) g fun _ g' ↦ Quiet n g g' := by
  simp only [ensures_bind, ensures_modifyCpu, ensures_next, Guest.nextRip, hrip]
  exact fun h ↦ ⟨⟨rfl, rfl, h⟩, hflags⟩

theorem covered_leaArm {rex : U8} {put : Cpu → U8 → U64 → Cpu}
    (hrex : rex = 0x48 ∨ rex = 0x4C) (hrip : ∀ cpu r v, (put cpu r v).rip = cpu.rip)
    (hflags : ∀ cpu r v, (put cpu r v).flags = cpu.flags) :
    Covered syscall base g b (leaArm rex put b) :=
  covered_next (plain_lea hrex) <| by
    rw [ensures_bind, ensures_getCpu, ensures_bind, ensures_lift]
    exact fun _ _ ↦ ensures_modify_next (hrip _ _ _) (hflags _ _ _)

theorem covered_movLowArm : Covered syscall base g b (movLowArm base b) :=
  covered_next plain_movLow <| by
    rw [ensures_bind, ensures_ripPlus]
    intro _
    rw [ensures_bind, ensures_reading]
    exact fun _ _ ↦ ensures_modify_next (movLowPut_rip _ _ _) (movLowPut_flags _ _ _)

theorem covered_movHighArm : Covered syscall base g b (movHighArm base b) :=
  covered_next plain_movHigh <| by
    rw [ensures_bind, ensures_ripPlus]
    intro _
    rw [ensures_bind, ensures_reading]
    exact fun _ _ ↦ ensures_modify_next (movHighPut_rip _ _ _) (movHighPut_flags _ _ _)

theorem ensures_group1Arm {modrm : U8} {imm : U64} :
    Ensures (group1Arm modrm imm n) g fun o g' ↦ o ≠ none → Quiet n g g' := by
  rw [group1Arm, ensures_bind, ensures_getCpu]
  split
  · simp only [ensures_bind, ensures_modifyCpu, ensures_map, ensures_next, Guest.nextRip,
      setReg64_rip]
    exact fun h _ ↦ ⟨⟨rfl, rfl, h⟩, setReg64_flags _ _ _⟩
  · simp

theorem covered_aluImm8Arm : Covered syscall base g b (aluImm8Arm b) := by
  intro hb stop g' h
  rw [aluImm8Arm] at h
  split at h
  · rename_i hc
    obtain ⟨hadv, hflags⟩ := ensures_group1Arm _ _ h nofun
    exact .registers 4 (plain_aluImm8 hc _ hb) hadv hflags
  · exact nomatch h

theorem covered_aluImm32Arm : Covered syscall base g b (aluImm32Arm base b) := by
  intro hb stop g' h
  rw [aluImm32Arm] at h
  split at h
  · rename_i hc
    obtain ⟨-, h⟩ := bind_ripPlus_eq_ok.mp h
    obtain ⟨imm, -, h⟩ := bind_reading_eq_ok.mp h
    obtain ⟨hadv, hflags⟩ := ensures_group1Arm _ _ h nofun
    exact .registers 7 (plain_aluImm32 hc _ hb) hadv hflags
  · exact nomatch h

theorem covered_movLoadArm : Covered syscall base g b (movLoadArm base b) := by
  intro hb stop g' h
  rw [movLoadArm] at h
  split at h
  · rename_i hc
    rw [bind_getCpu] at h
    cases hx : movLoadAddr g.cpu b[1] b[2] with
    | none => simp [hx] at h
    | some x =>
      simp only [hx] at h
      obtain ⟨addr, ha, h⟩ := bind_lift_eq_ok.mp h
      obtain ⟨v, -, h⟩ := bind_reading_eq_ok.mp h
      rw [bind_modifyCpu, RustM.map_eq_ok] at h
      obtain ⟨stop, h, -⟩ := h
      obtain ⟨⟨hlt, rfl⟩, -⟩ := next_eq_ok.mp h
      have hflags := movLoadPut_flags g.cpu (regOf b[1]) (v.setWidth 64)
      simp only [movLoadPut_rip] at hlt ⊢
      rcases movLoadAddr_eq_ok hx ha with ⟨hm, h5, -⟩ | ⟨hm, -⟩
      · rw [if_neg (by rw [hm]; decide)] at hlt ⊢
        exact .registers 2 (plain_movLoad_base ⟨hc.1, hc.2, hm, h5⟩ _ hb) ⟨rfl, rfl, hlt⟩ hflags
      · rw [if_pos hm] at hlt ⊢
        exact .registers 3 (plain_movLoad_disp8 ⟨hc.1, hc.2, hm⟩ _ hb) ⟨rfl, rfl, hlt⟩ hflags
  · cases h

/-! ## Arms that compare -/

theorem covered_compare (cmp : Compare) {f : Cpu → Cpu}
    (hdec : c → ∀ code, Begins b code → decodeCompare code = some (cmp, n))
    (hrip : (f g.cpu).rip = g.cpu.rip)
    (hflags : c → Begins b (g.code base) →
      (f g.cpu).flags = cmp.flags (g.nextRip n) (g.arch base 0)) :
    Covered syscall base g b (arm c do
      modifyCpu f
      next n) :=
  covered_arm fun hc hb ↦ by
    simp only [ensures_bind, ensures_modifyCpu, ensures_next, Guest.nextRip, hrip]
    exact fun h ↦ .compare n cmp (hdec hc _ hb) ⟨rfl, rfl, h⟩ (hflags hc hb)

theorem covered_testArm {r : Reg} (hr : Cpu.holds r = true)
    (hdec : c → ∀ code, Begins b code → decodeCompare code = some (.test .qword (.reg r) r, 3)) :
    Covered syscall base g b (testArm c r) :=
  covered_compare _ hdec rfl fun _ _ ↦ by
    simp [Compare.flags, State.read, Size.truncate, regs_of_holds _ hr, Flags.ofResult, Size.sign,
      Cpu.flags]

theorem covered_cmpAl : Covered syscall base g b (arm (b.get 0 = 0x3C) (do
    modifyCpu fun cpu ↦
      { cpu with zf := getAl cpu = b.get 1, sf := (getAl cpu - b.get 1).msb }
    next 2)) := by
  refine covered_compare (.cmp .byte (.reg .rax) (b[1].signExtend 64)) ?_ rfl ?_
  · intro hc code hb
    have h0 := (hb 0 (by decide)).trans hc
    simp [decodeCompare, decodeCompareOp, h0, hb 1 _, imm8]
  · intro hc hb
    have hzero (x y : U8) : x - y = 0 ↔ x = y := by
      rw [← BitVec.toNat_inj, ← BitVec.toNat_inj, BitVec.toNat_sub]
      have := x.isLt
      have := y.isLt
      simp
      omega
    simp only [Compare.flags, State.read, regs_arch, regs_of_holds (r := .rax) _ rfl,
      Size.truncate, ofResult_byte, setWidth_sub_signExtend, hzero]
    rfl

/-! ## Arms that write to memory -/

theorem covered_pushArm {src : Reg}
    (hdec : c → ∀ code, Begins b code → decode code = some (.push src, n) ∧
      decodeCompare code = none) :
    Covered syscall base g b (pushArm base c src n) :=
  covered_arm fun hc hb ↦ by
    simp only [ensures_bind, ensures_getCpu, ensures_pushU64, ensures_next]
    intro _ mem hw hlt
    obtain ⟨hdec, hcompare⟩ := hdec hc _ hb
    exact .store n _ _ ⟨length_of_decode hdec, hcompare⟩
      (fun _ ↦ by simpa using .push src n hdec) hw rfl hlt rfl

theorem covered_storeRdi (hplain : IsPlain b c 5)
    (hc : c → ∀ code, Begins b code → peek code 0 5 = [0x48, 0x89, 0x7C, 0xC2, 0x08]) :
    Covered syscall base g b (arm c do
      let cpu ← getCpu
      writing fun mem ↦ writeU64 base mem (rdxRax8 cpu) cpu.rdi
      next 5) :=
  covered_arm fun h hb ↦ by
    simp only [ensures_bind, ensures_getCpu, ensures_writing, ensures_next]
    intro mem hw hlt
    exact .store 5 _ _ (hplain h _ hb) (fun _ ↦ by simpa using .mov (hc h _ hb)) hw rfl hlt rfl

/-- `C7 /0` compares nothing. -/
theorem decodeCompare_storeImm {code : ℕ → U8} (hb : Begins b code) (h0 : b.get 0 = 0xC7) :
    decodeCompare code = none := by
  have hcode := (hb 0 (by decide)).trans h0
  simp [decodeCompare, decodeCompareOp, hcode]

theorem covered_storeImmArm : Covered syscall base g b (storeImmArm base b) :=
  covered_arm fun hc hb ↦ by
    simp only [ensures_bind, ensures_getCpu, ensures_lift, ensures_ripPlus, ensures_reading,
      ensures_writing, ensures_next]
    intro addr ha _ imm _ mem hw hlt
    have hdec := decode_storeImm hb hc
    have h1 : b.get 1 = b[1] := rfl
    have h2 : b.get 2 = b[2] := rfl
    rw [h1, h2] at hdec
    have hs (r : U64) := Stores.movImm (r := r) _ _ 7 hdec
    simp only [ea_base (holds_ofCode (toNat_lt_eight b[1]).2),
      ← getReg64_eq _ (toNat_lt_eight b[1]).2, (Rust.addSigned_eq_ok.mp ha).2] at hs
    exact .store 7 _ _ ⟨length_of_decode hdec, decodeCompare_storeImm hb hc.1⟩
      (fun r ↦ by simpa using hs r) hw rfl hlt rfl

theorem covered_storeImmSpArm : Covered syscall base g b (storeImmSpArm base b) :=
  covered_arm fun hc hb ↦ by
    simp only [ensures_bind, ensures_getCpu, ensures_lift, ensures_ripPlus, ensures_reading,
      ensures_writing, ensures_next]
    intro addr ha _ imm _ mem hw hlt
    have hdec := decode_storeImmSp hb hc
    have h3 : b.get 3 = b[3] := rfl
    rw [h3] at hdec
    have hs (r : U64) := Stores.movImm (r := r) _ _ 8 hdec
    simp only [ea_base (r := .rsp) rfl, Cpu.get, (Rust.addSigned_eq_ok.mp ha).2] at hs
    exact .store 8 _ _ ⟨length_of_decode hdec, decodeCompare_storeImm hb hc.1⟩
      (fun r ↦ by simpa using hs r) hw rfl hlt rfl

/-! ## Stops, jumps and calls -/

/-- The bytes `b` transfer control, if `c` holds. -/
def IsTransfer (b : Vector U8 8) (c : Prop) : Prop :=
  c → ∀ code, Begins b code → Transfers code ∧ decodeCompare code = none

theorem covered_transfer (htr : IsTransfer b c)
    (hbody : Ensures body g fun _ g' ↦ g'.mem = g.mem ∧ g'.cpu.flags = g.cpu.flags) :
    Covered syscall base g b (arm c body) :=
  covered_arm fun hc hb ↦ hbody.mono fun _ _ ⟨hmem, hflags⟩ ↦ by
    obtain ⟨htransfers, hcompare⟩ := htr hc _ hb
    exact .transfer htransfers hcompare (.inl hmem) hflags

theorem jump_keeps (nextRip rel : U64) : Ensures (jump nextRip rel : Interp ω Bool) g
    fun _ g' ↦ g'.mem = g.mem ∧ g'.cpu.flags = g.cpu.flags :=
  ensures_jump fun _ ↦ ⟨rfl, rfl⟩

section Bytes

attribute [local simp] Transfers decodeCompare decodeCompareOp

theorem covered_jmpArm : Covered syscall base g b (jmpArm base b) := by
  refine covered_transfer (fun hc code hb ↦ ?_) ?_
  · simp [hb 0 _, hc]
  · simp only [ensures_bind, ensures_ripPlus, ensures_reading]
    exact fun _ _ _ _ ↦ jump_keeps _ _

theorem covered_jmpShortArm : Covered syscall base g b (jmpShortArm b) := by
  refine covered_transfer (fun hc code hb ↦ ?_) ?_
  · simp [hb 0 _, hc]
  · simp only [ensures_bind, ensures_ripPlus]
    exact fun _ ↦ jump_keeps _ _

theorem covered_jeArm : Covered syscall base g b (jeArm b) := by
  refine covered_transfer (fun hc code hb ↦ ?_) ?_
  · simp [hb 0 _, hc]
  · simp only [ensures_bind, ensures_ripPlus, ensures_getCpu, ensures_ite, ensures_modifyCpu,
      ensures_pure]
    exact fun _ ↦ ⟨fun _ ↦ jump_keeps _ _, fun _ ↦ ⟨trivial, rfl⟩⟩

end Bytes

/-- A call has pushed an address, or nothing at all. -/
def Called (base : U64) (g g' : Guest ω) : Prop :=
  (g'.mem = g.mem ∨ ∃ v, writeU64 base g.mem (g.cpu.rsp - 8) v = .ok g'.mem) ∧
    g'.cpu.flags = g.cpu.flags

theorem covered_call (htr : IsTransfer b c)
    (hcall : c → ∀ code, Begins b code → code 0 = 0xE8 ∨ (code 0 = 0xFF ∧ code 1 = 0x15))
    (hbody : Ensures body g fun _ g' ↦ Called base g g') :
    Covered syscall base g b (arm c body) :=
  covered_arm fun hc hb ↦ hbody.mono fun _ _ ⟨hmem, hflags⟩ ↦ by
    obtain ⟨htransfers, hcompare⟩ := htr hc _ hb
    refine .transfer htransfers hcompare (hmem.imp_right ?_) hflags
    exact fun ⟨v, hw⟩ ↦ ⟨v, fun _ ↦ .call (hcall hc _ hb), hw⟩

theorem ensures_callRel32 :
    Ensures (callRel32 base : Interp ω Bool) g fun _ g' ↦ Called base g g' := by
  simp only [callRel32, ensures_bind, ensures_ripPlus, ensures_reading, ensures_pushU64]
  intro _ _ _ _ _ mem hw
  refine (jump_keeps _ _).mono fun _ g' hkept ↦ ⟨.inr ⟨g.nextRip 5, ?_⟩, hkept.2⟩
  rw [hkept.1]
  exact hw

theorem ensures_callPtr :
    Ensures (callPtr base : Interp ω Bool) g fun _ g' ↦ Called base g g' := by
  have hcall (v target : U64) : Ensures (do
      pushU64 base v
      modifyCpu ({ · with rip := target })
      return false : Interp ω Bool) g fun _ g' ↦ Called base g g' := by
    simp only [ensures_bind, ensures_pushU64, ensures_modifyCpu, ensures_pure]
    exact fun _ mem hw ↦ ⟨.inr ⟨v, hw⟩, rfl⟩
  simp only [callPtr, ensures_bind, ensures_ripPlus, ensures_reading, ensures_lift, ensures_getCpu,
    ensures_ite, ensures_modifyCpu, ensures_pure] at hcall ⊢
  exact fun _ _ _ _ _ _ _ _ _ _ ↦
    ⟨fun _ _ _ ↦ ⟨fun _ ↦ ⟨.inl rfl, rfl⟩, fun _ ↦ hcall _ _⟩, fun _ ↦ hcall _ _⟩

/-! ## Every arm -/

theorem covered_syscall : Covered syscall base g b (arm (b.get 0 = 0x0F ∧ b.get 1 = 0x05) (do
    let exit ← syscall
    ripAdd 2
    return exit)) :=
  covered_arm fun hc hb ↦ by
    simp only [ensures_bind, ensures_ripAdd, ensures_pure]
    intro stop g₁ hrun hlt
    exact .syscall ((hb 0 _).trans hc.1) ((hb 1 _).trans hc.2) g₁ hrun hlt rfl

section Chain

attribute [local simp] X86.length rexLength opLength oneByte twoByte Format.lengthFrom decode
  decodeOp decodeRM decodeDisp regField extended Reg.ofCode Transfers decodeCompare
  decodeCompareOp

/-- **Every arm is covered.**  The lemmas stand in the order of the arms; what is left of each are
facts about its bytes. -/
theorem arms_covered : ∀ a ∈ arms syscall base b, Covered syscall base g b a := by
  simp only [arms, movArm, zeroArm, List.forall_mem_cons]
  have hnext (n : ℕ) : Ensures (next n) g fun _ g' ↦ Quiet n g g' := by
    rw [ensures_next]
    exact fun h ↦ ⟨⟨rfl, rfl, h⟩, rfl⟩
  refine ⟨covered_next ?_ (hnext 4), covered_next ?_ (hnext 1),
    covered_transfer (Or.rec ?_ ?_) (by simp), covered_pushArm ?_, covered_popArm ?_,
    covered_pushArm ?_, covered_popArm ?_, covered_pushArm ?_, covered_popArm ?_,
    covered_setArm ?_, covered_setArm ?_, covered_pushArm ?_, covered_popArm ?_,
    covered_setArm ?_, covered_storeRdi ?_ ?_, covered_loadArm ?_, covered_setArm ?_,
    covered_setArm ?_, covered_setArm ?_, covered_aluImm8Arm, covered_aluImm32Arm,
    covered_setArm ?_, covered_setArm ?_, covered_setArm ?_, covered_setArm ?_,
    covered_setArm ?_, covered_setArm ?_, covered_setArm ?_, covered_setArm ?_,
    covered_movLoadArm, covered_leaArm (.inl rfl) leaPut_rip leaPut_flags,
    covered_leaArm (.inr rfl) leaHighPut_rip leaHighPut_flags, covered_loadArm ?_,
    covered_setArm ?_, covered_setArm ?_, covered_setArm ?_, covered_setArm ?_,
    covered_setArm ?_, covered_setArm ?_, covered_next (n := 5) ?_ ?lea, covered_pushArm ?_,
    covered_pushArm ?_, covered_popArm ?_, covered_setArm ?_, covered_setArm ?_,
    covered_setArm ?_, covered_setArm ?_, covered_setArm ?_, covered_setArm ?_,
    covered_setArm ?_, covered_setArm ?_, covered_testArm rfl ?_, covered_testArm rfl ?_,
    covered_setArm ?_, covered_next (n := 5) ?_ ?movAl, covered_setArm ?_, covered_cmpAl,
    covered_movImmArm ?_, covered_movImmArm ?_, covered_movImmArm ?_, covered_movImmArm ?_,
    covered_movHighArm, covered_movLowArm, covered_leaRipArm ?_, covered_leaRipArm ?_,
    covered_leaRipArm ?_, covered_leaRipArm ?_, covered_storeImmArm, covered_storeImmSpArm,
    covered_syscall,
    covered_call ?_ (fun h _ hb ↦ .inl ((hb 0 (by decide)).trans h)) ensures_callRel32,
    covered_jmpArm, covered_jmpShortArm, covered_jeArm,
    covered_call ?_ (fun h _ hb ↦ .inr ⟨(hb 0 (by decide)).trans h.1,
      (hb 1 (by decide)).trans h.2⟩) ensures_callPtr,
    List.forall_mem_nil _⟩
  case lea =>
    simp only [ensures_bind, ensures_getCpu, ensures_lift, ensures_assign]
    exact fun _ _ ↦ quiet_assigned
  case movAl =>
    rw [ensures_bind, ensures_getCpu, ensures_bind, ensures_reading]
    exact fun _ _ ↦ ensures_modify_next rfl rfl
  all_goals
    rintro h code hb
    first
    | constructor <;> simp [hb _ _, h]
    | simp [hb _ _, h, peek, List.range_succ]

end Chain

end Arms

/-- **A completed step is of one of the kinds.** -/
theorem execOne_cases {syscall : Interp ω Bool} {stop : Bool}
    (h : execOne syscall base g = .ok stop g') : StepCase syscall base g stop g' := by
  obtain ⟨b, hb, a, ha, h⟩ := execOne_eq_ok h
  exact arms_covered a ha (fun k hk ↦ (hb k hk).symm) stop g' h

end LeonOS
