import LeonOS.Interp.Steps

/-!
# The interpreter against the architecture

`execOne` compared with `X86.decode` and `X86.exec`, on the general-purpose registers and memory.

The interpreter's state is presented as an architectural one by `Guest.arch`, with an arbitrary
value `ghost` for each register the `Cpu` does not keep, and a step *conforms* when it does to
that state, for every `ghost`, what the decoded instruction does.  The main theorem is an
equivalence: a completed step of an instruction of `X86` conforms exactly when the operands are
`AsArchitecture`.  That condition is trivial for most forms.  What is left are the four places
where the source is not the architecture:

* `48 C7 /0` reads its immediate with `read_u32`, so that a negative one is zero-extended;
* `B8+r` and `41 B8+r`, `8B /r`, and the two `8D /r` branches match on the destination and skip
  the registers that are missing from the match, some of which the `Cpu` does keep.

The proof is one lemma a family of arms, each for any bytes and registers, and then the list of
arms with the decoding of its bytes.
-/

set_option autoImplicit false

namespace LeonOS

open Bytes X86

variable {ω : Type} {g g' : Guest ω} {base : U64} {n : ℕ} {stop : Bool} {b : Vector U8 8}

/-! ## The statement -/

/-- The interpreter's state as an architectural one. -/
def Guest.arch (g : Guest ω) (base : U64) (ghost : Reg → U64) : State where
  regs := g.cpu.regs ghost
  mem := Window.view base g.mem
  sf := g.cpu.sf

/-- Registers and memory in `g'` are what the instruction `i` of `n` bytes makes of those in
`g`. -/
def Conforms (base : U64) (g g' : Guest ω) (i : Instr) (n : ℕ) : Prop :=
  ∀ ghost, (g'.arch base ghost).regs = (exec (g.nextRip n) (g.arch base ghost) i).regs ∧
    (g'.arch base ghost).mem = (exec (g.nextRip n) (g.arch base ghost) i).mem

/-- A register the `Cpu` keeps and whose value is `v`. -/
def Cpu.Already (cpu : Cpu) (r : Reg) (v : U64) : Prop := Cpu.holds r = true ∧ cpu.get r = v

/-- The destinations in the match of `B8+r` and of `41 B8+r`. -/
def movDsts : List Reg := [.rax, .rcx, .rdx, .rsp, .rbp, .rsi, .rdi, .r8, .r9]

/-- The destinations in the match of `8B /r`. -/
def loadDsts : List Reg := [.rax, .rcx, .rdx, .rsi, .rdi]

/-- The destinations in the matches of the two `8D /r` branches. -/
def leaDsts : List Reg := [.rax, .rdx, .rbp, .rsi, .rdi, .r8, .r9]

/-- **When the interpreter does what the architecture does**: an immediate that is to be
sign-extended is not negative, and a destination that is going to be skipped holds its value
already. -/
def AsArchitecture (base : U64) (g : Guest ω) (n : ℕ) : Instr → Prop
  | .movImm .qword _ imm => imm.msb = false
  | .movImm .dword (.reg r) imm => r ∈ movDsts ∨ g.cpu.Already r (Size.dword.truncate imm)
  | .mov .dword (.reg r) (.mem a) =>
    r ∈ loadDsts ∨ g.cpu.Already r ((g.arch base 0).read (g.nextRip n) .dword (.mem a))
  | .lea _ r a => r ∈ leaDsts ∨ g.cpu.Already r ((g.arch base 0).ea (g.nextRip n) a)
  | _ => True

/-- The instructions that only move `rip` or set flags, stop the program or call the kernel: the
bytes that are accepted and are not an instruction of `X86`. -/
def Control (code : ℕ → U8) : Prop :=
  code 0 ∈ [0x90, 0xC3, 0xF4, 0x3C, 0xE8, 0xE9, 0xEB, 0x74] ∨
  (code 0 = 0xF3 ∧ code 1 = 0x0F ∧ code 2 = 0x1E ∧ code 3 = 0xFA) ∨
  (code 0 = 0x48 ∧ code 1 = 0x85 ∧ code 2 ∈ [0xC0, 0xD2]) ∨
  (code 0 = 0x0F ∧ code 1 = 0x05) ∨ (code 0 = 0xFF ∧ code 1 = 0x15)

/-- What is to be shown of a step from `g` to `g'`. -/
def Explained (base : U64) (g g' : Guest ω) : Prop :=
  (decode (g.code base) = none → Control (g.code base)) ∧
  ∀ i n, decode (g.code base) = some (i, n) →
    (Conforms base g g' i n ↔ AsArchitecture base g n i)

/-- Some code begins with the bytes `b`. -/
def Begins (b : Vector U8 8) (code : ℕ → U8) : Prop := ∀ k (hk : k < 8), code k = b[k]

/-- Every step an arm takes at the bytes `b` is explained. -/
def Sound (base : U64) (b : Vector U8 8) (a : Interp ω (Option Bool)) : Prop :=
  ∀ g stop g', Begins b (g.code base) → a g = .ok (some stop) g' → Explained base g g'

theorem explained_of_conforms {i : Instr} (hdec : decode (g.code base) = some (i, n))
    (h : Conforms base g g' i n ↔ AsArchitecture base g n i) : Explained base g g' := by
  refine ⟨fun hd ↦ ?_, fun i' n' hd ↦ ?_⟩
  · rw [hdec] at hd
    exact absurd hd (by simp)
  · rw [hdec, Option.some_inj, Prod.mk.injEq] at hd
    obtain ⟨rfl, rfl⟩ := hd
    exact h

/-! ## Registers of the `Cpu` -/

@[simp] theorem regs_arch (ghost : Reg → U64) : (g.arch base ghost).regs = g.cpu.regs ghost := rfl

@[simp] theorem mem_arch (ghost : Reg → U64) :
    (g.arch base ghost).mem = Window.view base g.mem := rfl

theorem regs_of_holds {cpu : Cpu} (ghost : Reg → U64) {r : Reg} (h : Cpu.holds r = true) :
    cpu.regs ghost r = cpu.get r :=
  if_pos h

theorem regs_rip (cpu : Cpu) (v : U64) (ghost : Reg → U64) :
    Cpu.regs { cpu with rip := v } ghost = cpu.regs ghost := by
  funext r
  cases r <;> rfl

/-- Leaving a register alone is writing `v` to it only if it holds `v`. -/
theorem regs_eq_update {cpu : Cpu} {r : Reg} {v : U64} :
    (∀ ghost, cpu.regs ghost = Function.update (cpu.regs ghost) r v) ↔ cpu.Already r v := by
  constructor
  · intro h
    have hr : ∀ ghost, cpu.regs ghost r = v := fun ghost ↦ by
      rw [h ghost, Function.update_self]
    rcases Bool.eq_false_or_eq_true (Cpu.holds r) with hh | hh
    · exact ⟨hh, by rw [← regs_of_holds _ hh, hr fun _ ↦ 0]⟩
    · have h₀ := hr fun _ ↦ 0
      have h₁ := hr fun _ ↦ 1
      rw [Cpu.regs, if_neg (by simp [hh])] at h₀ h₁
      exact absurd (h₀.trans h₁.symm) (by decide)
  · rintro ⟨hh, hv⟩ ghost
    rw [← hv, ← regs_of_holds ghost hh, Function.update_eq_self]

/-- **A step that assigns a register** conforms to an instruction that writes it. -/
theorem conforms_assigned {i : Instr} {dst : Reg} {v : U64} (hd : Cpu.holds dst = true)
    (hex : ∀ ghost, exec (g.nextRip n) (g.arch base ghost) i =
      (g.arch base ghost).writeReg .qword dst v) :
    Conforms base g (g.assigned dst v n) i n := by
  intro ghost
  rw [hex]
  refine ⟨?_, rfl⟩
  rw [regs_arch, Guest.assigned, regs_rip, Cpu.regs_put _ _ hd]
  rfl

/-- **A step that assigns a register if it is in a list** conforms to an instruction that writes
the register exactly when it is in the list, or its value is there already. -/
theorem conforms_match {i : Instr} {dsts : List Reg} {dst : Reg} {v : U64}
    (hdsts : ∀ r ∈ dsts, Cpu.holds r = true)
    (hex : ∀ ghost, exec (g.nextRip n) (g.arch base ghost) i =
      (g.arch base ghost).writeReg .qword dst v) (rip : U64) :
    Conforms base g { g with
      cpu := { (if dst ∈ dsts then g.cpu.put dst v else g.cpu) with rip := rip } } i n ↔
      dst ∈ dsts ∨ g.cpu.Already dst v := by
  rw [Conforms]
  simp only [hex, regs_arch, regs_rip]
  by_cases hm : dst ∈ dsts
  · rw [if_pos hm]
    refine ⟨fun _ ↦ .inl hm, fun _ ghost ↦ ⟨?_, rfl⟩⟩
    exact Cpu.regs_put _ _ (hdsts dst hm) v
  · rw [if_neg hm, or_iff_right hm, ← regs_eq_update]
    exact forall_congr' fun ghost ↦ and_iff_left rfl

/-! ## Arms that name their registers -/

section Arms

variable {c : Prop} [Decidable c]

theorem sound_control {body : Interp ω Bool}
    (hc : c → ∀ code, Begins b code → decode code = none ∧ Control code) :
    Sound base b (arm c body) := by
  intro g stop g' hb h
  obtain ⟨hdec, hctl⟩ := hc (arm_eq_some.mp h).1 _ hb
  refine ⟨fun _ ↦ hctl, fun i n hd ↦ ?_⟩
  rw [hdec] at hd
  exact absurd hd (by simp)

theorem sound_setArm {dst : Reg} {value : Cpu → U64} {i : Instr} (hd : Cpu.holds dst = true)
    (hi : ∀ g : Guest ω, AsArchitecture base g n i)
    (hdec : c → ∀ code, Begins b code → decode code = some (i, n))
    (hex : ∀ (g : Guest ω) ghost, exec (g.nextRip n) (g.arch base ghost) i =
      (g.arch base ghost).writeReg .qword dst (value g.cpu)) :
    Sound base b (setArm c dst value n : Interp ω (Option Bool)) := by
  intro g stop g' hb h
  obtain ⟨hc, h⟩ := arm_eq_some.mp h
  rw [bind_getCpu] at h
  obtain ⟨⟨-, rfl⟩, -⟩ := assign_eq_ok.mp h
  exact explained_of_conforms (hdec hc _ hb)
    (iff_of_true (conforms_assigned hd (hex g)) (hi g))

theorem sound_movArm {dst src : Reg} (hd : Cpu.holds dst = true) (hs : Cpu.holds src = true)
    (hdec : c → ∀ code, Begins b code → decode code = some (.mov .qword (.reg dst) (.reg src), n)) :
    Sound base b (movArm c dst src n : Interp ω (Option Bool)) := by
  refine sound_setArm (i := .mov .qword (.reg dst) (.reg src)) hd (fun _ ↦ trivial) hdec
    fun g ghost ↦ ?_
  rw [← regs_of_holds ghost hs]
  rfl

theorem sound_leaSetArm {dst : Reg} {value : Cpu → U64} (a : Addr) (hd : Cpu.holds dst = true)
    (hm : dst ∈ leaDsts)
    (hdec : c → ∀ code, Begins b code → decode code = some (.lea .qword dst a, n))
    (hea : ∀ (g : Guest ω) ghost, (g.arch base ghost).ea (g.nextRip n) a = value g.cpu) :
    Sound base b (setArm c dst value n : Interp ω (Option Bool)) := by
  refine sound_setArm hd (i := .lea .qword dst a) (fun _ ↦ .inl hm) hdec fun g ghost ↦ ?_
  rw [exec, hea]

theorem sound_zeroArm {dst : Reg} (size : Size) (hsize : size ≠ .byte)
    (hd : Cpu.holds dst = true)
    (hdec : c → ∀ code, Begins b code → decode code = some (.xor size (.reg dst) dst, n)) :
    Sound base b (zeroArm c dst n : Interp ω (Option Bool)) := by
  refine sound_setArm (i := .xor size (.reg dst) dst) hd (fun _ ↦ trivial) hdec fun g ghost ↦ ?_
  rw [exec, BitVec.xor_self]
  cases size
  · exact absurd rfl hsize
  · rfl
  · rfl

theorem sound_loadArm {dst : Reg} {addr : Cpu → U64} {a : Addr} (hd : Cpu.holds dst = true)
    (hdec : c → ∀ code, Begins b code → decode code = some (.mov .qword (.reg dst) (.mem a), n))
    (hea : ∀ (g : Guest ω) ghost, (g.arch base ghost).ea (g.nextRip n) a = addr g.cpu) :
    Sound base b (loadArm base c dst addr n : Interp ω (Option Bool)) := by
  intro g stop g' hb h
  obtain ⟨hc, h⟩ := arm_eq_some.mp h
  rw [bind_getCpu] at h
  obtain ⟨v, hv, h⟩ := bind_reading_eq_ok.mp h
  obtain ⟨⟨-, rfl⟩, -⟩ := assign_eq_ok.mp h
  refine explained_of_conforms (hdec hc _ hb) (iff_of_true (conforms_assigned hd fun ghost ↦ ?_) ?_)
  · rw [readU64_eq_ok hv, ← hea g ghost]
    rfl
  · trivial

theorem sound_pushArm {src : Reg} (hs : Cpu.holds src = true)
    (hdec : c → ∀ code, Begins b code → decode code = some (.push src, n)) :
    Sound base b (pushArm base c src n : Interp ω (Option Bool)) := by
  intro g stop g' hb h
  obtain ⟨hc, h⟩ := arm_eq_some.mp h
  rw [bind_getCpu] at h
  obtain ⟨-, mem, hw, h⟩ := bind_pushU64_eq_ok.mp h
  obtain ⟨⟨-, rfl⟩, -⟩ := next_eq_ok.mp h
  refine explained_of_conforms (hdec hc _ hb) (iff_of_true (fun ghost ↦ ⟨?_, ?_⟩) trivial)
  · exact (regs_rip _ _ ghost).trans (Cpu.regs_put g.cpu ghost (r := .rsp) rfl _)
  · rw [mem_arch, view_write hw, ← regs_of_holds ghost hs]
    rfl

theorem sound_popArm {dst : Reg} (hd : Cpu.holds dst = true)
    (hdec : c → ∀ code, Begins b code → decode code = some (.pop dst, n)) :
    Sound base b (popArm base c dst n : Interp ω (Option Bool)) := by
  intro g stop g' hb h
  obtain ⟨hc, h⟩ := arm_eq_some.mp h
  obtain ⟨v, hv, -, h⟩ := bind_popU64_eq_ok.mp h
  obtain ⟨⟨-, rfl⟩, -⟩ := assign_eq_ok.mp h
  refine explained_of_conforms (hdec hc _ hb) (iff_of_true (fun ghost ↦ ⟨?_, rfl⟩) trivial)
  have hsp : Cpu.regs { g.cpu with rsp := g.cpu.rsp + 8 } ghost =
      Function.update (g.cpu.regs ghost) .rsp (g.cpu.rsp + 8) :=
    Cpu.regs_put g.cpu ghost (r := .rsp) rfl _
  rw [regs_arch, Guest.assigned, regs_rip, Cpu.regs_put _ _ hd, readU64_eq_ok hv, hsp]
  rfl

end Arms

/-! ## Immediates -/

theorem toNat_signExtend_mod (v : BitVec 32) : (v.signExtend 64).toNat % 2 ^ 32 = v.toNat := by
  have hv : v.toNat < 2 ^ 32 := v.isLt
  rw [BitVec.toNat_signExtend, BitVec.toNat_setWidth]
  split <;> omega

/-- Zero-extending a negative doubleword is not sign-extending it. -/
theorem setWidth_eq_signExtend {v : BitVec 32} :
    v.setWidth 64 = v.signExtend 64 ↔ (v.signExtend 64).msb = false := by
  have hv : v.toNat < 2 ^ 32 := v.isLt
  rw [← BitVec.toNat_inj, BitVec.msb_eq_decide, BitVec.toNat_signExtend, BitVec.toNat_setWidth,
    decide_eq_false_iff_not]
  split <;> omega

theorem truncate_signExtend (v : BitVec 32) :
    Size.dword.truncate (v.signExtend 64) = v.setWidth 64 := by
  rw [Size.truncate, ← BitVec.toNat_inj]
  simp only [BitVec.toNat_setWidth, toNat_signExtend_mod]

theorem toLE_signExtend (v : BitVec 32) : toLE 4 (v.signExtend 64).toNat = toLE 4 v.toNat := by
  refine toLE_congr ?_
  rw [show 256 ^ 4 = 2 ^ 32 by rfl, toNat_signExtend_mod, Nat.mod_eq_of_lt v.isLt]

section Arms

variable {c : Prop} [Decidable c]

/-- `48 C7 /0` zero-extends its immediate. -/
theorem sound_movImmArm {dst : Reg} (hd : Cpu.holds dst = true)
    (hdec : c → ∀ code, Begins b code →
      decode code = some (.movImm .qword (.reg dst) (imm32 code 3), 7)) :
    Sound base b (movImmArm base c dst : Interp ω (Option Bool)) := by
  intro g stop g' hb h
  obtain ⟨hc, h⟩ := arm_eq_some.mp h
  obtain ⟨hp, h⟩ := bind_ripPlus_eq_ok.mp h
  obtain ⟨v, hv, h⟩ := bind_reading_eq_ok.mp h
  obtain ⟨⟨-, rfl⟩, -⟩ := assign_eq_ok.mp h
  refine explained_of_conforms (hdec hc _ hb) ?_
  rw [readU32_nextRip hp hv, AsArchitecture, ← setWidth_eq_signExtend]
  constructor
  · intro h
    have h := congrFun (h fun _ ↦ 0).1 dst
    rw [regs_arch, Guest.assigned, regs_rip, Cpu.regs_put _ _ hd] at h
    simpa [exec, State.write, State.writeReg, Size.merge] using h
  · intro h
    rw [h]
    exact conforms_assigned hd fun _ ↦ rfl

theorem sound_leaRipArm {dst : Reg} (hd : Cpu.holds dst = true) (hm : dst ∈ leaDsts)
    (hdec : c → ∀ code, Begins b code →
      decode code = some (.lea .qword dst ⟨none, none, imm32 code 3, true⟩, 7)) :
    Sound base b (leaRipArm base c dst : Interp ω (Option Bool)) := by
  intro g stop g' hb h
  obtain ⟨hc, h⟩ := arm_eq_some.mp h
  obtain ⟨hp, h⟩ := bind_ripPlus_eq_ok.mp h
  obtain ⟨disp, hv, h⟩ := bind_reading_eq_ok.mp h
  obtain ⟨-, h⟩ := bind_ripPlus_eq_ok.mp h
  obtain ⟨v, hv', h⟩ := bind_lift_eq_ok.mp h
  rw [bind_modifyCpu, RustM.pure_eq_ok] at h
  obtain ⟨-, rfl⟩ := h
  obtain ⟨-, rfl⟩ := Rust.addSigned_eq_ok.mp hv'
  refine explained_of_conforms (hdec hc _ hb) (iff_of_true ?_ (.inl hm))
  refine conforms_assigned hd fun ghost ↦ ?_
  rw [readI32_nextRip hp hv, exec, State.ea, BitVec.add_comm (g.nextRip 7)]
  simp

end Arms

/-! ## Arms that decode a `ModRM` byte -/

theorem toNat_modeOf (m : U8) : (modeOf m).toNat = m.toNat / 64 := by
  revert m
  decide

theorem toNat_regOf (m : U8) : (regOf m).toNat = m.toNat / 8 % 8 := by
  revert m
  decide

theorem toNat_rmOf (m : U8) : (rmOf m).toNat = m.toNat % 8 := by
  revert m
  decide

theorem mod_three (m : U8) : m &&& 0xC0 = 0xC0 → m.toNat / 64 = 3 := by
  revert m
  decide

theorem reg_cases {r : U8} (h : r.toNat < 8) :
    r = 0 ∨ r = 1 ∨ r = 2 ∨ r = 3 ∨ r = 4 ∨ r = 5 ∨ r = 6 ∨ r = 7 := by
  revert r
  decide

theorem holds_ofCode {k : ℕ} (h : k < 8) : Cpu.holds (Reg.ofCode k) = true := by
  revert k
  decide

theorem getReg64_eq (cpu : Cpu) {r : U8} (h : r.toNat < 8) :
    getReg64 cpu r = cpu.get (Reg.ofCode r.toNat) := by
  rcases reg_cases h with rfl | rfl | rfl | rfl | rfl | rfl | rfl | rfl <;> rfl

theorem setReg64_eq (cpu : Cpu) {r : U8} (h : r.toNat < 8) (v : U64) :
    setReg64 cpu r v = cpu.put (Reg.ofCode r.toNat) v := by
  rcases reg_cases h with rfl | rfl | rfl | rfl | rfl | rfl | rfl | rfl <;> rfl

theorem movLoadPut_eq (cpu : Cpu) {r : U8} (h : r.toNat < 8) (v : U64) :
    movLoadPut cpu r v = if Reg.ofCode r.toNat ∈ loadDsts then cpu.put (Reg.ofCode r.toNat) v
      else cpu := by
  rcases reg_cases h with rfl | rfl | rfl | rfl | rfl | rfl | rfl | rfl <;> rfl

theorem leaPut_eq (cpu : Cpu) {r : U8} (h : r.toNat < 8) (v : U64) :
    leaPut cpu r v = if Reg.ofCode r.toNat ∈ leaDsts then cpu.put (Reg.ofCode r.toNat) v
      else cpu := by
  rcases reg_cases h with rfl | rfl | rfl | rfl | rfl | rfl | rfl | rfl <;> rfl

theorem leaHighPut_eq (cpu : Cpu) {r : U8} (h : r.toNat < 8) (v : U64) :
    leaHighPut cpu r v = if Reg.ofCode (r.toNat + 8) ∈ leaDsts then
      cpu.put (Reg.ofCode (r.toNat + 8)) v else cpu := by
  rcases reg_cases h with rfl | rfl | rfl | rfl | rfl | rfl | rfl | rfl <;> rfl

theorem movLowPut_eq (cpu : Cpu) {r : U8} (h : r.toNat < 8) (v : U64) :
    movLowPut cpu r v = if Reg.ofCode r.toNat ∈ movDsts then cpu.put (Reg.ofCode r.toNat) v
      else cpu := by
  rcases reg_cases h with rfl | rfl | rfl | rfl | rfl | rfl | rfl | rfl <;> rfl

theorem movHighPut_eq (cpu : Cpu) {r : U8} (h : r.toNat < 8) (v : U64) :
    movHighPut cpu r v = if Reg.ofCode (r.toNat + 8) ∈ movDsts then
      cpu.put (Reg.ofCode (r.toNat + 8)) v else cpu := by
  rcases reg_cases h with rfl | rfl | rfl | rfl | rfl | rfl | rfl | rfl <;> rfl

theorem group1_eq_some {op : U8} {cur imm v : U64} (h : group1 op cur imm = some v) :
    ∃ o, AluOp.ofField op.toNat = some o ∧ v = o.apply cur imm := by
  unfold group1 at h
  split at h
  · exact ⟨.add, rfl, (Option.some_inj.mp h).symm⟩
  · exact ⟨.or, rfl, (Option.some_inj.mp h).symm⟩
  · exact ⟨.sub, rfl, (Option.some_inj.mp h).symm⟩
  · exact absurd h (by simp)

/-- The two group 1 branches: the operand is a register and `and` is not executed here. -/
theorem explained_group1Arm {m : U8} {imm : U64}
    (hdec : ∀ o, AluOp.ofField (m.toNat / 8 % 8) = some o → decode (g.code base) =
      some (.alu o .qword (.reg (Reg.ofCode (m.toNat % 8))) imm, n))
    (h : group1Arm m imm n g = .ok (some stop) g') : Explained base g g' := by
  have hr : (rmOf m).toNat < 8 := by
    rw [toNat_rmOf]
    omega
  rw [group1Arm_eq_ok] at h
  split at h
  · rename_i v hv
    obtain ⟨o, ho, rfl⟩ := group1_eq_some hv
    obtain ⟨stop, h, -⟩ := h
    obtain ⟨⟨-, rfl⟩, -⟩ := next_eq_ok.mp h
    rw [toNat_regOf] at ho
    refine explained_of_conforms (hdec o ho) (iff_of_true ?_ trivial)
    rw [getReg64_eq _ hr, setReg64_eq _ hr, toNat_rmOf, Cpu.put_rip]
    have hd := holds_ofCode (show m.toNat % 8 < 8 by omega)
    refine conforms_assigned hd fun ghost ↦ ?_
    rw [← regs_of_holds ghost hd]
    rfl
  · exact absurd h.1 (by simp)

theorem sound_aluImm8Arm : Sound base b (aluImm8Arm b : Interp ω (Option Bool)) := by
  intro g stop g' hb h
  rw [aluImm8Arm] at h
  split at h
  · rename_i hc
    obtain ⟨h0, h1, h2⟩ := hc
    refine explained_group1Arm (fun o ho ↦ ?_) h
    have h2 : (g.code base 2).toNat / 64 = 3 := by
      rw [hb 2 (by decide)]
      exact mod_three _ h2
    simp [decode, decodeOp, decodeRM_reg h2, hb _ _, h0, h1, regField, ho, imm8, extended]
  · exact absurd h (by simp)

theorem sound_aluImm32Arm : Sound base b (aluImm32Arm base b : Interp ω (Option Bool)) := by
  intro g stop g' hb h
  rw [aluImm32Arm] at h
  split at h
  · rename_i hc
    obtain ⟨h0, h1, h2⟩ := hc
    obtain ⟨hp, h⟩ := bind_ripPlus_eq_ok.mp h
    obtain ⟨imm, hv, h⟩ := bind_reading_eq_ok.mp h
    refine explained_group1Arm (fun o ho ↦ ?_) h
    have h2 : (g.code base 2).toNat / 64 = 3 := by
      rw [hb 2 (by decide)]
      exact mod_three _ h2
    rw [← readI32_nextRip hp hv]
    simp [decode, decodeOp, decodeRM_reg h2, hb _ _, h0, h1, regField, ho, extended]
  · exact absurd h (by simp)

/-- The address `[r + disp]`. -/
theorem ea_base {r : Reg} (hr : Cpu.holds r = true) (ghost : Reg → U64) (next disp : U64) :
    (g.arch base ghost).ea next ⟨some r, none, disp, false⟩ = g.cpu.get r + disp := by
  rw [← regs_of_holds ghost hr]
  simp [State.ea]

theorem toNat_lt_eight (m : U8) :
    (regOf m).toNat < 8 ∧ (rmOf m).toNat < 8 := by
  rw [toNat_regOf, toNat_rmOf]
  omega

theorem setWidth_readU32 {va : U64} {v : BitVec 32} (h : readU32 base g.mem va = .ok v) :
    v.setWidth 64 = X86.load (Window.view base g.mem) va.toNat 4 := by
  have hlt := ofLE_lt (peek (Window.view base g.mem) va.toNat 4)
  rw [length_peek] at hlt
  rw [readU32_eq_ok h, X86.load, ← BitVec.toNat_inj]
  simp only [BitVec.toNat_setWidth, BitVec.toNat_ofNat]
  omega

theorem writeReg_dword (s : State) (r : Reg) (v : BitVec 32) :
    s.writeReg .dword r (v.setWidth 64) = s.writeReg .qword r (v.setWidth 64) := by
  rw [State.writeReg, State.writeReg, Size.merge, Size.merge,
    show ((v.setWidth 64).setWidth 32).setWidth 64 = v.setWidth 64 by simp]

/-- A doubleword from `[r + disp]` goes to a register that may be skipped. -/
theorem explained_load {dst r : Reg} {disp addr rip : U64} {v : BitVec 32}
    (hr : Cpu.holds r = true) (haddr : addr = g.cpu.get r + disp)
    (hv : readU32 base g.mem addr = .ok v)
    (hdec : decode (g.code base) =
      some (.mov .dword (.reg dst) (.mem ⟨some r, none, disp, false⟩), n)) :
    Explained base g { g with cpu :=
      { (if dst ∈ loadDsts then g.cpu.put dst (v.setWidth 64) else g.cpu) with rip := rip } } := by
  have hread : ∀ ghost, (g.arch base ghost).read (g.nextRip n) .dword
      (.mem ⟨some r, none, disp, false⟩) = v.setWidth 64 := fun ghost ↦ by
    rw [setWidth_readU32 hv, haddr, ← ea_base hr ghost]
    rfl
  refine explained_of_conforms hdec ?_
  rw [AsArchitecture, hread]
  refine conforms_match (by decide) (fun ghost ↦ ?_) rip
  rw [exec, hread]
  exact writeReg_dword _ _ _

/-- Where `8B /r` reads, as the decoder has it. -/
theorem movLoadAddr_eq_ok {m disp : U8} {cpu : Cpu} {x : Rust RunError U64} {addr : U64}
    (hx : movLoadAddr cpu m disp = some x) (ha : x = .ok addr) :
    (modeOf m = 0 ∧ rmOf m ≠ 5 ∧ addr = getReg64 cpu (rmOf m)) ∨
      (modeOf m = 1 ∧ addr = getReg64 cpu (rmOf m) + disp.signExtend 64) := by
  rw [movLoadAddr] at hx
  split at hx
  · rename_i h0
    split at hx
    · exact absurd hx (by simp)
    · rename_i h5
      rw [Option.some_inj, ha, Except.ok.injEq] at hx
      exact .inl ⟨h0, h5, hx.symm⟩
  · split at hx
    · rename_i h1
      rw [Option.some_inj, ha, Rust.addSigned_eq_ok] at hx
      exact .inr ⟨h1, hx.2.symm⟩
    · exact absurd hx (by simp)

/-- `8B /r` skips `rbx`, `rsp` and `rbp`. -/
theorem sound_movLoadArm : Sound base b (movLoadArm base b : Interp ω (Option Bool)) := by
  intro g stop g' hb h
  rw [movLoadArm] at h
  split at h
  · rename_i hc
    obtain ⟨h0, h4⟩ := hc
    rw [bind_getCpu] at h
    cases hx : movLoadAddr g.cpu b[1] b[2] with
    | none => simp [hx] at h
    | some x =>
      simp only [hx] at h
      obtain ⟨addr, ha, h⟩ := bind_lift_eq_ok.mp h
      obtain ⟨v, hv, h⟩ := bind_reading_eq_ok.mp h
      rw [bind_modifyCpu, RustM.map_eq_ok] at h
      obtain ⟨stop, h, -⟩ := h
      obtain ⟨⟨-, rfl⟩, -⟩ := next_eq_ok.mp h
      have hb1 : g.code base 1 = b[1] := hb 1 (by decide)
      have hrm := toNat_rmOf b[1]
      have h4 : (g.code base 1).toNat % 8 ≠ 4 := by
        rw [hb1, ← hrm]
        exact fun h ↦ h4 (BitVec.eq_of_toNat_eq h)
      have hr := holds_ofCode (toNat_lt_eight b[1]).2
      have hget := getReg64_eq g.cpu (toNat_lt_eight b[1]).2
      rw [movLoadPut_eq _ (toNat_lt_eight b[1]).1]
      rcases movLoadAddr_eq_ok hx ha with ⟨hmod, h5, haddr⟩ | ⟨hmod, haddr⟩
      · have hm : (g.code base 1).toNat / 64 = 0 := by
          rw [hb1, ← toNat_modeOf, hmod]
          rfl
        have h5 : (g.code base 1).toNat % 8 ≠ 5 := by
          rw [hb1, ← hrm]
          exact fun h ↦ h5 (BitVec.eq_of_toNat_eq h)
        have haddr : addr = g.cpu.get (Reg.ofCode (rmOf b[1]).toNat) + 0 := by simp [haddr, hget]
        refine explained_load (n := 2) hr haddr hv ?_
        simp [decode, decodeOp, decodeRM_base hm h4 h5, hb _ _, h0, regField, extended,
          toNat_regOf, hrm]
      · have hm : (g.code base 1).toNat / 64 = 1 := by
          rw [hb1, ← toNat_modeOf, hmod]
          rfl
        refine explained_load (n := 3) hr (haddr.trans (congrArg (· + _) hget)) hv ?_
        simp [decode, decodeOp, decodeRM_disp8 hm h4, hb _ _, h0, regField, extended,
          toNat_regOf, hrm, imm8]
  · exact absurd h (by simp)

/-- The two `8D /r` branches with an eight-bit displacement skip what `put` does not know. -/
theorem sound_leaArm {rex : U8} {put : Cpu → U8 → U64 → Cpu} (ext : ℕ)
    (hput : ∀ cpu r v, r.toNat < 8 → put cpu r v =
      if Reg.ofCode (r.toNat + ext) ∈ leaDsts then cpu.put (Reg.ofCode (r.toNat + ext)) v else cpu)
    (hdec : ∀ code : ℕ → U8, code 0 = rex → code 1 = 0x8D → (code 2).toNat / 64 = 1 →
      (code 2).toNat % 8 ≠ 4 → decode code = some (.lea .qword (Reg.ofCode (regField code 2 + ext))
        ⟨some (Reg.ofCode ((code 2).toNat % 8)), none, imm8 code 3, false⟩, 4)) :
    Sound base b (leaArm rex put b : Interp ω (Option Bool)) := by
  intro g stop g' hb h
  obtain ⟨⟨h0, h1, hmod, h4⟩, h⟩ := arm_eq_some.mp h
  rw [bind_getCpu] at h
  obtain ⟨addr, ha, h⟩ := bind_lift_eq_ok.mp h
  rw [bind_modifyCpu] at h
  obtain ⟨⟨-, rfl⟩, -⟩ := next_eq_ok.mp h
  have hb2 : g.code base 2 = b[2] := hb 2 (by decide)
  have hm : (g.code base 2).toNat / 64 = 1 := by
    rw [hb2, ← toNat_modeOf, hmod]
    rfl
  have h4 : (g.code base 2).toNat % 8 ≠ 4 := by
    rw [hb2, ← toNat_rmOf]
    exact fun h ↦ h4 (BitVec.eq_of_toNat_eq h)
  have hdec := hdec _ ((hb 0 (by decide)).trans h0) ((hb 1 (by decide)).trans h1) hm h4
  have hr := holds_ofCode (toNat_lt_eight b[2]).2
  obtain ⟨-, rfl⟩ := Rust.addSigned_eq_ok.mp ha
  have haddr : ∀ ghost, (g.arch base ghost).ea (g.nextRip 4)
      ⟨some (Reg.ofCode ((g.code base 2).toNat % 8)), none, imm8 (g.code base) 3, false⟩ =
        getReg64 g.cpu (rmOf b[2]) + b[3].signExtend 64 := fun ghost ↦ by
    rw [hb2, ← toNat_rmOf, ea_base hr, ← getReg64_eq _ (toNat_lt_eight b[2]).2, imm8,
      hb 3 (by decide)]
  have hreg : regField (g.code base) 2 = (regOf b[2]).toNat := by
    rw [regField, hb2, toNat_regOf]
  refine explained_of_conforms hdec ?_
  rw [AsArchitecture, haddr, hreg, hput _ _ _ (toNat_lt_eight b[2]).1]
  refine conforms_match (by decide) (fun ghost ↦ ?_) _
  rw [exec, haddr]

/-- A doubleword immediate goes to a register that may be skipped. -/
theorem explained_movImm {dst : Reg} {rip : U64} {p : ℕ} {v : BitVec 32}
    (hp : g.cpu.rip.toNat + p < 2 ^ 64) (hv : readU32 base g.mem (g.nextRip p) = .ok v)
    (hdec : decode (g.code base) = some (.movImm .dword (.reg dst) (imm32 (g.code base) p), n)) :
    Explained base g { g with cpu :=
      { (if dst ∈ movDsts then g.cpu.put dst (v.setWidth 64) else g.cpu) with rip := rip } } := by
  refine explained_of_conforms hdec ?_
  rw [AsArchitecture, readU32_nextRip hp hv, truncate_signExtend]
  refine conforms_match (by decide) (fun ghost ↦ ?_) rip
  rw [← writeReg_dword, ← truncate_signExtend]
  simp [exec, State.write, State.writeReg, Size.merge, Size.truncate]

theorem toNat_sub_B8 {m : U8} : 0xB8 ≤ m ∧ m ≤ 0xBF →
    (m - 0xB8).toNat = m.toNat - 0xB8 ∧ 0xB8 ≤ m.toNat ∧ m.toNat < 0xC0 := by
  rintro ⟨hlo, hhi⟩
  have hlo : 184 ≤ m.toNat := hlo
  have hhi : m.toNat ≤ 191 := hhi
  refine ⟨?_, hlo, by omega⟩
  rw [BitVec.toNat_sub_of_le hlo]
  rfl

/-- `B8+r` skips `rbx`. -/
theorem sound_movLowArm : Sound base b (movLowArm base b : Interp ω (Option Bool)) := by
  intro g stop g' hb h
  obtain ⟨hc, h⟩ := arm_eq_some.mp h
  obtain ⟨hp, h⟩ := bind_ripPlus_eq_ok.mp h
  obtain ⟨v, hv, h⟩ := bind_reading_eq_ok.mp h
  rw [bind_modifyCpu] at h
  obtain ⟨⟨-, rfl⟩, -⟩ := next_eq_ok.mp h
  obtain ⟨hsub, hlo, hhi⟩ := toNat_sub_B8 hc
  rw [movLowPut_eq _ (by omega)]
  refine explained_movImm (n := 5) hp hv ?_
  have hb0 : g.code base 0 = b[0] := hb 0 (by decide)
  rw [decode, if_neg (by rw [hb0]; omega), decodeOp_movImm rfl (by rwa [hb0]) (by rwa [hb0]), hb0,
    hsub]
  simp [extended]

/-- `41 B8+r` skips `r10` and above. -/
theorem sound_movHighArm : Sound base b (movHighArm base b : Interp ω (Option Bool)) := by
  intro g stop g' hb h
  obtain ⟨⟨h0, hc⟩, h⟩ := arm_eq_some.mp h
  obtain ⟨hp, h⟩ := bind_ripPlus_eq_ok.mp h
  obtain ⟨v, hv, h⟩ := bind_reading_eq_ok.mp h
  rw [bind_modifyCpu] at h
  obtain ⟨⟨-, rfl⟩, -⟩ := next_eq_ok.mp h
  obtain ⟨hsub, hlo, hhi⟩ := toNat_sub_B8 hc
  rw [movHighPut_eq _ (by omega)]
  refine explained_movImm (n := 6) hp hv ?_
  have hb0 : g.code base 0 = 0x41 := (hb 0 (by decide)).trans h0
  have hb1 : g.code base 1 = b[1] := hb 1 (by decide)
  rw [decode, hb0, if_pos (by decide), decodeOp_movImm rfl (by rwa [hb1]) (by rwa [hb1]), hb1,
    hsub]
  simp [extended]

/-! ### Stores -/

/-- A store of a doubleword at `[r + disp]`. -/
theorem explained_store {r : Reg} {disp addr rip : U64} {p : ℕ} {v : BitVec 32} {mem : List U8}
    (hr : Cpu.holds r = true) (haddr : addr = g.cpu.get r + disp)
    (hp : g.cpu.rip.toNat + p < 2 ^ 64) (hv : readU32 base g.mem (g.nextRip p) = .ok v)
    (hw : writeU32 base g.mem addr v = .ok mem)
    (hdec : decode (g.code base) = some (.movImm .dword (.mem ⟨some r, none, disp, false⟩)
      (imm32 (g.code base) p), n)) :
    Explained base g { g with cpu := { g.cpu with rip := rip }, mem := mem } := by
  refine explained_of_conforms hdec (iff_of_true (fun ghost ↦ ⟨regs_rip _ _ _, ?_⟩) trivial)
  rw [mem_arch, view_write hw, haddr, ← ea_base hr ghost (g.nextRip n), ← toLE_signExtend,
    ← readU32_nextRip hp hv]
  rfl

theorem decode_storeImm {code : ℕ → U8} (hb : Begins b code)
    (hc : b.get 0 = 0xC7 ∧ regOf (b.get 1) = 0 ∧ modeOf (b.get 1) = 0x01 ∧ rmOf (b.get 1) ≠ 0x04) :
    decode code = some (.movImm .dword (.mem ⟨some (Reg.ofCode (rmOf (b.get 1)).toNat), none,
      (b.get 2).signExtend 64, false⟩) (imm32 code 3), 7) := by
  obtain ⟨h0, hreg, hmod, h4⟩ := hc
  have hcode : code 0 = 0xC7 := (hb 0 (by decide)).trans h0
  have hb1 : code 1 = b.get 1 := hb 1 (by decide)
  have hb2 : code 2 = b.get 2 := hb 2 (by decide)
  have hm : (code 1).toNat / 64 = 1 := by
    rw [hb1, ← toNat_modeOf, hmod]
    rfl
  have hrm : (code 1).toNat % 8 = (rmOf (b.get 1)).toNat := by
    rw [hb1, ← toNat_rmOf]
  have h4 : (code 1).toNat % 8 ≠ 4 := by
    rw [hrm]
    exact fun h ↦ h4 (BitVec.eq_of_toNat_eq h)
  have hreg : regField code 1 = 0 := by
    rw [regField, hb1, ← toNat_regOf, hreg]
    rfl
  simp [decode, decodeOp, decodeRM_disp8 hm h4, hcode, hb2, hreg, hrm, extended, imm8]

theorem decode_storeImmSp {code : ℕ → U8} (hb : Begins b code)
    (hc : b.get 0 = 0xC7 ∧ regOf (b.get 1) = 0 ∧ modeOf (b.get 1) = 0x01 ∧
      rmOf (b.get 1) = 0x04 ∧ b.get 2 = 0x24) :
    decode code = some (.movImm .dword (.mem ⟨some .rsp, none, (b.get 3).signExtend 64, false⟩)
      (imm32 code 4), 8) := by
  obtain ⟨h0, hreg, hmod, hrm, h2⟩ := hc
  have hcode : code 0 = 0xC7 := (hb 0 (by decide)).trans h0
  have hb1 : code 1 = b.get 1 := hb 1 (by decide)
  have hsib : code 2 = 0x24 := (hb 2 (by decide)).trans h2
  have hb3 : code 3 = b.get 3 := hb 3 (by decide)
  have hm : (b.get 1).toNat / 64 = 1 := by
    rw [← toNat_modeOf, hmod]
    rfl
  have hrm : (b.get 1).toNat % 8 = 4 := by
    rw [← toNat_rmOf, hrm]
    rfl
  have hreg : (b.get 1).toNat / 8 % 8 = 0 := by
    rw [← toNat_regOf, hreg]
    rfl
  simp [decode, decodeOp, decodeRM, decodeDisp, hcode, hb1, hsib, hb3, hm, hrm, hreg, regField,
    extended, Reg.ofCode, imm8]

theorem sound_storeImmArm : Sound base b (storeImmArm base b : Interp ω (Option Bool)) := by
  intro g stop g' hb h
  obtain ⟨hc, h⟩ := arm_eq_some.mp h
  rw [bind_getCpu] at h
  obtain ⟨addr, ha, h⟩ := bind_lift_eq_ok.mp h
  obtain ⟨hp, h⟩ := bind_ripPlus_eq_ok.mp h
  obtain ⟨v, hv, h⟩ := bind_reading_eq_ok.mp h
  obtain ⟨mem, hw, h⟩ := bind_writing_eq_ok.mp h
  obtain ⟨⟨-, rfl⟩, -⟩ := next_eq_ok.mp h
  have haddr := (Rust.addSigned_eq_ok.mp ha).2.symm
  rw [getReg64_eq _ (toNat_lt_eight b[1]).2] at haddr
  exact explained_store (n := 7) (holds_ofCode (toNat_lt_eight b[1]).2) haddr hp hv hw
    (decode_storeImm hb hc)

theorem sound_storeImmSpArm : Sound base b (storeImmSpArm base b : Interp ω (Option Bool)) := by
  intro g stop g' hb h
  obtain ⟨hc, h⟩ := arm_eq_some.mp h
  rw [bind_getCpu] at h
  obtain ⟨addr, ha, h⟩ := bind_lift_eq_ok.mp h
  obtain ⟨hp, h⟩ := bind_ripPlus_eq_ok.mp h
  obtain ⟨v, hv, h⟩ := bind_reading_eq_ok.mp h
  obtain ⟨mem, hw, h⟩ := bind_writing_eq_ok.mp h
  obtain ⟨⟨-, rfl⟩, -⟩ := next_eq_ok.mp h
  have haddr := (Rust.addSigned_eq_ok.mp ha).2.symm
  exact explained_store (n := 8) (r := .rsp) rfl haddr hp hv hw (decode_storeImmSp hb hc)

/-! ## Every arm -/

/-- `mov [rdx + rax*8 + 8], rdi`. -/
theorem sound_storeRdi {c : Prop} [Decidable c] {a : Addr}
    (hdec : c → ∀ code, Begins b code → decode code = some (.mov .qword (.mem a) (.reg .rdi), n))
    (hea : ∀ (g : Guest ω) ghost, (g.arch base ghost).ea (g.nextRip n) a = rdxRax8 g.cpu) :
    Sound base b (arm c (do
      let cpu ← getCpu
      writing fun mem ↦ writeU64 base mem (rdxRax8 cpu) cpu.rdi
      next n) : Interp ω (Option Bool)) := by
  intro g stop g' hb h
  obtain ⟨hc, h⟩ := arm_eq_some.mp h
  rw [bind_getCpu] at h
  obtain ⟨mem, hw, h⟩ := bind_writing_eq_ok.mp h
  obtain ⟨⟨-, rfl⟩, -⟩ := next_eq_ok.mp h
  refine explained_of_conforms (hdec hc _ hb)
    (iff_of_true (fun ghost ↦ ⟨regs_rip _ _ _, ?_⟩) trivial)
  rw [mem_arch, view_write hw, ← hea g ghost]
  rfl

/-- `lea r9, [rsp + disp8]`. -/
theorem sound_leaR9 {c : Prop} [Decidable c] {d : U8}
    (hdec : c → ∀ code, Begins b code → decode code =
      some (.lea .qword .r9 ⟨some .rsp, none, d.signExtend 64, false⟩, n)) :
    Sound base b (arm c (do
      let v ← RustM.lift (Rust.addSigned (← getCpu).rsp (d.signExtend 64))
      assign .r9 v n) : Interp ω (Option Bool)) := by
  intro g stop g' hb h
  obtain ⟨hc, h⟩ := arm_eq_some.mp h
  rw [bind_getCpu] at h
  obtain ⟨v, hv, h⟩ := bind_lift_eq_ok.mp h
  obtain ⟨-, rfl⟩ := Rust.addSigned_eq_ok.mp hv
  obtain ⟨⟨-, rfl⟩, -⟩ := assign_eq_ok.mp h
  refine explained_of_conforms (hdec hc _ hb) (iff_of_true ?_ (.inl (by decide)))
  refine conforms_assigned rfl fun ghost ↦ ?_
  rw [exec, ea_base rfl]
  rfl

theorem load_one (m : ℕ → U8) (a : ℕ) : X86.load m a 1 = (m a).setWidth 64 := by
  rw [X86.load, ← BitVec.toNat_inj]
  simp [peek, ofLE]

theorem and_ff (v : U8) : v.setWidth 64 &&& 0xff = (v.setWidth 64 : U64) := by
  revert v
  decide

/-- `mov al, [r9 + r8 - 1]`: the other bytes of `rax` are kept. -/
theorem sound_movAl {c : Prop} [Decidable c]
    (hdec : c → ∀ code, Begins b code → decode code = some (.mov .byte (.reg .rax)
      (.mem ⟨some .r9, some (.r8, 1), -1, false⟩), n)) :
    Sound base b (arm c (do
      let cpu ← getCpu
      let v ← reading fun mem ↦ readU8 base mem (cpu.r9 + cpu.r8 - 1)
      modifyCpu (setAl · v)
      next n) : Interp ω (Option Bool)) := by
  intro g stop g' hb h
  obtain ⟨hc, h⟩ := arm_eq_some.mp h
  rw [bind_getCpu] at h
  obtain ⟨v, hv, h⟩ := bind_reading_eq_ok.mp h
  rw [bind_modifyCpu] at h
  obtain ⟨⟨-, rfl⟩, -⟩ := next_eq_ok.mp h
  refine explained_of_conforms (hdec hc _ hb)
    (iff_of_true (fun ghost ↦ ⟨?_, rfl⟩) trivial)
  have hea : (g.arch base ghost).ea (g.nextRip n) ⟨some .r9, some (.r8, 1), -1, false⟩ =
      g.cpu.r9 + g.cpu.r8 - 1 := by
    show g.cpu.r9 + g.cpu.r8 * BitVec.ofNat 64 1 + -1 + 0 = _
    rw [BitVec.sub_eq_add_neg]
    simp
  have hload : X86.load (Window.view base g.mem) (g.cpu.r9 + g.cpu.r8 - 1).toNat 1 &&& 0xff =
      v.setWidth 64 := by
    rw [readU8_eq_ok hv, load_one]
    exact and_ff _
  rw [regs_arch, regs_rip]
  refine (Cpu.regs_put g.cpu ghost (r := .rax) rfl _).trans ?_
  rw [← hload, ← hea]
  rfl

theorem ea_rdxRax8 (ghost : Reg → U64) (next : U64) :
    (g.arch base ghost).ea next ⟨some .rdx, some (.rax, 8), 8, false⟩ = rdxRax8 g.cpu :=
  BitVec.add_zero _

theorem sound_lea48 : Sound base b (leaArm 0x48 leaPut b : Interp ω (Option Bool)) := by
  refine sound_leaArm 0 (fun cpu r v h ↦ leaPut_eq cpu h v) fun code h0 h1 hm h4 ↦ ?_
  simp [decode, decodeOp, decodeRM_disp8 hm h4, h0, h1, extended]

theorem sound_lea4C : Sound base b (leaArm 0x4C leaHighPut b : Interp ω (Option Bool)) := by
  refine sound_leaArm 8 (fun cpu r v h ↦ leaHighPut_eq cpu h v) fun code h0 h1 hm h4 ↦ ?_
  simp [decode, decodeOp, decodeRM_disp8 hm h4, h0, h1, extended]

theorem exec_movsxd (g : Guest ω) (ghost : Reg → U64) (next : U64) :
    exec next (g.arch base ghost) (.movsxd .rax (.reg .rsi)) =
      (g.arch base ghost).writeReg .qword .rax ((g.cpu.rsi.setWidth 32).signExtend 64) := by
  rw [exec, State.read, regs_arch, regs_of_holds ghost rfl, Cpu.get, Size.truncate,
    BitVec.setWidth_setWidth_of_le _ (by decide), BitVec.setWidth_eq]

theorem exec_cmovns (g : Guest ω) (ghost : Reg → U64) (next : U64) :
    exec next (g.arch base ghost) (.cmovns .qword .rdx (.reg .rax)) =
      (g.arch base ghost).writeReg .qword .rdx (if !g.cpu.sf then g.cpu.rax else g.cpu.rdx) := by
  rw [exec, show (g.arch base ghost).sf = g.cpu.sf from rfl]
  cases g.cpu.sf <;> rfl

section Decode

attribute [local simp] decode decodeOp decodeRM decodeDisp regField extended Reg.ofCode
  AluOp.ofField imm8 Control

/-- **Every arm of the chain is sound.**  The lemmas stand in the order of the arms; what is left
of each is that its bytes decode to the instruction it executes. -/
theorem arms_sound {syscall : Interp ω Bool} : ∀ a ∈ arms syscall base b, Sound base b a := by
  simp only [arms, List.forall_mem_cons]
  refine ⟨sound_control ?_, sound_control ?_, sound_control (Or.rec ?_ ?_), sound_pushArm rfl ?_,
    sound_popArm rfl ?_, sound_pushArm rfl ?_, sound_popArm rfl ?_, sound_pushArm rfl ?_,
    sound_popArm rfl ?_, sound_setArm (i := .movsxd .rax (.reg .rsi)) rfl (fun _ ↦ trivial) ?_
      fun g ghost ↦ exec_movsxd g ghost _,
    sound_movArm rfl rfl ?_, sound_pushArm rfl ?_, sound_popArm rfl ?_,
    sound_leaSetArm ⟨some .rdx, some (.rax, 8), 8, false⟩ rfl (by decide) ?_
      fun g ghost ↦ ea_rdxRax8 ghost _,
    sound_storeRdi ?_ fun g ghost ↦ ea_rdxRax8 ghost _,
    sound_loadArm rfl ?_ fun g ghost ↦ ea_rdxRax8 ghost _,
    sound_movArm rfl rfl ?_, sound_movArm rfl rfl ?_, sound_movArm rfl rfl ?_,
    sound_aluImm8Arm, sound_aluImm32Arm, sound_movArm rfl rfl ?_, sound_movArm rfl rfl ?_,
    sound_movArm rfl rfl ?_, sound_movArm rfl rfl ?_, sound_movArm rfl rfl ?_,
    sound_movArm rfl rfl ?_, sound_zeroArm .qword (by decide) rfl ?_, sound_movArm rfl rfl ?_,
    sound_movLoadArm, sound_lea48, sound_lea4C,
    sound_loadArm (a := ⟨some .rdi, none, 0, false⟩) rfl ?_
      fun g ghost ↦ (ea_base rfl ghost _ _).trans (BitVec.add_zero _),
    sound_leaSetArm ⟨some .rdi, none, 8, false⟩ rfl (by decide) ?_
      fun g ghost ↦ ea_base rfl ghost _ _,
    sound_movArm rfl rfl ?_, sound_movArm rfl rfl ?_, sound_movArm rfl rfl ?_,
    sound_movArm rfl rfl ?_,
    sound_setArm (i := .alu .and .qword (.reg .rsp) (b[3].signExtend 64)) rfl (fun _ ↦ trivial)
      ?_ fun g ghost ↦ rfl,
    sound_leaR9 ?_, sound_pushArm rfl ?_, sound_pushArm rfl ?_, sound_popArm rfl ?_,
    sound_zeroArm .dword (by decide) rfl ?_, sound_zeroArm .dword (by decide) rfl ?_,
    sound_zeroArm .dword (by decide) rfl ?_, sound_zeroArm .dword (by decide) rfl ?_,
    sound_zeroArm .dword (by decide) rfl ?_, sound_zeroArm .dword (by decide) rfl ?_,
    sound_zeroArm .dword (by decide) rfl ?_, sound_zeroArm .dword (by decide) rfl ?_,
    sound_control ?_, sound_control ?_,
    sound_setArm (i := .cmovns .qword .rdx (.reg .rax)) rfl (fun _ ↦ trivial) ?_
      fun g ghost ↦ exec_cmovns g ghost _,
    sound_movAl ?_,
    sound_leaSetArm ⟨some .rdx, none, -1, false⟩ rfl (by decide) ?_
      fun g ghost ↦ (ea_base rfl ghost _ _).trans (BitVec.sub_eq_add_neg _ _).symm,
    sound_control ?_, sound_movImmArm rfl ?_, sound_movImmArm rfl ?_, sound_movImmArm rfl ?_,
    sound_movImmArm rfl ?_, sound_movHighArm, sound_movLowArm,
    sound_leaRipArm rfl (by decide) ?_, sound_leaRipArm rfl (by decide) ?_,
    sound_leaRipArm rfl (by decide) ?_, sound_leaRipArm rfl (by decide) ?_,
    sound_storeImmArm, sound_storeImmSpArm, sound_control ?_, sound_control ?_, sound_control ?_,
    sound_control ?_, sound_control ?_, sound_control ?_, List.forall_mem_nil _⟩
  all_goals
    rintro h code hb
    simp [hb _ _, h]

end Decode

/-- **Data effects of a step.**  A completed step whose bytes are an instruction of the subset
leaves the registers and the memory the architecture defines exactly when the operands are
`AsArchitecture`; the other bytes that are accepted move no data. -/
theorem execOne_conforms_iff {syscall : Interp ω Bool}
    (h : execOne syscall base g = .ok stop g') :
    (decode (g.code base) = none → Control (g.code base)) ∧
      ∀ i n, decode (g.code base) = some (i, n) →
        (Conforms base g g' i n ↔ AsArchitecture base g n i) := by
  obtain ⟨b, hb, a, ha, h⟩ := execOne_eq_ok h
  exact arms_sound a ha g stop g' (fun k hk ↦ (hb k hk).symm) h

/-- `mov ebx, 1` at the start of a program. -/
def movEbxOne : Guest Unit where
  cpu := .start 0x400010 0x400000
  mem := [0xBB, 0x01, 0x00, 0x00, 0x00, 0xC3]
  os := ()

set_option maxRecDepth 4000 in
theorem execOne_movEbxOne : execOne (pure true) 0x400000 movEbxOne =
    .ok false { movEbxOne with cpu := .start 0x400010 0x400005 } := by
  rfl

set_option maxRecDepth 4000 in
theorem decode_movEbxOne :
    decode (movEbxOne.code 0x400000) = some (.movImm .dword (.reg .rbx) 1, 5) := by
  rfl

/-- The destination is skipped and the step succeeds. -/
theorem movEbxOne_not_conforms :
    ∃ g', execOne (pure true) 0x400000 movEbxOne = .ok false g' ∧
      decode (movEbxOne.code 0x400000) = some (.movImm .dword (.reg .rbx) 1, 5) ∧
      ¬Conforms 0x400000 movEbxOne g' (.movImm .dword (.reg .rbx) 1) 5 := by
  refine ⟨_, execOne_movEbxOne, decode_movEbxOne, fun h ↦ ?_⟩
  exact absurd (congrFun (h fun _ ↦ 0).1 .rbx) (by decide)

theorem execOne_conforms_iff_movEbxOne :
    Conforms 0x400000 movEbxOne { movEbxOne with cpu := .start 0x400010 0x400005 }
        (.movImm .dword (.reg .rbx) 1) 5 ↔
      AsArchitecture 0x400000 movEbxOne 5 (.movImm .dword (.reg .rbx) 1) :=
  (execOne_conforms_iff execOne_movEbxOne).2 _ _ decode_movEbxOne

end LeonOS
