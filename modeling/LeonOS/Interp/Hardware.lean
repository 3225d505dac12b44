import LeonOS.Interp.Flags
import LeonOS.Interp.Account
import LeonOS.Lib.Core

/-!
# Interpreted runs as runs of the hardware

The interpreter's state as a core that runs programs (`Guest.core`), with an arbitrary value for
each register that the `Cpu` does not keep.  A step that is no system call and after which the
program goes on is the step of that core exactly if it is `Faithful`: its operands are
`AsArchitecture`, it holds the flags, and it is no call that is skipped (`hardwareMove_iff`).  So
between two system calls a run of faithful steps is as many instructions of the hardware, and where
no system call ends it, it ends at a `ret` or a `hlt` (`runs_on_hardware`).

The instructions that move data are those of `Interp.Conform`, and where `rip` goes behind them is
known from `Interp.Cases`.  For each of the others there is one lemma that says what the step does.
-/

set_option autoImplicit false

namespace LeonOS

open Bytes X86 RustM

section Control

variable {ω : Type} {g g' : Guest ω} {base : U64} {stop : Bool} {syscall : Interp ω Bool}

/-! ## The statement -/

/-- The interpreter's state as a core. -/
def Guest.core (g : Guest ω) (base : U64) (ghost : Reg → U64) : Core where
  regs := g.cpu.regs ghost
  mem := Window.view base g.mem
  flags := g.cpu.flags
  rip := g.cpu.rip

/-- The call through a pointer at `rip` is skipped: the pointer leads out of memory and `rdi` does
not. -/
def SkipsCall (base : U64) (g : Guest ω) : Prop :=
  g.code base 0 = 0xFF ∧ g.code base 1 = 0x15 ∧
    ∃ target, readU64 base g.mem (g.nextRip 6 + imm32 (g.code base) 2) = .ok target ∧
      isOutside base g.mem target = .ok true ∧ isInside base g.mem g.cpu.rdi = .ok true

/-! ## Steps that are no instruction of `decode` -/

section Chain

attribute [local simp] arms setArm movArm zeroArm pushArm popArm loadArm movImmArm leaRipArm testArm
  leaArm movHighArm movLowArm storeImmArm storeImmSpArm jmpArm jmpShortArm jeArm
  aluImm8Arm aluImm32Arm movLoadArm firstArm_none firstArm_arm_of_not firstArm_arm_of

theorem execOne_endbr64 (h0 : g.code base 0 = 0xF3) (h1 : g.code base 1 = 0x0F)
    (h2 : g.code base 2 = 0x1E) (h3 : g.code base 3 = 0xFA) :
    execOne syscall base g = next 4 g := by
  obtain ⟨b, hb, hx⟩ := execOne_of_code syscall (by rw [h0]; decide)
  have h0 : b[0] = 0xF3 := (hb 0 (by decide)).trans h0
  have h1 : b[1] = 0x0F := (hb 1 (by decide)).trans h1
  have h2 : b[2] = 0x1E := (hb 2 (by decide)).trans h2
  have h3 : b[3] = 0xFA := (hb 3 (by decide)).trans h3
  rw [hx]
  simp [h0, h1, h2, h3]

theorem execOne_nop (h : g.code base 0 = 0x90) : execOne syscall base g = next 1 g := by
  obtain ⟨b, hb, hx⟩ := execOne_of_code syscall (by rw [h]; decide)
  have h0 : b[0] = 0x90 := (hb 0 (by decide)).trans h
  rw [hx]
  simp [h0]

theorem execOne_hlt (h : g.code base 0 = 0xF4) : execOne syscall base g = .ok true g := by
  obtain ⟨b, hb, hx⟩ := execOne_of_code syscall (by rw [h]; decide)
  have h0 : b[0] = 0xF4 := (hb 0 (by decide)).trans h
  rw [hx]
  simp [h0]

theorem execOne_test {r : Reg} (h0 : g.code base 0 = 0x48) (h1 : g.code base 1 = 0x85)
    (h2 : g.code base 2 = 0xC0 ∧ r = .rax ∨ g.code base 2 = 0xD2 ∧ r = .rdx) :
    execOne syscall base g = (do
      modifyCpu fun cpu ↦ { cpu with zf := cpu.get r = 0, sf := (cpu.get r).msb }
      next 3 : Interp ω Bool) g := by
  obtain ⟨b, hb, hx⟩ := execOne_of_code syscall (by rw [h0]; decide)
  have h0 : b[0] = 0x48 := (hb 0 (by decide)).trans h0
  have h1 : b[1] = 0x85 := (hb 1 (by decide)).trans h1
  rw [hx]
  rcases h2 with ⟨h2, rfl⟩ | ⟨h2, rfl⟩
  · have h2 : b[2] = 0xC0 := (hb 2 (by decide)).trans h2
    simp [h0, h1, h2]
  · have h2 : b[2] = 0xD2 := (hb 2 (by decide)).trans h2
    simp [h0, h1, h2]

theorem execOne_cmpAl (h : g.code base 0 = 0x3C) : execOne syscall base g = (do
    modifyCpu fun cpu ↦ { cpu with
      zf := getAl cpu = g.code base 1, sf := (getAl cpu - g.code base 1).msb }
    next 2 : Interp ω Bool) g := by
  obtain ⟨b, hb, hx⟩ := execOne_of_code syscall (by rw [h]; decide)
  have h0 : b[0] = 0x3C := (hb 0 (by decide)).trans h
  rw [hx, ← hb 1 (by decide)]
  simp [h0]

theorem execOne_jmp (h : g.code base 0 = 0xE9) : execOne syscall base g = (do
    let va ← ripPlus 1
    let rel ← reading fun mem ↦ readI32 base mem va
    let nextRip ← ripPlus 5
    jump nextRip rel : Interp ω Bool) g := by
  obtain ⟨b, hb, hx⟩ := execOne_of_code syscall (by rw [h]; decide)
  have h0 : b[0] = 0xE9 := (hb 0 (by decide)).trans h
  rw [hx]
  simp [h0]

theorem execOne_jmpShort (h : g.code base 0 = 0xEB) : execOne syscall base g = (do
    let nextRip ← ripPlus 2
    jump nextRip (imm8 (g.code base) 1) : Interp ω Bool) g := by
  obtain ⟨b, hb, hx⟩ := execOne_of_code syscall (by rw [h]; decide)
  have h0 : b[0] = 0xEB := (hb 0 (by decide)).trans h
  rw [hx, imm8, ← hb 1 (by decide)]
  simp [h0]

theorem execOne_je (h : g.code base 0 = 0x74) : execOne syscall base g = (do
    let nextRip ← ripPlus 2
    if (← getCpu).zf then jump nextRip (imm8 (g.code base) 1)
    else
      modifyCpu ({ · with rip := nextRip })
      return false : Interp ω Bool) g := by
  obtain ⟨b, hb, hx⟩ := execOne_of_code syscall (by rw [h]; decide)
  have h0 : b[0] = 0x74 := (hb 0 (by decide)).trans h
  rw [hx, imm8, ← hb 1 (by decide)]
  simp [h0]

end Chain

end Control

section Moves

variable {run : Run} {tmp : StackSlot} {base : U64} {g g' : Guest Os} {n : ℕ}

/-- **The step at `rip` is one of the hardware**: its operands are, the flags that its result has
are there already, and it is no call that is skipped. -/
structure Faithful (base : U64) (g : Guest Os) : Prop where
  /-- An immediate is not to be sign-extended, and no destination is skipped. -/
  operands : ∀ i n, decode (g.code base) = some (i, n) → AsArchitecture base g n i
  /-- The flags of the result are those there are. -/
  flags : ∀ ghost i n fl, decode (g.code base) = some (i, n) →
    i.flags (g.nextRip n) (g.arch base ghost) = some fl → fl = g.cpu.flags
  /-- The call goes where its pointer leads. -/
  call : ¬SkipsCall base g

/-- The step from `g` to `g'` is the one of the hardware, whatever the registers hold that the `Cpu`
does not keep. -/
def HardwareMove (base : U64) (g g' : Guest Os) : Prop :=
  ∀ ghost, (g.core base ghost).step = some (g'.core base ghost)

/-! ## Instructions that move data -/

theorem decode_of_transfers {code : ℕ → U8} (h : Transfers code) : decode code = none := by
  rcases h with h | ⟨h, -⟩
  · simp only [List.mem_cons, List.not_mem_nil, or_false] at h
    rcases h with h | h | h | h | h | h <;> simp [decode, decodeOp, h]
  · simp [decode, decodeOp, h]

/-- Behind an instruction of `decode` the program goes on with the next one. -/
theorem rip_of_decode {i : Instr} {stop : Bool} (hdec : decode (g.code base) = some (i, n))
    (h : execOne (handleSyscall run tmp base) base g = .ok stop g') :
    g'.cpu.rip = g.nextRip n := by
  have hlen := length_of_decode hdec
  have hnone {P : Prop} (h : decode (g.code base) = none) : P := by
    rw [hdec] at h
    cases h
  cases execOne_cases h with
  | registers n' hplain hadv _ =>
    obtain rfl := Option.some_inj.mp (hplain.length.symm.trans hlen)
    exact hadv.rip
  | compare n' c hcmp _ _ => exact hnone (decode_of_decodeCompare hcmp)
  | store n' va bs hplain _ _ hrip _ _ =>
    obtain rfl := Option.some_inj.mp (hplain.length.symm.trans hlen)
    exact hrip
  | transfer htransfers _ _ _ => exact hnone (decode_of_transfers htransfers)
  | syscall h0 h1 _ _ _ _ => exact hnone (decode_of_isSyscall ⟨h0, h1⟩)

theorem data_iff {i : Instr} {stop : Bool} (hdec : decode (g.code base) = some (i, n))
    (h : execOne (handleSyscall run tmp base) base g = .ok stop g') (ghost : Reg → U64) :
    (g.core base ghost).step = some (g'.core base ghost) ↔
      ((g'.arch base ghost).regs = (exec (g.nextRip n) (g.arch base ghost) i).regs ∧
        (g'.arch base ghost).mem = (exec (g.nextRip n) (g.arch base ghost) i).mem) ∧
      (i.flags (g.nextRip n) (g.arch base ghost)).getD g.cpu.flags = g.cpu.flags := by
  have hflags : g'.cpu.flags = g.cpu.flags := by
    rw [execOne_flags h, decodeCompare_of_decode hdec]
  rw [Core.step_data (c := g.core base ghost) hdec, Option.some_inj, Core.ext_iff]
  constructor
  · rintro ⟨hregs, hmem, hfl, -⟩
    exact ⟨⟨hregs.symm, hmem.symm⟩, hfl.trans hflags⟩
  · rintro ⟨⟨hregs, hmem⟩, hfl⟩
    exact ⟨hregs.symm, hmem.symm, hfl.trans hflags.symm, (rip_of_decode hdec h).symm⟩

theorem hardwareMove_data_iff {i : Instr} {stop : Bool} (hdec : decode (g.code base) = some (i, n))
    (h : execOne (handleSyscall run tmp base) base g = .ok stop g') :
    HardwareMove base g g' ↔ Faithful base g := by
  have hnone : decode (g.code base) ≠ none := by simp [hdec]
  simp only [HardwareMove, data_iff hdec h, forall_and]
  obtain ⟨b, hb, a, ha, harm⟩ := execOne_eq_ok h
  have hsound := (arms_sound a ha g stop g' (fun k hk ↦ (hb k hk).symm) harm).2 i n hdec
  rw [← forall_and, show (∀ ghost, _ ∧ _) ↔ Conforms base g g' i n from .rfl, hsound]
  constructor
  · rintro ⟨hop, hfl⟩
    refine ⟨fun i' n' hdec' ↦ ?_, fun ghost i' n' fl hdec' hi ↦ ?_, fun hskip ↦ ?_⟩
    · cases hdec.symm.trans hdec'
      exact hop
    · cases hdec.symm.trans hdec'
      simpa [hi] using hfl ghost
    · exact hnone (decode_of_transfers (.inr ⟨hskip.1, hskip.2.1⟩))
  · rintro ⟨hop, hfl, -⟩
    refine ⟨hop i n hdec, fun ghost ↦ ?_⟩
    cases hi : i.flags (g.nextRip n) (g.arch base ghost) with
    | none => rfl
    | some fl => exact hfl ghost i n fl hdec hi

/-! ## The other instructions -/

/-- Of bytes that are no instruction of `decode`, only the skipped call is not faithful. -/
theorem faithful_of_decode (hdec : decode (g.code base) = none) :
    Faithful base g ↔ ¬SkipsCall base g := by
  refine ⟨fun h ↦ h.call, fun h ↦ ⟨fun i n hd ↦ ?_, fun _ i n _ hd ↦ ?_, h⟩⟩
  · simp [hdec] at hd
  · simp [hdec] at hd

theorem hardwareMove_hint (hdec : decode (g.code base) = none)
    (hcmp : decodeCompare (g.code base) = none) (htr : decodeTransfer (g.code base) = none)
    (hlen : hintLength (g.code base) = some n)
    (h : (next n : Interp Os Bool) g = .ok false g') : HardwareMove base g g' := by
  obtain ⟨⟨-, rfl⟩, -⟩ := next_eq_ok.mp h
  intro ghost
  refine (Core.step_hint (c := g.core base ghost) hdec hcmp htr hlen).trans ?_
  simp only [Guest.core, regs_rip]
  rfl

/-- The flags that a comparison of `Cpu` registers sets do not depend on the others. -/
theorem hardwareMove_compare {cmp : Compare} {f : Cpu → Cpu}
    (hdec : decodeCompare (g.code base) = some (cmp, n))
    (hghost : ∀ ghost, cmp.flags (g.nextRip n) (g.arch base ghost) =
      cmp.flags (g.nextRip n) (g.arch base 0))
    (hregs : ∀ ghost, (f g.cpu).regs ghost = g.cpu.regs ghost) (hrip : (f g.cpu).rip = g.cpu.rip)
    (hx : execOne (handleSyscall run tmp base) base g = (do modifyCpu f; next n) g)
    (h : execOne (handleSyscall run tmp base) base g = .ok false g') : HardwareMove base g g' := by
  have hflags := execOne_flags h
  rw [hx, bind_modifyCpu] at h
  obtain ⟨⟨-, rfl⟩, -⟩ := next_eq_ok.mp h
  intro ghost
  refine (Core.step_compare (c := g.core base ghost) hdec).trans ?_
  rw [hdec] at hflags
  rw [Option.some_inj, Core.compare, Core.ext_iff]
  refine ⟨?_, rfl, (hghost ghost).trans hflags.symm, ?_⟩
  · exact ((regs_rip _ _ ghost).trans (hregs ghost)).symm
  · exact congrArg (· + _) hrip.symm

theorem hardwareMove_jump {t : Transfer} {rel : U64} (hdec : decode (g.code base) = none)
    (hcmp : decodeCompare (g.code base) = none)
    (htr : decodeTransfer (g.code base) = some (t, n))
    (ht : ∀ ghost, (g.core base ghost).transfer n t =
      { g.core base ghost with rip := g.nextRip n + rel })
    (h : (jump (g.nextRip n) rel : Interp Os Bool) g = .ok false g') : HardwareMove base g g' := by
  obtain ⟨v, hv, h⟩ := bind_lift_eq_ok.mp h
  rw [bind_modifyCpu, RustM.pure_eq_ok] at h
  obtain ⟨-, rfl⟩ := h
  obtain ⟨-, rfl⟩ := Rust.addSigned_eq_ok.mp hv
  intro ghost
  refine (Core.step_transfer (c := g.core base ghost) hdec hcmp htr).trans ?_
  rw [ht]
  simp only [Guest.core, regs_rip]
  rfl

/-- The state behind a call. -/
def Guest.called (g : Guest Os) (mem : List U8) (target : U64) : Guest Os :=
  { g with cpu := { g.cpu with rsp := g.cpu.rsp - 8, rip := target }, mem := mem }

theorem core_called {mem : List U8} {v target : U64} (ghost : Reg → U64)
    (hw : writeU64 base g.mem (g.cpu.rsp - 8) v = .ok mem) :
    (g.called mem target).core base ghost = { (g.core base ghost).push v with rip := target } := by
  have hregs : (g.called mem target).cpu.regs ghost =
      Function.update (g.cpu.regs ghost) .rsp (g.cpu.rsp - 8) :=
    (regs_rip (g.cpu.put .rsp (g.cpu.rsp - 8)) target ghost).trans
      (Cpu.regs_put g.cpu ghost rfl (g.cpu.rsp - 8))
  refine Core.ext hregs ?_ rfl rfl
  exact view_write hw

theorem hardwareMove_callRel32 (h0 : g.code base 0 = 0xE8)
    (h : (callRel32 base : Interp Os Bool) g = .ok false g') : HardwareMove base g g' := by
  obtain ⟨-, h⟩ := bind_ripPlus_eq_ok.mp h
  obtain ⟨rel, hrel, h⟩ := bind_reading_eq_ok.mp h
  obtain ⟨hp, h⟩ := bind_ripPlus_eq_ok.mp h
  obtain ⟨-, mem, hw, h⟩ := bind_pushU64_eq_ok.mp h
  obtain ⟨target, htarget, h⟩ := bind_lift_eq_ok.mp h
  rw [bind_modifyCpu, RustM.pure_eq_ok] at h
  obtain ⟨-, rfl⟩ := h
  obtain ⟨-, rfl⟩ := Rust.addSigned_eq_ok.mp htarget
  have hdec : decode (g.code base) = none := decode_of_transfers (.inl (by simp [h0]))
  have hcmp : decodeCompare (g.code base) = none := by simp [decodeCompare, decodeCompareOp, h0]
  have htr : decodeTransfer (g.code base) = some (.call (imm32 (g.code base) 1), 5) := by
    simp [decodeTransfer, h0]
  intro ghost
  refine (Core.step_transfer (c := g.core base ghost) hdec hcmp htr).trans ?_
  rw [readI32_nextRip (by omega) hrel]
  exact congrArg some (core_called ghost hw).symm

theorem decodeTransfer_callPtr {code : ℕ → U8} (h0 : code 0 = 0xFF) (h1 : code 1 = 0x15) :
    decodeTransfer code = some (.callMem ⟨none, none, imm32 code 2, true⟩, 6) := by
  simp [decodeTransfer, decodeRM, regField, h0, h1]

/-- The two ends of a call through a pointer. -/
theorem callPtr_eq_ok {target : U64} (hp : g.cpu.rip.toNat + 6 < 2 ^ 64)
    (htarget : readU64 base g.mem (g.nextRip 6 + imm32 (g.code base) 2) = .ok target)
    (h : (callPtr base : Interp Os Bool) g = .ok false g') :
    ((isOutside base g.mem target = .ok true ∧ isInside base g.mem g.cpu.rdi = .ok true) ∧
      g' = { g with cpu := { g.cpu with rip := g.cpu.rdi } }) ∨
    (¬(isOutside base g.mem target = .ok true ∧ isInside base g.mem g.cpu.rdi = .ok true) ∧
      ∃ mem, writeU64 base g.mem (g.cpu.rsp - 8) (g.nextRip 6) = .ok mem ∧
        g' = g.called mem target) := by
  have hcalled (hx : (do
      pushU64 base (g.nextRip 6)
      modifyCpu ({ · with rip := target })
      return false : Interp Os Bool) g = .ok false g') :
      ∃ mem, writeU64 base g.mem (g.cpu.rsp - 8) (g.nextRip 6) = .ok mem ∧
        g' = g.called mem target := by
    obtain ⟨-, mem, hw, hx⟩ := bind_pushU64_eq_ok.mp hx
    rw [bind_modifyCpu, RustM.pure_eq_ok] at hx
    exact ⟨mem, hw, hx.2⟩
  obtain ⟨-, h⟩ := bind_ripPlus_eq_ok.mp h
  obtain ⟨disp, hdisp, h⟩ := bind_reading_eq_ok.mp h
  obtain ⟨-, h⟩ := bind_ripPlus_eq_ok.mp h
  obtain ⟨ptrVa, hva, h⟩ := bind_lift_eq_ok.mp h
  obtain ⟨target', ht, h⟩ := bind_reading_eq_ok.mp h
  rw [← readI32_nextRip (by omega) hdisp, Rust.addSigned_eq_ok] at hva
  obtain ⟨-, rfl⟩ := hva
  obtain rfl := Except.ok.inj (htarget.symm.trans ht)
  rw [bind_getCpu] at h
  obtain ⟨outside, ho, h⟩ := bind_reading_eq_ok.mp h
  cases outside with
  | false => exact .inr ⟨fun hskip ↦ by simp [ho] at hskip, hcalled h⟩
  | true =>
    obtain ⟨inside, hi, h⟩ := bind_reading_eq_ok.mp h
    cases inside with
    | false => exact .inr ⟨fun hskip ↦ by simp [hi] at hskip, hcalled h⟩
    | true =>
      rw [if_pos rfl, bind_modifyCpu, RustM.pure_eq_ok] at h
      exact .inl ⟨⟨ho, hi⟩, h.2⟩

/-- **A call through a pointer** is the hardware's unless it is skipped. -/
theorem hardwareMove_callPtr_iff (h0 : g.code base 0 = 0xFF) (h1 : g.code base 1 = 0x15)
    (h : (callPtr base : Interp Os Bool) g = .ok false g') :
    HardwareMove base g g' ↔ ¬SkipsCall base g := by
  have hdec : decode (g.code base) = none := decode_of_transfers (.inr ⟨h0, h1⟩)
  have hcmp : decodeCompare (g.code base) = none := by simp [decodeCompare, decodeCompareOp, h0]
  have htr := decodeTransfer_callPtr h0 h1
  have hstep (ghost : Reg → U64) := Core.step_transfer (c := g.core base ghost) hdec hcmp htr
  obtain ⟨hp, htarget⟩ : g.cpu.rip.toNat + 6 < 2 ^ 64 ∧
      ∃ target, readU64 base g.mem (g.nextRip 6 + imm32 (g.code base) 2) = .ok target := by
    obtain ⟨-, h⟩ := bind_ripPlus_eq_ok.mp h
    obtain ⟨disp, hdisp, h⟩ := bind_reading_eq_ok.mp h
    obtain ⟨hp, h⟩ := bind_ripPlus_eq_ok.mp h
    obtain ⟨ptrVa, hva, h⟩ := bind_lift_eq_ok.mp h
    obtain ⟨target, ht, -⟩ := bind_reading_eq_ok.mp h
    rw [← readI32_nextRip (by omega) hdisp, Rust.addSigned_eq_ok] at hva
    exact ⟨hp, target, hva.2 ▸ ht⟩
  obtain ⟨target, htarget⟩ := htarget
  have hskip : SkipsCall base g ↔
      isOutside base g.mem target = .ok true ∧ isInside base g.mem g.cpu.rdi = .ok true := by
    refine ⟨fun ⟨_, _, target', ht, hs⟩ ↦ ?_, fun hs ↦ ⟨h0, h1, target, htarget, hs⟩⟩
    obtain rfl := Except.ok.inj (htarget.symm.trans ht)
    exact hs
  rw [hskip]
  rcases callPtr_eq_ok hp htarget h with ⟨hs, rfl⟩ | ⟨hs, mem, hw, rfl⟩
  · -- the hardware would have moved the stack pointer
    refine iff_of_false (fun hmove ↦ ?_) (not_not_intro hs)
    have hregs := congrArg Core.regs (Option.some_inj.mp ((hstep 0).symm.trans (hmove 0)))
    have hsp : g.cpu.rsp - 8 = g.cpu.rsp := congrFun hregs .rsp
    rw [sub_eq_self] at hsp
    exact absurd hsp (by decide)
  · refine iff_of_true (fun ghost ↦ ?_) hs
    have hload : X86.load (Window.view base g.mem)
        (State.ea (g.core base ghost).state (g.nextRip 6)
          ⟨none, none, imm32 (g.code base) 2, true⟩).toNat 8 = target := by
      rw [readU64_eq_ok htarget, State.ea, BitVec.add_comm (g.nextRip 6)]
      simp
    rw [hstep, core_called ghost hw, ← hload]
    rfl

theorem hardwareMove_je (h0 : g.code base 0 = 0x74)
    (h : (do
      let nextRip ← ripPlus 2
      if (← getCpu).zf then jump nextRip (imm8 (g.code base) 1)
      else
        modifyCpu ({ · with rip := nextRip })
        return false : Interp Os Bool) g = .ok false g') : HardwareMove base g g' := by
  have hdec : decode (g.code base) = none := decode_of_transfers (.inl (by simp [h0]))
  have hcmp : decodeCompare (g.code base) = none := by simp [decodeCompare, decodeCompareOp, h0]
  have htr : decodeTransfer (g.code base) = some (.jz (imm8 (g.code base) 1), 2) := by
    simp [decodeTransfer, h0]
  obtain ⟨-, h⟩ := bind_ripPlus_eq_ok.mp h
  rw [bind_getCpu] at h
  cases hzf : g.cpu.zf with
  | true =>
    rw [if_pos hzf] at h
    refine hardwareMove_jump hdec hcmp htr (fun ghost ↦ ?_) h
    have hflag : (g.core base ghost).flags.zf = true := hzf
    rw [Core.transfer, if_pos hflag]
    rfl
  | false =>
    rw [if_neg (by simp [hzf]), bind_modifyCpu, RustM.pure_eq_ok] at h
    obtain ⟨-, rfl⟩ := h
    intro ghost
    have hflag : ¬(g.core base ghost).flags.zf = true := by
      rw [show (g.core base ghost).flags.zf = false from hzf]
      decide
    refine (Core.step_transfer (c := g.core base ghost) hdec hcmp htr).trans ?_
    rw [Core.transfer, if_neg hflag]
    simp only [Guest.core, regs_rip]
    rfl

theorem hardwareMove_test {r : Reg} (hr : Cpu.holds r = true) (h0 : g.code base 0 = 0x48)
    (h1 : g.code base 1 = 0x85)
    (h2 : g.code base 2 = 0xC0 ∧ r = .rax ∨ g.code base 2 = 0xD2 ∧ r = .rdx)
    (h : execOne (handleSyscall run tmp base) base g = .ok false g') :
    HardwareMove base g g' := by
  have hdec : decodeCompare (g.code base) = some (.test .qword (.reg r) r, 3) := by
    rcases h2 with ⟨h2, rfl⟩ | ⟨h2, rfl⟩ <;>
      simp [decodeCompare, decodeCompareOp, decodeRM, regField, extended, Reg.ofCode, h0, h1, h2]
  refine hardwareMove_compare hdec (fun ghost ↦ ?_) (fun _ ↦ ?_) rfl (execOne_test h0 h1 h2) h
  · simp [Compare.flags, State.read, regs_of_holds _ hr]
  · funext q
    cases q <;> rfl

theorem hardwareMove_cmpAl (h0 : g.code base 0 = 0x3C)
    (h : execOne (handleSyscall run tmp base) base g = .ok false g') :
    HardwareMove base g g' := by
  have hdec : decodeCompare (g.code base) =
      some (.cmp .byte (.reg .rax) (imm8 (g.code base) 1), 2) := by
    simp [decodeCompare, decodeCompareOp, h0]
  refine hardwareMove_compare hdec (fun ghost ↦ ?_) (fun _ ↦ ?_) rfl (execOne_cmpAl h0) h
  · simp [Compare.flags, State.read, regs_of_holds (r := .rax) _ rfl]
  · funext q
    cases q <;> rfl

theorem hardwareMove_control_iff (hsys : ¬g.AtSyscall base) (hdec : decode (g.code base) = none)
    (hctl : Control (g.code base))
    (h : execOne (handleSyscall run tmp base) base g = .ok false g') :
    HardwareMove base g g' ↔ ¬SkipsCall base g := by
  have hfirst (hne : g.code base 0 ≠ 0xFF) : ¬SkipsCall base g := fun hs ↦ hne hs.1
  have hcompare (hop : decodeCompareOp ⟨false, false, false, false, false⟩ (g.code base) 0 = none)
      (hrex : (g.code base 0).toNat / 16 ≠ 4) : decodeCompare (g.code base) = none := by
    rw [decodeCompare, if_neg hrex, hop]
  rcases hctl with h0 | ⟨h0, h1, h2, h3⟩ | ⟨h0, h1, h2⟩ | ⟨h0, h1⟩ | ⟨h0, h1⟩
  · simp only [List.mem_cons, List.not_mem_nil, or_false] at h0
    rcases h0 with h0 | h0 | h0 | h0 | h0 | h0 | h0 | h0
    · rw [execOne_nop h0] at h
      refine iff_of_true (hardwareMove_hint hdec ?_ ?_ ?_ h) (hfirst (by simp [h0]))
      · exact hcompare (by simp [decodeCompareOp, h0]) (by simp [h0])
      · simp [decodeTransfer, h0]
      · simp [hintLength, h0]
    · simp [execOne_ret h0] at h
    · simp [execOne_hlt h0] at h
    · exact iff_of_true (hardwareMove_cmpAl h0 h) (hfirst (by simp [h0]))
    · rw [execOne_callRel32 h0] at h
      exact iff_of_true (hardwareMove_callRel32 h0 h) (hfirst (by simp [h0]))
    · rw [execOne_jmp h0] at h
      obtain ⟨-, h⟩ := bind_ripPlus_eq_ok.mp h
      obtain ⟨rel, hrel, h⟩ := bind_reading_eq_ok.mp h
      obtain ⟨hp, h⟩ := bind_ripPlus_eq_ok.mp h
      refine iff_of_true (hardwareMove_jump hdec ?_ (t := .jmp rel) (n := 5) ?_ (fun _ ↦ rfl) h)
        (hfirst (by simp [h0]))
      · exact hcompare (by simp [decodeCompareOp, h0]) (by simp [h0])
      · simp [decodeTransfer, h0, readI32_nextRip (by omega) hrel]
    · rw [execOne_jmpShort h0] at h
      obtain ⟨-, h⟩ := bind_ripPlus_eq_ok.mp h
      refine iff_of_true (hardwareMove_jump hdec ?_ (t := .jmp (imm8 (g.code base) 1)) (n := 2) ?_
        (fun _ ↦ rfl) h) (hfirst (by simp [h0]))
      · exact hcompare (by simp [decodeCompareOp, h0]) (by simp [h0])
      · simp [decodeTransfer, h0]
    · rw [execOne_je h0] at h
      exact iff_of_true (hardwareMove_je h0 h) (hfirst (by simp [h0]))
  · rw [execOne_endbr64 h0 h1 h2 h3] at h
    refine iff_of_true (hardwareMove_hint hdec ?_ ?_ ?_ h) (hfirst (by simp [h0]))
    · exact hcompare (by simp [decodeCompareOp, h0]) (by simp [h0])
    · simp [decodeTransfer, h0]
    · simp [hintLength, h0, h1, h2, h3]
  · simp only [List.mem_cons, List.not_mem_nil, or_false] at h2
    rcases h2 with h2 | h2
    · exact iff_of_true (hardwareMove_test rfl h0 h1 (.inl ⟨h2, rfl⟩) h) (hfirst (by simp [h0]))
    · exact iff_of_true (hardwareMove_test rfl h0 h1 (.inr ⟨h2, rfl⟩) h) (hfirst (by simp [h0]))
  · exact absurd ⟨h0, h1⟩ hsys
  · rw [execOne_callPtr h0 h1] at h
    exact hardwareMove_callPtr_iff h0 h1 h

/-! ## Steps and runs -/

/-- Of the steps that are no instruction of `decode`, the skipped call alone is none of the
hardware. -/
theorem hardwareMove_other_iff (hsys : ¬g.AtSyscall base) (hdec : decode (g.code base) = none)
    (h : execOne (handleSyscall run tmp base) base g = .ok false g') :
    HardwareMove base g g' ↔ Faithful base g := by
  obtain ⟨b, hb, a, ha, harm⟩ := execOne_eq_ok h
  have hctl := (arms_sound a ha g false g' (fun k hk ↦ (hb k hk).symm) harm).1 hdec
  exact (hardwareMove_control_iff hsys hdec hctl h).trans (faithful_of_decode hdec).symm

theorem Faithful.hardwareMove (hf : Faithful base g) (hsys : ¬g.AtSyscall base)
    (h : execOne (handleSyscall run tmp base) base g = .ok false g') : HardwareMove base g g' := by
  cases hdec : decode (g.code base) with
  | some x => exact (hardwareMove_data_iff hdec h).mpr hf
  | none => exact (hardwareMove_other_iff hsys hdec h).mpr hf

/-- **A step is the one of the hardware exactly if it is faithful.** -/
theorem hardwareMove_iff (hsys : ¬g.AtSyscall base)
    (h : execOne (handleSyscall run tmp base) base g = .ok false g') :
    HardwareMove base g g' ↔ Faithful base g := by
  refine ⟨fun hmove ↦ ?_, fun hf ↦ hf.hardwareMove hsys h⟩
  cases hdec : decode (g.code base) with
  | some x => exact (hardwareMove_data_iff hdec h).mp hmove
  | none => exact (hardwareMove_other_iff hsys hdec h).mp hmove

/-- **A stretch without a system call**: the core executes an instruction for each step. -/
theorem steps_onCore {s : Guest Os} (h : StepsIn (handleSyscall run tmp base) base n g s)
    (hsys : ∀ i < n, ∀ t, StepsIn (handleSyscall run tmp base) base i g t → ¬t.AtSyscall base)
    (hfaithful : ∀ t t', Steps (handleSyscall run tmp base) base g t →
      Step (handleSyscall run tmp base) base t t' → ¬t.AtSyscall base → Faithful base t)
    (ghost : Reg → U64) : (g.core base ghost).steps n = some (s.core base ghost) := by
  induction h with
  | refl => rfl
  | head hstep _ ih =>
    have hfirst := hsys 0 (Nat.succ_pos _) _ (.refl _)
    have hmove := (hfaithful _ _ .refl hstep hfirst).hardwareMove hfirst hstep
    rw [Core.steps_succ (hmove ghost)]
    refine ih (fun i hi t ht ↦ ?_) fun t t' ht ↦ hfaithful t t' (.head hstep ht)
    exact hsys (i + 1) (Nat.succ_lt_succ hi) t (.head hstep ht)

/-- A program that is not ended by a system call ends at a `ret` or a `hlt`, in the state that it is
in there. -/
theorem eq_of_stops (hsys : ¬g.AtSyscall base)
    (h : execOne (handleSyscall run tmp base) base g = .ok true g') :
    g' = g ∧ (g.code base 0 = 0xC3 ∨ g.code base 0 = 0xF4) := by
  have hcode := (execOne_stops h).resolve_right hsys
  refine ⟨?_, hcode⟩
  rcases hcode with h0 | h0
  · cases (execOne_ret h0).symm.trans h
    rfl
  · cases (execOne_hlt h0).symm.trans h
    rfl

/-- **Interpreted programs run as on the hardware.**  In a run of the step loop whose steps are
faithful, any number of steps without a system call is that number of instructions of the core,
from the same registers, memory, flags and address to the same; and the run ends at a system call,
or at a `ret` or `hlt` in the state that the core has come to. -/
theorem runs_on_hardware (h : runSteps (handleSyscall run tmp base) base n g = .ok () g')
    (hfaithful : ∀ s s', Steps (handleSyscall run tmp base) base g s →
      Step (handleSyscall run tmp base) base s s' → ¬s.AtSyscall base → Faithful base s) :
    (∃ k < n, ∃ last, StepsIn (handleSyscall run tmp base) base k g last ∧
      execOne (handleSyscall run tmp base) base last = .ok true g' ∧ (last.AtSyscall base ∨
        g' = last ∧ (last.code base 0 = 0xC3 ∨ last.code base 0 = 0xF4))) ∧
    ∀ s t k, Steps (handleSyscall run tmp base) base g s →
      StepsIn (handleSyscall run tmp base) base k s t →
      (∀ i < k, ∀ u, StepsIn (handleSyscall run tmp base) base i s u → ¬u.AtSyscall base) →
      ∀ ghost, (s.core base ghost).steps k = some (t.core base ghost) := by
  constructor
  · obtain ⟨k, hk, last, hsteps, hlast⟩ := runSteps_eq_ok h
    refine ⟨k, hk, last, hsteps, hlast, ?_⟩
    by_cases hsys : last.AtSyscall base
    · exact .inl hsys
    · exact .inr (eq_of_stops hsys hlast)
  · intro s t k hs hk hsys
    exact steps_onCore hk hsys fun u u' hu ↦ hfaithful u u' (hs.trans hu)

/-- `mov eax, 1` and `ret`. -/
def movRet (rax rip : U64) : Guest Os where
  cpu := { Cpu.start 0x400010 rip with rax := rax }
  mem := [0xB8, 0x01, 0x00, 0x00, 0x00, 0xC3]
  os := ⟨⟨.boot, fun _ ↦ 0, []⟩, []⟩

section Example

variable {syscall : Interp Os Bool} {s s' : Guest Os}

set_option maxRecDepth 4000 in
theorem movRet_step : execOne syscall 0x400000 (movRet 0 0x400000) =
    .ok false (movRet 1 0x400005) := by
  rfl

theorem movRet_stop : execOne syscall 0x400000 (movRet 1 0x400005) =
    .ok true (movRet 1 0x400005) :=
  execOne_ret rfl

set_option maxRecDepth 4000 in
theorem movRet_faithful : Faithful 0x400000 (movRet 0 0x400000) := by
  have hdec : decode ((movRet 0 0x400000).code 0x400000) = some (.movImm .dword (.reg .rax) 1, 5) :=
    rfl
  refine ⟨fun i n h ↦ ?_, fun ghost i n fl h hi ↦ ?_, fun h ↦ ?_⟩
  · cases hdec.symm.trans h
    exact .inl (by decide)
  · cases hdec.symm.trans h
    cases hi
  · exact absurd h.1 (by decide)

theorem movRet_steps_faithful (hs : Steps syscall 0x400000 (movRet 0 0x400000) s)
    (hstep : Step syscall 0x400000 s s') : Faithful 0x400000 s := by
  rcases Relation.ReflTransGen.cases_head hs with rfl | ⟨t, ht, hs⟩
  · exact movRet_faithful
  cases movRet_step.symm.trans ht
  rcases Relation.ReflTransGen.cases_head hs with rfl | ⟨t, ht, -⟩
  · cases movRet_stop.symm.trans hstep
  · cases movRet_stop.symm.trans ht

end Example

/-- The step from `movRet 0` is the one of the hardware, and so is the run up to the `ret`. -/
theorem hardwareMove_iff_movRet : HardwareMove 0x400000 (movRet 0 0x400000) (movRet 1 0x400005) ↔
    Faithful 0x400000 (movRet 0 0x400000) := by
  have h : execOne (handleSyscall (fun _ _ _ ↦ pure ()) ⟨1, by decide⟩ 0x400000) 0x400000
    (movRet 0 0x400000) = .ok false (movRet 1 0x400005) := movRet_step
  exact hardwareMove_iff (fun hsys ↦ absurd hsys.1 (by decide)) h

theorem runs_on_hardware_movRet : ∃ syscall : Interp Os Bool,
    (∃ k < 2, ∃ last, StepsIn syscall 0x400000 k (movRet 0 0x400000) last ∧
      execOne syscall 0x400000 last = .ok true (movRet 1 0x400005) ∧ (last.AtSyscall 0x400000 ∨
        movRet 1 0x400005 = last ∧
          (last.code 0x400000 0 = 0xC3 ∨ last.code 0x400000 0 = 0xF4))) ∧
    ∀ s t k, Steps syscall 0x400000 (movRet 0 0x400000) s → StepsIn syscall 0x400000 k s t →
      (∀ i < k, ∀ u, StepsIn syscall 0x400000 i s u → ¬u.AtSyscall 0x400000) →
      ∀ ghost, (s.core 0x400000 ghost).steps k = some (t.core 0x400000 ghost) := by
  refine ⟨handleSyscall (fun _ _ _ ↦ pure ()) ⟨1, by decide⟩ 0x400000, ?_⟩
  have hrun : runSteps (handleSyscall (fun _ _ _ ↦ pure ()) ⟨1, by decide⟩ 0x400000) 0x400000 2
      (movRet 0 0x400000) = .ok () (movRet 1 0x400005) :=
    (runSteps_of_step movRet_step).trans (runSteps_of_stop movRet_stop)
  exact runs_on_hardware hrun fun s s' hs hstep _ ↦ movRet_steps_faithful hs hstep

end Moves

end LeonOS
