import LeonOS.Elf.Code
import LeonOS.Interp.Account

/-!
# Programs of one system call

A program that loads two registers and makes a system call (`callCode`), run from its file on: two
steps lead to the `syscall` (`CallIn.step_mov_eax`, `CallIn.step_mov_edi`), whatever is behind it.
-/

set_option autoImplicit false

namespace LeonOS

open Bytes X86 Elf

variable {ω : Type} {g : Guest ω} {base : U64} {syscall : Interp ω Bool} {code tail : List U8}
  {i k v : ℕ}

/-! ## Code in memory -/

/-- Memory begins with this code, and `rip` is `i` bytes behind its beginning. -/
structure Guest.At (g : Guest ω) (base : U64) (code : List U8) (i : ℕ) : Prop where
  /-- The code. -/
  code_prefix : code <+: g.mem
  /-- Memory ends before the addresses do. -/
  fits : base.toNat + g.mem.length < 2 ^ 64
  /-- `rip`. -/
  rip : g.cpu.rip.toNat = base.toNat + i

theorem Guest.At.code_eq (h : g.At base code i) (hk : i + k < code.length) :
    g.code base k = code[i + k] := by
  rw [Guest.code, h.rip, Window.view, if_pos (by omega), Nat.add_assoc, Nat.add_sub_cancel_left,
    List.getD_eq_getElem?_getD, List.prefix_iff_getElem?.mp h.code_prefix _ hk, Option.getD_some]

theorem Guest.At.readU32_eq (h : g.At base code i) (hk : i + k + 4 ≤ code.length) :
    readU32 base g.mem (g.nextRip k) = .ok (BitVec.ofNat 32 (ofLE (slice code (i + k) 4))) := by
  have hle := h.code_prefix.length_le
  have hfits := h.fits
  have hva : (g.nextRip k).toNat = base.toNat + (i + k) := by
    rw [Guest.nextRip, BitVec.toNat_add, h.rip, BitVec.toNat_ofNat]
    omega
  have haccess : Window.access (.addressOutOfRange : RunError) base g.mem (g.nextRip k) 4 =
      .ok (i + k) := (Window.access_eq_ok (by omega)).mpr ⟨hva, by omega, by omega⟩
  obtain ⟨rest, hrest⟩ := h.code_prefix
  rw [readU32, haccess, Rust.ok_bind, ← hrest, slice_append_left (by omega)]
  rfl

section Chain

attribute [local simp] arms setArm movArm zeroArm pushArm popArm loadArm movImmArm leaRipArm testArm
  leaArm movHighArm jmpArm jmpShortArm jeArm
  aluImm8Arm aluImm32Arm movLoadArm firstArm_none firstArm_arm_of_not firstArm_arm_of

/-- `mov eax, imm32` and `mov edi, imm32`. -/
theorem execOne_movLow {b : U8} (hb : b = 0xB8 ∨ b = 0xBF) (h : g.At base code i)
    (hlen : i + 5 ≤ code.length) (h0 : code[i] = b) (hv : slice code (i + 1) 4 = toLE 4 v)
    (hlt : v < 2 ^ 32) : execOne syscall base g = .ok false { g with
      cpu := { movLowPut g.cpu (b - 0xB8) (BitVec.ofNat 64 v) with rip := g.nextRip 5 } } := by
  have hcode : g.code base 0 = b := (h.code_eq (by omega)).trans h0
  have himm := h.readU32_eq (k := 1) (by omega)
  rw [hv, ofLE_toLE_of_lt hlt] at himm
  have hrip := h.rip
  have hfits := h.fits
  have hle := h.code_prefix.length_le
  have hne : g.code base 0 ≠ 0 := by
    rw [hcode]
    rcases hb with rfl | rfl <;> decide
  obtain ⟨bs, hbs, hx⟩ := execOne_of_code syscall hne
  have h0 : bs[0] = b := (hbs 0 (by decide)).trans hcode
  have harm : execOne syscall base g = (do
      let va ← ripPlus 1
      let imm ← reading fun mem ↦ readU32 base mem va
      modifyCpu (movLowPut · (b - 0xB8) (imm.setWidth 64))
      next 5) g := by
    rw [hx]
    rcases hb with rfl | rfl <;> simp [movLowArm, h0]
  rw [harm]
  refine bind_ripPlus_eq_ok.mpr ⟨by omega, bind_reading_eq_ok.mpr ⟨_, himm, ?_⟩⟩
  rw [bind_modifyCpu, next_eq_ok]
  have hkeeps :
      (movLowPut g.cpu (b - 0xB8) (((BitVec.ofNat 32 v)).setWidth 64)).rip = g.cpu.rip := by
    rcases hb with rfl | rfl <;> rfl
  have hwide : (BitVec.ofNat 32 v).setWidth 64 = BitVec.ofNat 64 v := by
    rw [← BitVec.toNat_inj, BitVec.toNat_setWidth, BitVec.toNat_ofNat, BitVec.toNat_ofNat]
    omega
  dsimp only
  rw [hkeeps, hwide]
  exact ⟨⟨by omega, rfl⟩, rfl⟩

end Chain

/-! ## Steps -/

variable {g' : Guest ω} {call : Guest Os → Account} {n : ℕ}

/-- A step to which the code leads and which is the last. -/
theorem accountSteps_of_stop {syscall : Interp Os Bool} {g g' : Guest Os}
    (h : execOne syscall base g = .ok true g') :
    accountSteps syscall call base (n + 1) g = accountStep call base g := by
  rw [accountSteps, h]

/-! ## The programs -/

/-- `mov eax, nr; mov edi, arg; syscall`, and what comes behind. -/
def callCode (nr arg : ℕ) (tail : List U8) : List U8 :=
  0xB8 :: toLE 4 nr ++ 0xBF :: toLE 4 arg ++ [0x0F, 0x05] ++ tail

/-- A program that was just loaded. -/
def atEntry (sp : U64) (mem : List U8) (os : ω) : Guest ω := ⟨Cpu.start sp codeAddr, mem, os⟩

/-- A program that is at its system call. -/
def atCall (nr arg : ℕ) (sp : U64) (mem : List U8) (os : ω) : Guest ω where
  cpu := { Cpu.start sp codeAddr with
    rax := BitVec.ofNat 64 nr, rdi := BitVec.ofNat 64 arg, rip := codeAddr + 10 }
  mem := mem
  os := os

/-- The same between its two moves. -/
def betweenMoves (nr : ℕ) (sp : U64) (mem : List U8) (os : ω) : Guest ω where
  cpu := { Cpu.start sp codeAddr with rax := BitVec.ofNat 64 nr, rip := codeAddr + 5 }
  mem := mem
  os := os

variable {nr arg : ℕ} {sp : U64} {mem : List U8} {os : ω}

theorem length_callCode (nr arg : ℕ) (tail : List U8) :
    (callCode nr arg tail).length = 12 + tail.length := by
  simp [callCode]
  omega

/-- Memory that begins with such a program. -/
structure CallIn (nr arg : ℕ) (tail mem : List U8) : Prop where
  /-- It begins with the program. -/
  code_prefix : callCode nr arg tail <+: mem
  /-- It ends before the addresses do. -/
  mem_lt : mem.length < 2 ^ 63
  /-- The number of the system call. -/
  nr_lt : nr < 2 ^ 32
  /-- Its argument. -/
  arg_lt : arg < 2 ^ 32

theorem CallIn.at (h : CallIn nr arg tail mem) {g : Guest ω} (hmem : g.mem = mem)
    (hrip : g.cpu.rip.toNat = codeAddr.toNat + i) :
    g.At codeAddr (callCode nr arg tail) i where
  code_prefix := hmem ▸ h.code_prefix
  fits := by
    have haddr : codeAddr.toNat = 0x400000 := rfl
    have hlt := h.mem_lt
    rw [hmem]
    omega
  rip := hrip

section Moves

variable (sp : U64) (os : ω)

theorem CallIn.at_entry (h : CallIn nr arg tail mem) :
    (atEntry sp mem os).At codeAddr (callCode nr arg tail) 0 :=
  h.at rfl rfl

theorem CallIn.at_between (h : CallIn nr arg tail mem) :
    (betweenMoves nr sp mem os).At codeAddr (callCode nr arg tail) 5 :=
  h.at rfl rfl

theorem CallIn.at_call (h : CallIn nr arg tail mem) :
    (atCall nr arg sp mem os).At codeAddr (callCode nr arg tail) 10 :=
  h.at rfl rfl

theorem CallIn.step_mov_eax (h : CallIn nr arg tail mem) :
    Step syscall codeAddr (atEntry sp mem os) (betweenMoves nr sp mem os) := by
  have hlen := length_callCode nr arg tail
  exact execOne_movLow (.inl rfl) (h.at_entry sp os) (by omega) rfl rfl h.nr_lt

theorem CallIn.step_mov_edi (h : CallIn nr arg tail mem) :
    Step syscall codeAddr (betweenMoves nr sp mem os) (atCall nr arg sp mem os) := by
  have hlen := length_callCode nr arg tail
  exact execOne_movLow (.inr rfl) (h.at_between sp os) (by omega) rfl rfl h.arg_lt

theorem CallIn.atSyscall (h : CallIn nr arg tail mem) :
    (atCall nr arg sp mem os).AtSyscall codeAddr := by
  have hlen := length_callCode nr arg tail
  have hat := h.at_call sp os
  exact ⟨hat.code_eq (by omega), hat.code_eq (by omega)⟩

/-- **Two steps lead to the system call.** -/
theorem CallIn.runSteps_eq (h : CallIn nr arg tail mem) (n : ℕ) :
    runSteps syscall codeAddr (n + 2) (atEntry sp mem os) =
      runSteps syscall codeAddr n (atCall nr arg sp mem os) :=
  (runSteps_of_step (h.step_mov_eax sp os)).trans (runSteps_of_step (h.step_mov_edi sp os))

/-- **The system call**, when it returns. -/
theorem CallIn.execOne_call {exit : Bool} {g' : Guest ω} (h : CallIn nr arg tail mem)
    (hcall : syscall (atCall nr arg sp mem os) = .ok exit g') (hrip : g'.cpu.rip = codeAddr + 10) :
    execOne syscall codeAddr (atCall nr arg sp mem os) =
      .ok exit { g' with cpu := { g'.cpu with rip := codeAddr + 12 } } := by
  have hnext : (ripAdd 2 : Interp ω Unit) g' =
      .ok () { g' with cpu := { g'.cpu with rip := codeAddr + 12 } } := by
    rw [ripAdd_eq_ok, hrip]
    exact ⟨by decide, rfl⟩
  rw [execOne_syscall (h.atSyscall sp os), RustM.bind_apply, hcall]
  dsimp only
  rw [RustM.bind_apply, hnext]
  rfl

/-- **A return behind the system call.** -/
theorem CallIn.runSteps_call_ret {g' : Guest ω} (h : CallIn nr arg [0xC3] mem) (n : ℕ)
    (hcall : syscall (atCall nr arg sp mem os) = .ok false g') (hmem : g'.mem = mem)
    (hrip : g'.cpu.rip = codeAddr + 10) :
    runSteps syscall codeAddr (n + 4) (atEntry sp mem os) =
      .ok () { g' with cpu := { g'.cpu with rip := codeAddr + 12 } } := by
  have hstep := h.execOne_call sp os hcall hrip
  have hat : Guest.At { g' with cpu := { g'.cpu with rip := codeAddr + 12 } } codeAddr
      (callCode nr arg [0xC3]) 12 := h.at hmem rfl
  have hlen := length_callCode nr arg [0xC3]
  rw [List.length_singleton] at hlen
  have hret := hat.code_eq (k := 0) (by omega)
  have hcode : (callCode nr arg [0xC3])[12 + 0] = 0xC3 := rfl
  rw [h.runSteps_eq, runSteps_of_step hstep, runSteps_of_stop (execOne_ret (hret.trans hcode))]

end Moves

/-! ## From the file on -/

/-- **A file of code is run** from its first byte. -/
theorem Elf.CodeFile.run_eq (h : CodeFile code) (argv envp : StrSlice)
    (hshort : ShortStack argv envp) :
    ∃ sp mem, code <+: mem ∧ mem.length < 2 ^ 63 ∧ ∀ tmp depth os,
      runLinuxElf tmp (depth + 1) (codeFile code) argv.strs envp.strs os =
        (match runSteps (handleSyscall (runLinuxElf tmp depth) tmp codeAddr) codeAddr maxSteps
          (atEntry sp mem os) with
        | .ok _ g => .ok () g.os
        | .error e g => .error e g.os) ∧
      accountRun tmp (depth + 1) (codeFile code) argv.strs envp.strs os =
        accountSteps (handleSyscall (runLinuxElf tmp depth) tmp codeAddr)
          (accountCall (accountRun tmp depth) codeAddr) codeAddr maxSteps (atEntry sp mem os) := by
  obtain ⟨⟨base, mem, sp, entry⟩, hload, rfl, rfl, hcode, hmem⟩ := h.loads argv envp hshort
  have hlen := h.length_le
  have hsize : linuxRunner.stackSize = 131072 := rfl
  dsimp only at hcode hmem
  refine ⟨sp, mem, hcode, by omega, fun tmp depth os ↦ ⟨?_, ?_⟩⟩
  · simp only [runLinuxElf, RustM.bind_apply, RustM.lift, hload]
    rfl
  · simp only [accountRun, hload]
    rfl

/-- One argument. -/
def oneArg (name : String) (h : (Rust.asBytes name).length < 2 ^ 63) : StrSlice :=
  ⟨[name], show 1 < 2 ^ 59 by decide, List.forall_mem_singleton.mpr h⟩

set_option maxRecDepth 8000 in
theorem codeFile_return : CodeFile [0xC3] := ⟨rfl, by decide⟩

/-- **A program that just returns**: one instruction, and nothing has changed. -/
theorem runLinuxElf_return (argv envp : StrSlice) (hshort : ShortStack argv envp) (tmp : StackSlot)
    (depth : ℕ) (os : Os) :
    runLinuxElf tmp (depth + 1) (codeFile [0xC3]) argv.strs envp.strs os = .ok () os ∧
      accountRun tmp (depth + 1) (codeFile [0xC3]) argv.strs envp.strs os = .one := by
  obtain ⟨sp, mem, hcode, hmem, hrun⟩ := codeFile_return.run_eq argv envp hshort
  obtain ⟨hrun, haccount⟩ := hrun tmp depth os
  have hmax : maxSteps = 131071 + 1 := rfl
  have hfits : codeAddr.toNat + mem.length < 2 ^ 64 := by
    rw [show codeAddr.toNat = 0x400000 from rfl]
    omega
  have hat : (atEntry sp mem os).At codeAddr [0xC3] 0 := ⟨hcode, hfits, rfl⟩
  have h0 : (atEntry sp mem os).code codeAddr 0 = 0xC3 := hat.code_eq (by decide)
  have hnot : ¬(atEntry sp mem os).AtSyscall codeAddr := fun h ↦
    absurd (h0.symm.trans h.1) (by decide)
  rw [hmax, runSteps_of_stop (execOne_ret h0)] at hrun
  rw [hmax, accountSteps_of_stop (execOne_ret h0), accountStep, if_neg hnot] at haccount
  exact ⟨hrun, haccount⟩

/-! ## On a disk -/

/-- A file of code, with the name `a`. -/
def oneProgram (code : List U8) : List BuildFile := [⟨"a", 0o755, codeFile code⟩]

theorem Elf.CodeFile.fits (h : CodeFile code) : Build.Fits (oneProgram code) := by
  have hlen := h.length_le
  refine ⟨by simp [oneProgram], ?_, ?_, ?_⟩
  · simp only [oneProgram, List.forall_mem_cons]
    exact ⟨by decide, nofun⟩
  · simp only [Build.NamesFit, oneProgram, List.forall_mem_cons]
    exact ⟨by decide, nofun⟩
  · have hdatas : (Build.datas (oneProgram code)).length = 120 + code.length := by
      simp only [oneProgram, Build.datas, List.flatMap_cons, List.flatMap_nil, List.append_nil]
      rw [codeFile, List.length_append, length_codeHeaders]
    rw [hdatas, show (oneProgram code).length = 1 from rfl, Build.headerSize, Build.entrySize]
    omega

/-- The name in guest memory. -/
theorem readUserCstr_a {mem : List U8} {va : U64} (hva : va ≠ 0)
    (ha : readU8 base mem va = .ok 0x61) (hzero : readU8 base mem (va + 1) = .ok 0) :
    readUserCstr base mem va = .ok (some "a") := by
  have hfirst : va + BitVec.ofNat 64 ([] : List U8).length = va := BitVec.add_zero va
  have hnext : va + BitVec.ofNat 64 ([] ++ [0x61] : List U8).length = va + 1 := rfl
  rw [readUserCstr, if_neg hva, show 4096 = 4094 + 1 + 1 from rfl, readUserCstrFrom, hfirst, ha,
    Rust.ok_bind, if_neg (by decide), readUserCstrFrom, hnext, hzero, Rust.ok_bind, if_pos rfl]
  decide

/-- An image is mounted, and nothing has happened since. -/
def Os.mounted (image : Image) : Os := ⟨⟨Kernel.boot.setRootfs image, fun _ ↦ 0, []⟩, []⟩

/-- A disk with the file. -/
def Elf.CodeFile.disk (h : CodeFile code) : Image :=
  ⟨Build.lfs1 (oneProgram code), Build.length_lfs1_lt h.fits⟩

theorem Elf.CodeFile.open_disk (h : CodeFile code) :
    ∃ rec, Fs.open h.disk.bytes "a" = .ok rec ∧ rec.data = codeFile code :=
  Build.exists_open_lfs1 h.fits
    (show (oneProgram code).find? (·.name = "a") = some ⟨"a", 0o755, _⟩ from rfl)

end LeonOS
