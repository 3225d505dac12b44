import LeonOS.Elf.Stack
import LeonOS.Interp.Overflow
import LeonOS.Interp.Account
import LeonOS.Interp.StepFrame

/-!
# When a run panics

A loaded program starts with the end of its memory below the top of the address space, and with the
table of descriptors in order, and its steps keep both (`Guest.InOrder`).  So the panics of a run are
those of the loading phase and of the steps that the program comes to (`panics_runLinuxElf_iff`), a
program that an `execve` runs being one of these steps.
-/

set_option autoImplicit false

namespace LeonOS

open Bytes RustM Elf

/-! ## Memory keeps its length -/

section Length

variable {ω : Type} {g g' : Guest ω} {base : U64} {syscall : Interp ω Bool} {stop : Bool}

/-- There is as much memory as before. -/
def SameLength (g g' : Guest ω) : Prop := g'.mem.length = g.mem.length

theorem sameLength_of_write {va : U64} {bs : List U8}
    (h : Window.write (.addressOutOfRange : RunError) base g.mem va bs = .ok g'.mem) :
    SameLength g g' := by
  obtain ⟨_, -, hmem⟩ := Window.write_changesOnly h
  exact hmem.length

/-- **Instructions** do not change how much memory there is, if a system call does not. -/
theorem StepCase.sameLength (h : StepCase syscall base g stop g')
    (hsys : Ensures syscall g fun _ g' ↦ SameLength g g') : SameLength g g' := by
  cases h with
  | registers n _ h _ => exact congrArg List.length h.mem
  | compare n c _ h _ => exact congrArg List.length h.mem
  | store n va bs _ _ hw _ _ _ => exact sameLength_of_write hw
  | transfer _ _ hmem _ =>
    rcases hmem with hmem | ⟨v, _, hw⟩
    · exact congrArg List.length hmem
    · exact sameLength_of_write hw
  | syscall _ _ g₁ hrun _ h =>
    rw [h]
    exact hsys stop g₁ hrun

end Length

variable {run : Run} {tmp : StackSlot} {depth k : ℕ} {base : U64} {g g' : Guest Os} {os : Os}
  {stop : Bool} {prog : LinuxProgram} {argv envp : List String}

theorem SameMem.sameLength (h : SameMem g g') : SameLength g g' := congrArg List.length h

theorem readThroughTmp_sameLength (start cap : ℕ) (fd : U64) :
    Ensures (readThroughTmp tmp start cap fd) g fun _ g' ↦ SameLength g g' := by
  simp only [readThroughTmp, clearTmp, ensures_bind, ensures_modify, ensures_sys, ensures_ite,
    ensures_get, ensures_writing, ensures_setRax]
  intro r w _
  refine ⟨fun _ mem hmem ↦ ?_, fun _ ↦ rfl⟩
  obtain ⟨src, -, hcopy⟩ := Rust.bind_eq_ok.mp hmem
  obtain ⟨⟨-, hfit, hlen⟩, rfl⟩ := Rust.copyFromSlice_eq_ok.mp hcopy
  exact length_overwrite (by omega)

theorem handleRead_sameLength : Ensures (handleRead tmp base) g fun _ g' ↦ SameLength g g' := by
  simp only [handleRead, ensures_bind, ensures_getCpu, ensures_reading, ensures_get, ensures_ite,
    ensures_setRax]
  intro start _
  refine ⟨fun _ ↦ rfl, fun _ ↦ ⟨fun _ ↦ ?_, fun _ ↦ readThroughTmp_sameLength _ _ _⟩⟩
  exact (readLineFrom_changes _ _ _).mono fun _ _ h ↦ h.2.2.length

theorem handleDefault_sameMem (nr : Nr) :
    Ensures (handleDefault nr) g fun _ g' ↦ SameMem g g' := by
  rw [handleDefault, ensures_bind, ensures_getCpu]
  exact sys_setRax_sameMem

theorem handleSyscall_sameLength :
    Ensures (handleSyscall run tmp base) g fun _ g' ↦ SameLength g g' := by
  intro stop g' h
  rw [handleSyscall, bind_getCpu] at h
  generalize Nr.decode g.cpu.rax.toNat = nr at h
  cases nr with
  | read => exact handleRead_sameLength stop g' h
  | write => exact (handleWrite_sameMem stop g' h).sameLength
  | execve => exact (handleExecve_sameMem stop g' h).sameLength
  | getpid | brk | exit | exitGroup => exact SameMem.sameLength (sys_setRax_sameMem stop g' h)
  | _ => exact (handleDefault_sameMem _ stop g' h).sameLength

/-! ## The table stays in order -/

/-- If the table was in order, it still is. -/
def KeepsFiles (k k' : Kernel) : Prop := k.FilesOk → k'.FilesOk

instance : IsPreorder Kernel KeepsFiles where
  refl _ := id
  trans _ _ _ h h' := h' ∘ h

theorem keepsFiles_stdin (w : World) :
    Ensures readStdinByteBlocking w fun _ w' ↦ KeepsFiles w.kernel w'.kernel :=
  ensures_readStdinByteBlocking id fun _ h ↦ h.of_eq rfl rfl

theorem keepsFiles_dispatch (nr : Nr) (arg0 arg1 arg2 arg3 : U64) (w : World) :
    Ensures (dispatch nr arg0 arg1 arg2 arg3) w fun _ w' ↦ KeepsFiles w.kernel w'.kernel :=
  dispatch_effect.mono fun _ _ h ↦ h.filesOk

theorem keepsFiles_runLinuxElf (image : List U8) (argv envp : List String) :
    Keeps (OnKernel KeepsFiles) (runLinuxElf tmp depth image argv envp) :=
  runLinuxElf_keeps keepsFiles_stdin keepsFiles_dispatch depth image argv envp

/-! ## The invariant of a run -/

/-- **A program is in order**: so are the descriptors, and its memory ends below the top of the
address space. -/
structure Guest.InOrder (g : Guest Os) (base : U64) : Prop where
  /-- The descriptors. -/
  files : g.os.world.kernel.FilesOk
  /-- The end of memory. -/
  bound : base.toNat + g.mem.length < 2 ^ 64

/-- A step keeps it, if a system call does. -/
theorem Guest.InOrder.step {syscall : Interp Os Bool} (h : g.InOrder base)
    (hkeeps : Keeps (OnOs (OnKernel KeepsFiles)) syscall)
    (hlength : ∀ g, Ensures syscall g fun _ g' ↦ SameLength g g')
    (hstep : execOne syscall base g = .ok stop g') : g'.InOrder base := by
  have hfiles : Keeps (OnOs (OnKernel KeepsFiles)) (execOne syscall base) := execOne_keeps hkeeps
  have hsame : SameLength g g' := (execOne_cases hstep).sameLength (hlength g)
  refine ⟨(hfiles g).1 stop g' hstep h.files, ?_⟩
  rw [hsame]
  exact h.bound

theorem Guest.InOrder.steps (h : g.InOrder base)
    (hsteps : StepsIn (handleSyscall (runLinuxElf tmp depth) tmp base) base k g g') :
    g'.InOrder base :=
  hsteps.invariant (P := (Guest.InOrder · base)) (fun _ _ ht hstep ↦
    ht.step (handleSyscall_keeps keepsFiles_stdin keepsFiles_dispatch keepsFiles_runLinuxElf)
      (fun _ ↦ handleSyscall_sameLength) hstep) h

theorem inOrder_guest {image : List U8} (h : loadLinuxElf image argv envp = .ok prog)
    (hos : os.world.kernel.FilesOk) : (prog.guest os).InOrder prog.base := by
  refine ⟨hos, ?_⟩
  obtain ⟨⟨l, mem⟩, -, h⟩ := Rust.bind_eq_ok.mp h
  obtain ⟨⟨sp, mem'⟩, hstack, h⟩ := Rust.bind_eq_ok.mp h
  obtain rfl := Except.ok.inj h
  obtain ⟨hbound, low, hat⟩ := initialStack_ok hstack
  exact hat.length_eq ▸ hbound

/-! ## Runs -/

theorem panics_runProgram : Panics (runProgram run tmp prog) os ↔
    Panics (runSteps (handleSyscall run tmp prog.base) prog.base maxSteps) (prog.guest os) := by
  rw [Panics, Panics, runProgram, LinuxProgram.guest]
  cases runSteps (handleSyscall run tmp prog.base) prog.base maxSteps
      ⟨Cpu.start prog.initialRsp prog.entry, prog.mem, os⟩ with
  | ok u g => simp
  | error e g => simp

/-- The panics of a run are those of the loading phase and of the program. -/
theorem panics_runLinuxElf_succ {image : List U8} :
    Panics (runLinuxElf tmp (depth + 1) image argv envp) os ↔
      loadLinuxElf image argv envp = .error .panic ∨
        ∃ prog, loadLinuxElf image argv envp = .ok prog ∧
          Panics (runSteps (handleSyscall (runLinuxElf tmp depth) tmp prog.base) prog.base maxSteps)
            (prog.guest os) := by
  rw [runLinuxElf, panics_bind, panics_lift]
  refine or_congr_right ⟨?_, ?_⟩
  · rintro ⟨prog, os', hload, os₁, hrun⟩
    obtain ⟨hok, rfl⟩ := lift_eq_ok.mp hload
    exact ⟨prog, hok, panics_runProgram.mp ⟨os₁, hrun⟩⟩
  · rintro ⟨prog, hok, hpanics⟩
    exact ⟨prog, os, lift_eq_ok.mpr ⟨hok, rfl⟩, panics_runProgram.mpr hpanics⟩

/-- **When a run panics**: the loading phase does, or the program comes to a step of which a sum
overflows. -/
theorem panics_runLinuxElf_iff (tmp : StackSlot) (depth : ℕ) (image : Image) (argv envp : StrSlice)
    (os : Os) (hk : os.world.kernel.Reachable) :
    Panics (runLinuxElf tmp (depth + 1) image.bytes argv.strs envp.strs) os ↔
      ¬LinuxLoads image.bytes ∨
        ∃ prog, loadLinuxElf image.bytes argv.strs envp.strs = .ok prog ∧ ∃ k < maxSteps, ∃ g,
          StepsIn (handleSyscall (runLinuxElf tmp depth) tmp prog.base) prog.base k (prog.guest os)
            g ∧ ¬StepFits (runLinuxElf tmp depth) prog.base g := by
  rw [panics_runLinuxElf_succ, loadLinuxElf_panics_iff]
  refine or_congr_right (exists_congr fun prog ↦ and_congr_right fun hload ↦ ?_)
  rw [panics_runSteps]
  refine exists_congr fun k ↦ and_congr_right fun _ ↦ exists_congr fun g ↦ and_congr_right
    fun hsteps ↦ ?_
  have hg := (inOrder_guest hload hk.filesOk).steps hsteps
  exact not_iff_not.mp ((not_panics_step_iff hg.files hg.bound).trans not_not.symm)

end LeonOS
