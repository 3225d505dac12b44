import LeonOS.Interp.Frame
import LeonOS.Interp.Syscall
import LeonOS.Kernel.Effect

/-!
# What a system call of an interpreted program does to the kernel

The arms of `handle_syscall` reach the globals only through `dispatch`, through the reader of stdin
and, in `execve`, through `mark_exit_code` and the program that is run.  So what these keep of the
globals is kept by the arms, and also when they fail (`OnKernel`).  `execve` either finds a file to
run (`ExecTarget`) or is answered before it does anything (`handleExecve_cases`).
-/

set_option autoImplicit false

namespace LeonOS

open Bytes RustM

variable {R : Kernel → Kernel → Prop} {run : Run} {tmp : StackSlot} {base : U64} {g g' : Guest Os}

/-- The globals before and after are related. -/
def OnKernel (R : Kernel → Kernel → Prop) (os os' : Os) : Prop :=
  R os.world.kernel os'.world.kernel

section Keeps

variable [IsPreorder Kernel R]

instance : IsPreorder Os (OnKernel R) where
  refl os := refl (r := R) os.world.kernel
  trans _ _ _ h h' := IsTrans.trans (r := R) _ _ _ h h'

/-! ## Small steps -/

theorem keeps_process (bytes : List U8) : Keeps (OnOs (OnKernel R)) (process bytes) :=
  keeps_modify fun g ↦ refl (r := R) g.os.world.kernel

theorem keeps_clearTmp : Keeps (OnOs (OnKernel R)) (clearTmp tmp) :=
  keeps_modify fun g ↦ refl (r := R) g.os.world.kernel

omit [IsPreorder Kernel R] in
theorem keeps_setRax {R : Os → Os → Prop} [IsPreorder Os R] (v : U64) (stop : Bool) :
    Keeps (OnOs R) (setRax v stop) :=
  (keeps_modifyCpu _).bind fun _ ↦ keeps_pure stop

omit [IsPreorder Kernel R] in
theorem keeps_sys {α : Type} {x : SysM α}
    (h : ∀ w, Ensures x w fun _ w' ↦ R w.kernel w'.kernel) : Keeps (OnOs (OnKernel R)) (sys x) := by
  intro g
  rw [KeepsAt, sys]
  cases hrun : x g.os.world with
  | ok a w =>
    refine ⟨fun b g' hb ↦ ?_, fun _ _ he ↦ by cases he⟩
    cases hb
    exact h g.os.world _ w hrun
  | error e w =>
    cases e with
    | err e => exact e.elim
    | panic => exact ⟨fun _ _ hb ↦ (by cases hb), fun _ _ he ↦ by cases he⟩

/-- A call whose result is put into `rax`. -/
theorem sys_setRax_keeps {x : SysM U64} (h : ∀ w, Ensures x w fun _ w' ↦ R w.kernel w'.kernel)
    (stop : Bool) : Keeps (OnOs (OnKernel R)) (sys x >>= fun n ↦ setRax n stop) :=
  (keeps_sys h).bind fun n ↦ keeps_setRax n stop

/-! ## The arms -/

theorem readLineFrom_keeps
    (hstdin : ∀ w, Ensures readStdinByteBlocking w fun _ w' ↦ R w.kernel w'.kernel)
    (start n got : ℕ) : Keeps (OnOs (OnKernel R)) (readLineFrom start n got) := by
  induction n generalizing got with
  | zero => exact keeps_pure got
  | succ n ih =>
    rw [readLineFrom]
    refine (keeps_sys hstdin).bind fun ch ↦ ?_
    split
    · exact keeps_pure got
    · refine (keeps_writing _).bind fun _ ↦ (keeps_process _).bind fun _ ↦ ?_
      exact .ite (keeps_pure _) (ih _)

theorem readThroughTmp_keeps {fd : U64}
    (hread : ∀ arg1 arg2 arg3 w, Ensures (dispatch .read fd arg1 arg2 arg3) w
      fun _ w' ↦ R w.kernel w'.kernel) (start cap : ℕ) :
    Keeps (OnOs (OnKernel R)) (readThroughTmp tmp start cap fd) := by
  rw [readThroughTmp]
  refine keeps_clearTmp.bind fun _ ↦ (keeps_sys (hread _ _ _)).bind fun n ↦ ?_
  split
  · refine keeps_get.bind fun g ↦ ?_
    exact (keeps_writing _).bind fun _ ↦ keeps_setRax n false
  · exact keeps_setRax n false

theorem handleRead_keeps
    (hstdin : ∀ w, Ensures readStdinByteBlocking w fun _ w' ↦ R w.kernel w'.kernel)
    (hread : ∀ arg0 arg1 arg2 arg3 w, Ensures (dispatch .read arg0 arg1 arg2 arg3) w
      fun _ w' ↦ R w.kernel w'.kernel) :
    Keeps (OnOs (OnKernel R)) (handleRead tmp base) := by
  rw [handleRead]
  refine keeps_getCpu.bind fun cpu ↦ (keeps_reading _).bind fun start ↦ keeps_get.bind fun g ↦ ?_
  refine .ite (keeps_setRax 0 false) (.ite ?_ (readThroughTmp_keeps (hread _) _ _))
  exact (readLineFrom_keeps hstdin _ _ _).bind fun got ↦ keeps_setRax _ false

theorem handleWrite_keeps : Keeps (OnOs (OnKernel R)) (handleWrite base) := by
  have hwrite : ∀ arg0 arg1 arg2 w, Ensures (dispatch .write arg0 arg1 arg2 0) w
      fun _ w' ↦ R w.kernel w'.kernel := fun _ _ _ w ↦ ensures_pure.mpr (refl w.kernel)
  rw [handleWrite]
  refine keeps_getCpu.bind fun cpu ↦ (keeps_reading _).bind fun bytes ↦ ?_
  have hend := sys_setRax_keeps (hwrite cpu.rdi cpu.rsi cpu.rdx) false
  dsimp only
  exact .ite ((keeps_process _).bind fun _ ↦ hend) hend

/-- **A system call that neither exits nor runs a program** keeps what its arm of `dispatch` and the
reader of stdin keep. -/
theorem handleSyscall_keepsAt
    (hstdin : ∀ w, Ensures readStdinByteBlocking w fun _ w' ↦ R w.kernel w'.kernel)
    (hcall : ∀ arg0 arg1 arg2 arg3 w,
      Ensures (dispatch (Nr.decode g.cpu.rax.toNat) arg0 arg1 arg2 arg3) w
        fun _ w' ↦ R w.kernel w'.kernel)
    (hexit : Nr.decode g.cpu.rax.toNat ≠ .exit) (hgroup : Nr.decode g.cpu.rax.toNat ≠ .exitGroup)
    (hexec : Nr.decode g.cpu.rax.toNat ≠ .execve) :
    KeepsAt (OnOs (OnKernel R)) (handleSyscall run tmp base) g := by
  rw [KeepsAt, handleSyscall, bind_getCpu]
  generalize Nr.decode g.cpu.rax.toNat = nr at hcall hexit hgroup hexec
  cases nr with
  | read => exact handleRead_keeps hstdin hcall g
  | write => exact handleWrite_keeps g
  | getpid | brk => exact sys_setRax_keeps (hcall _ _ _ _) false g
  | execve => exact absurd rfl hexec
  | exit => exact absurd rfl hexit
  | exitGroup => exact absurd rfl hgroup
  | _ => exact (keeps_getCpu.bind fun cpu ↦ sys_setRax_keeps (hcall _ _ _ _) false) g

end Keeps

/-- An exit stops the program. -/
theorem handleSyscall_exit (h : Nr.decode g.cpu.rax.toNat = .exit ∨
    Nr.decode g.cpu.rax.toNat = .exitGroup) : handleSyscall run tmp base g =
      .ok true { g with
        cpu := { g.cpu with rax := 0 }
        os := { g.os with world := { g.os.world with
          kernel := g.os.world.kernel.markExitCode (g.cpu.rdi.setWidth 32) } } } := by
  rw [handleSyscall, bind_getCpu]
  rcases h with h | h <;> rw [h] <;> rfl

theorem handleSyscall_of_execve (h : Nr.decode g.cpu.rax.toNat = .execve) :
    handleSyscall run tmp base g = handleExecve run base g := by
  rw [handleSyscall, bind_getCpu, h]

/-- Only `execve` looks at the runner. -/
theorem handleSyscall_of_ne_execve (run run' : Run) (h : Nr.decode g.cpu.rax.toNat ≠ .execve) :
    handleSyscall run tmp base g = handleSyscall run' tmp base g := by
  rw [handleSyscall, handleSyscall, bind_getCpu, bind_getCpu]
  generalize Nr.decode g.cpu.rax.toNat = nr at h
  cases nr with
  | execve => exact absurd rfl h
  | _ => rfl

/-- **A program keeps what its system calls keep.** -/
theorem runProgram_keeps {R : Os → Os → Prop} [IsPreorder Os R] {prog : LinuxProgram}
    (h : ∀ base, Keeps (OnOs R) (handleSyscall run tmp base)) :
    Keeps R (runProgram run tmp prog) := by
  intro os
  have hkeeps : Keeps (OnOs R) (runSteps (handleSyscall run tmp prog.base) prog.base maxSteps) :=
    runSteps_keeps (h prog.base) maxSteps
  obtain ⟨hok, herr⟩ := hkeeps ⟨Cpu.start prog.initialRsp prog.entry, prog.mem, os⟩
  rw [KeepsAt, runProgram]
  cases hrun : runSteps (handleSyscall run tmp prog.base) prog.base maxSteps
      ⟨Cpu.start prog.initialRsp prog.entry, prog.mem, os⟩ with
  | ok a g =>
    refine ⟨fun _ _ hb ↦ ?_, fun _ _ he ↦ by cases he⟩
    cases hb
    exact hok a g hrun
  | error e g =>
    refine ⟨fun _ _ hb ↦ (by cases hb), fun _ _ he ↦ ?_⟩
    cases he
    exact herr _ g hrun

/-! ## `execve` -/

/-- The file that `execve` is to run, with its name, arguments and environment. -/
structure ExecTarget (base : U64) (g : Guest Os) (name : String) (argv envp : List String)
    (rec : FileRecord) : Prop where
  /-- The path is read, and leads to the name. -/
  path : ∃ path, readUserCstr base g.mem g.cpu.rdi = .ok (some path) ∧
    normalizeExecPath path = some name
  /-- The arguments. -/
  argv : readUserStrArray base g.mem g.cpu.rsi 64 = .ok argv
  /-- The environment. -/
  envp : readUserStrArray base g.mem g.cpu.rdx 64 = .ok envp
  /-- The mounted image has a file with this name. -/
  file : ∃ image, g.os.world.kernel.rootfs = some image ∧ Fs.open image.bytes name = .ok rec

/-- The run of another program keeps what its runner keeps. -/
theorem attempt_keeps {R : Os → Os → Prop} {x : RustM RunError Os Unit} (h : Keeps R x) :
    Keeps (OnOs R) (attempt x) := by
  intro g
  obtain ⟨hok, herr⟩ := h g.os
  rw [KeepsAt, attempt]
  cases hrun : x g.os with
  | ok a os =>
    refine ⟨fun _ _ hb ↦ ?_, fun _ _ he ↦ by cases he⟩
    cases hb
    exact hok a os hrun
  | error e os =>
    cases e with
    | err e =>
      refine ⟨fun _ _ hb ↦ ?_, fun _ _ he ↦ by cases he⟩
      cases hb
      exact herr e os hrun
    | panic => exact ⟨fun _ _ hb ↦ (by cases hb), fun _ _ he ↦ by cases he⟩

theorem bind_reading {ω α β : Type} {g : Guest ω} {f : List U8 → Rust RunError α}
    {k : α → Interp ω β} : (reading f >>= k) g = match f g.mem with
      | .ok a => k a g
      | .error e => .error e g := by
  rw [reading, bind_assoc, bind_get, bind_apply]
  cases f g.mem <;> rfl

theorem bind_writing {β : Type} {f : List U8 → Rust RunError (List U8)} {k : Unit → Interp Os β} :
    (writing f >>= k) g = match f g.mem with
      | .ok mem => k () { g with mem := mem }
      | .error e => .error e g := by
  rw [writing, bind_assoc, bind_get, bind_apply, bind_apply]
  cases f g.mem <;> rfl

/-- **`execve` runs a file, or nothing is done.** -/
theorem handleExecve_cases (base : U64) (g : Guest Os) :
    (∃ name argv envp rec, ExecTarget base g name argv envp rec ∧
      ∀ run, handleExecve run base g = execFile run name argv envp rec g) ∨
    (∀ name argv envp rec, ¬ExecTarget base g name argv envp rec) ∧
      ((∃ r, ∀ run, handleExecve run base g = .ok false { g with cpu := { g.cpu with rax := r } }) ∨
        ∃ e, ∀ run, handleExecve run base g = .error e g) := by
  simp only [handleExecve, bind_getCpu, bind_reading]
  cases hpath : readUserCstr base g.mem g.cpu.rdi with
  | error e =>
    refine .inr ⟨fun _ _ _ _ h ↦ ?_, .inr ⟨e, fun _ ↦ rfl⟩⟩
    obtain ⟨path, hok, -⟩ := h.path
    exact nomatch hpath.symm.trans hok
  | ok path =>
    cases path with
    | none =>
      refine .inr ⟨fun _ _ _ _ h ↦ ?_, .inl ⟨-efault, fun _ ↦ rfl⟩⟩
      obtain ⟨path, hok, -⟩ := h.path
      exact nomatch hpath.symm.trans hok
    | some path =>
      simp only [bind_reading]
      cases hargv : readUserStrArray base g.mem g.cpu.rsi 64 with
      | error e =>
        exact .inr ⟨fun _ _ _ _ h ↦ (nomatch hargv.symm.trans h.argv), .inr ⟨e, fun _ ↦ rfl⟩⟩
      | ok argv =>
        cases henvp : readUserStrArray base g.mem g.cpu.rdx 64 with
        | error e =>
          exact .inr ⟨fun _ _ _ _ h ↦ (nomatch henvp.symm.trans h.envp), .inr ⟨e, fun _ ↦ rfl⟩⟩
        | ok envp =>
          simp only
          cases hname : normalizeExecPath path with
          | none =>
            refine .inr ⟨fun _ _ _ _ h ↦ ?_, .inl ⟨-enoent, fun _ ↦ rfl⟩⟩
            obtain ⟨path', hok, hname'⟩ := h.path
            obtain rfl : path = path' := Option.some_inj.mp (Except.ok.inj (hpath.symm.trans hok))
            exact nomatch hname.symm.trans hname'
          | some name =>
            simp only [bind_get]
            cases hmount : g.os.world.kernel.rootfs with
            | none =>
              refine .inr ⟨fun _ _ _ _ h ↦ ?_, .inl ⟨-enoent, fun _ ↦ rfl⟩⟩
              obtain ⟨image, hsome, -⟩ := h.file
              exact nomatch hmount.symm.trans hsome
            | some image =>
              simp only
              cases hopen : Fs.open image.bytes name with
              | ok rec =>
                exact .inl ⟨name, argv, envp, rec, ⟨⟨path, hpath, hname⟩, hargv, henvp,
                  image, hmount, hopen⟩, fun _ ↦ rfl⟩
              | error e =>
                refine .inr ⟨fun name' _ _ _ h ↦ ?_, .inl ⟨-enoent, fun _ ↦ rfl⟩⟩
                obtain ⟨path', hok, hname'⟩ := h.path
                obtain rfl : path = path' :=
                  Option.some_inj.mp (Except.ok.inj (hpath.symm.trans hok))
                obtain rfl : name = name' := Option.some_inj.mp (hname.symm.trans hname')
                obtain ⟨image', hmount', hopen'⟩ := h.file
                obtain rfl : image = image' := Option.some_inj.mp (hmount.symm.trans hmount')
                exact nomatch hopen.symm.trans hopen'

/-! ## Whole runs -/

section Runs

variable {R : Kernel → Kernel → Prop} [IsPreorder Kernel R]

theorem handleExecve_keeps (hmark : ∀ k : Kernel, R k (k.markExitCode 0))
    (hrun : ∀ image argv envp, Keeps (OnKernel R) (run image argv envp)) :
    Keeps (OnOs (OnKernel R)) (handleExecve run base) := fun g ↦ by
  rcases handleExecve_cases base g with ⟨name, argv, envp, rec, -, h⟩ | ⟨-, ⟨r, h⟩ | ⟨e, h⟩⟩
  · have hfile : Keeps (OnOs (OnKernel R)) (execFile run name argv envp rec) :=
      (keeps_sys fun w ↦ ensures_modifyKernel.mpr (hmark w.kernel)).bind fun _ ↦
        (attempt_keeps (hrun _ _ _)).bind fun ok ↦
          .ite (keeps_setRax 0 true) (keeps_setRax (-enoexec) false)
    rw [KeepsAt, h]
    exact hfile g
  · rw [KeepsAt, h]
    refine ⟨fun _ _ hx ↦ ?_, fun _ _ hx ↦ by cases hx⟩
    cases hx
    exact refl g.os
  · rw [KeepsAt, h]
    refine ⟨fun _ _ hx ↦ (by cases hx), fun _ _ hx ↦ ?_⟩
    cases hx
    exact refl g.os

/-- **A system call keeps** what every call of `dispatch`, the reader of stdin and the programs that
it runs keep. -/
theorem handleSyscall_keeps
    (hstdin : ∀ w, Ensures readStdinByteBlocking w fun _ w' ↦ R w.kernel w'.kernel)
    (hcall : ∀ nr arg0 arg1 arg2 arg3 w, Ensures (dispatch nr arg0 arg1 arg2 arg3) w
      fun _ w' ↦ R w.kernel w'.kernel)
    (hrun : ∀ image argv envp, Keeps (OnKernel R) (run image argv envp)) :
    Keeps (OnOs (OnKernel R)) (handleSyscall run tmp base) := fun g ↦ by
  have hmark (code : BitVec 32) (k : Kernel) : R k (k.markExitCode code) := by
    have hexit := hcall .exit (code.setWidth 64) 0 0 0 ⟨k, fun _ ↦ 0, []⟩ _ _ rfl
    rw [BitVec.setWidth_setWidth_of_le _ (by decide), BitVec.setWidth_eq] at hexit
    exact hexit
  by_cases hexit : Nr.decode g.cpu.rax.toNat = .exit ∨ Nr.decode g.cpu.rax.toNat = .exitGroup
  · rw [KeepsAt, handleSyscall_exit hexit]
    refine ⟨fun _ _ hx ↦ ?_, fun _ _ hx ↦ by cases hx⟩
    cases hx
    exact hmark _ g.os.world.kernel
  obtain ⟨hexit, hgroup⟩ := not_or.mp hexit
  by_cases hexec : Nr.decode g.cpu.rax.toNat = .execve
  · rw [KeepsAt, handleSyscall_of_execve hexec]
    exact handleExecve_keeps (hmark 0) hrun g
  · exact handleSyscall_keepsAt hstdin (hcall _) hexit hgroup hexec

/-- **A whole run keeps** what every call of `dispatch` and the reader of stdin keep. -/
theorem runLinuxElf_keeps
    (hstdin : ∀ w, Ensures readStdinByteBlocking w fun _ w' ↦ R w.kernel w'.kernel)
    (hcall : ∀ nr arg0 arg1 arg2 arg3 w, Ensures (dispatch nr arg0 arg1 arg2 arg3) w
      fun _ w' ↦ R w.kernel w'.kernel) (depth : ℕ) (image : List U8) (argv envp : List String) :
    Keeps (OnKernel R) (runLinuxElf tmp depth image argv envp) := by
  induction depth generalizing image argv envp with
  | zero => exact keeps_throw _
  | succ depth ih =>
    rw [runLinuxElf]
    exact (keeps_lift _).bind fun prog ↦ runProgram_keeps fun base ↦
      handleSyscall_keeps hstdin hcall ih

end Runs

end LeonOS
