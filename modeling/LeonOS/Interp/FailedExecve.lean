import LeonOS.Interp.Faults
import LeonOS.Interp.Programs

/-!
# Programs that fail without a trace

When the program that an `execve` runs comes to an instruction that the interpreter does not know,
or to the step limit, its caller is told `-ENOEXEC` and finds the system as that program has left
it, with an exit code marked.  So a failed `execve` leaves no trace if the mark was there before and
no step of the program up to the failure has changed anything (`leavesNoTrace_of_harmless`).

A program might undo what it has done before it fails; what it has written to the terminal it cannot
(`screen_of_leavesNoTrace`).
-/

set_option autoImplicit false

namespace LeonOS

open Bytes RustM Elf

variable {run : Run} {tmp : StackSlot} {depth k : ℕ} {base : U64} {g g' : Guest Os} {os os' : Os}
  {image : List U8} {argv envp : List String} {prog : LinuxProgram} {syscall : Interp Os Bool}

/-! ## The condition -/

/-- To mark the exit code 0 changes nothing. -/
def Os.AlreadyStarted (os : Os) : Prop :=
  os.world.kernel.lastExit = 0 ∧ os.world.kernel.exitWaitable = true

/-- A program fails with its step `k`: the step is an error, or no step is left. -/
def FailsAt (syscall : Interp Os Bool) (base : U64) (k : ℕ) (last : Guest Os) : Prop :=
  (k < maxSteps ∧ ∃ e g', execOne syscall base last = .error (.err e) g') ∨ k = maxSteps

/-- **A loaded program does no harm**: where it fails, it was marked as started before, and none of
its steps up to there has changed anything. -/
def LinuxProgram.Harmless (prog : LinuxProgram) (tmp : StackSlot) (depth : ℕ) (os : Os) : Prop :=
  ∀ k last, StepsIn (handleSyscall (runLinuxElf tmp depth) tmp prog.base) prog.base k
      (prog.guest os.started) last →
    FailsAt (handleSyscall (runLinuxElf tmp depth) tmp prog.base) prog.base k last →
    os.AlreadyStarted ∧ ∀ i < k, ∀ s s',
      StepsIn (handleSyscall (runLinuxElf tmp depth) tmp prog.base) prog.base i
        (prog.guest os.started) s →
      Step (handleSyscall (runLinuxElf tmp depth) tmp prog.base) prog.base s s' →
        Untouched s.os s'.os

/-- **A file does no harm** when it is run: it cannot be loaded, and was marked as started before,
or it is loaded and the program does none. -/
structure Harmless (tmp : StackSlot) (depth : ℕ) (os : Os) (image : List U8)
    (argv envp : List String) : Prop where
  /-- It cannot be loaded. -/
  refused (e : RunError) (h : loadLinuxElf image argv envp = .error (.err e)) : os.AlreadyStarted
  /-- It is loaded. -/
  loaded (prog : LinuxProgram) (h : loadLinuxElf image argv envp = .ok prog) :
    prog.Harmless tmp depth os

/-! ## It is enough -/

theorem Untouched.trans {os₁ os₂ os₃ : Os} (h : Untouched os₁ os₂) (h' : Untouched os₂ os₃) :
    Untouched os₁ os₃ :=
  ⟨h'.lastExit.trans h.lastExit, h'.exitWaitable.trans h.exitWaitable, h'.fdTable.trans h.fdTable,
    h'.brk.trans h.brk, h'.mmapBase.trans h.mmapBase, h'.screen.trans h.screen,
    h'.polled.trans h.polled⟩

instance : IsPreorder Os Untouched where
  refl _ := .rfl
  trans _ _ _ := .trans

/-- **How the run of a file fails**: it is not loaded, or the program comes to its failure. -/
theorem runLinuxElf_eq_err :
    (∃ e, runLinuxElf tmp (depth + 1) image argv envp os = .error (.err e) os') ↔
      (∃ e, loadLinuxElf image argv envp = .error (.err e)) ∧ os' = os ∨
      ∃ prog, loadLinuxElf image argv envp = .ok prog ∧ ∃ k last,
        StepsIn (handleSyscall (runLinuxElf tmp depth) tmp prog.base) prog.base k (prog.guest os)
          last ∧
        FailsAt (handleSyscall (runLinuxElf tmp depth) tmp prog.base) prog.base k last ∧
        os' = last.os := by
  simp only [runLinuxElf, bind_apply, RustM.lift]
  cases loadLinuxElf image argv envp with
  | error e' =>
    constructor
    · rintro ⟨e, h⟩
      cases h
      exact .inl ⟨⟨e, rfl⟩, rfl⟩
    · rintro (⟨⟨e, h⟩, rfl⟩ | ⟨prog, h, -⟩)
      · cases h
        exact ⟨e, rfl⟩
      · cases h
  | ok prog =>
    dsimp only
    rw [runProgram]
    constructor
    · rintro ⟨e, h⟩
      refine .inr ⟨prog, rfl, ?_⟩
      cases hrun : runSteps (handleSyscall (runLinuxElf tmp depth) tmp prog.base) prog.base maxSteps
          ⟨Cpu.start prog.initialRsp prog.entry, prog.mem, os⟩ with
      | ok u g =>
        rw [hrun] at h
        cases h
      | error e' g =>
        rw [hrun] at h
        cases h
        obtain ⟨k, last, hsteps, ⟨hk, hlast⟩ | ⟨hk, rfl⟩⟩ := runSteps_eq_err hrun
        · exact ⟨k, last, hsteps, .inl ⟨hk, e, _, hlast⟩, congrArg Guest.os (execOne_eq_err hlast).1⟩
        · exact ⟨k, _, hsteps, .inr hk, rfl⟩
    · rintro (⟨⟨e, h⟩, -⟩ | ⟨prog', h, k, last, hsteps, hfails, rfl⟩)
      · cases h
      cases h
      rw [LinuxProgram.guest] at hsteps
      rcases hfails with ⟨hk, e, g', hlast⟩ | rfl
      · obtain ⟨n, hn⟩ := Nat.exists_eq_add_of_lt hk
        rw [hn, Nat.add_assoc, runSteps_add hsteps, runSteps_of_error hlast]
        obtain rfl := (execOne_eq_err hlast).1
        exact ⟨e, rfl⟩
      · rw [← Nat.add_zero maxSteps, runSteps_add hsteps]
        exact ⟨_, rfl⟩

theorem Harmless.untouched {e : RunError} (h : Harmless tmp depth os image argv envp)
    (hrun : runLinuxElf tmp (depth + 1) image argv envp os.started = .error (.err e) os') :
    Untouched os os' := by
  obtain ⟨⟨e, hload⟩, rfl⟩ | ⟨prog, hload, k, last, hsteps, hfails, rfl⟩ :=
    runLinuxElf_eq_err.mp ⟨e, hrun⟩
  · exact untouched_started.mpr (h.refused e hload)
  · obtain ⟨hstarted, hquiet⟩ := h.loaded prog hload k last hsteps hfails
    have hchain : OnOs Untouched (prog.guest os.started) last := hsteps.chain hquiet
    exact (untouched_started.mpr hstarted).trans hchain

/-- **A failed `execve` leaves no trace** if the file that it runs, when it finds one, does no
harm. -/
theorem leavesNoTrace_of_harmless (tmp : StackSlot) (depth : ℕ) (base : U64) (g : Guest Os)
    (h : ∀ name argv envp rec, ExecTarget base g name argv envp rec →
      Harmless tmp depth g.os rec.data (execArgs name argv) envp) :
    LeavesNoTrace (runLinuxElf tmp (depth + 1)) base g := by
  rcases handleExecve_cases base g with ⟨name, argv, envp, rec, htarget, hrun⟩ | ⟨hnone, -⟩
  · exact (leavesNoTrace_of_target hrun).mpr fun e os' ↦
      (h name argv envp rec htarget).untouched
  · exact leavesNoTrace_of_noTarget hnone

/-! ## What cannot be undone -/

/-- The terminal has got some bytes. -/
def Printed (os os' : Os) : Prop := os.screen <+: os'.screen

instance : IsPreorder Os Printed where
  refl _ := List.prefix_rfl
  trans _ _ _ := List.IsPrefix.trans

theorem printed_process (bytes : List U8) : Keeps (OnOs Printed) (process bytes) :=
  keeps_modify fun g ↦ List.prefix_append g.os.screen bytes

theorem printed_clearTmp : Keeps (OnOs Printed) (clearTmp tmp) :=
  keeps_modify fun _ ↦ List.prefix_rfl

theorem printed_sys {α : Type} (x : SysM α) : Keeps (OnOs Printed) (sys x) := by
  intro g
  rw [KeepsAt, sys]
  cases x g.os.world with
  | ok a w =>
    refine ⟨fun _ _ h ↦ ?_, fun _ _ h ↦ by cases h⟩
    cases h
    exact List.prefix_rfl
  | error e w =>
    cases e with
    | err e => exact e.elim
    | panic => exact ⟨fun _ _ h ↦ (by cases h), fun _ _ h ↦ by cases h⟩

theorem printed_sys_setRax (x : SysM U64) (stop : Bool) :
    Keeps (OnOs Printed) (sys x >>= fun n ↦ setRax n stop) :=
  (printed_sys x).bind fun n ↦ keeps_setRax n stop

theorem printed_readLineFrom (start n got : ℕ) :
    Keeps (OnOs Printed) (readLineFrom start n got) := by
  induction n generalizing got with
  | zero => exact keeps_pure got
  | succ n ih =>
    rw [readLineFrom]
    refine (printed_sys _).bind fun ch ↦ ?_
    split
    · exact keeps_pure got
    · refine (keeps_writing _).bind fun _ ↦ (printed_process _).bind fun _ ↦ ?_
      exact .ite (keeps_pure _) (ih _)

theorem printed_handleRead : Keeps (OnOs Printed) (handleRead tmp base) := by
  rw [handleRead]
  refine keeps_getCpu.bind fun cpu ↦ (keeps_reading _).bind fun start ↦ keeps_get.bind fun g ↦ ?_
  refine .ite (keeps_setRax 0 false) (.ite ?_ ?_)
  · exact (printed_readLineFrom _ _ _).bind fun got ↦ keeps_setRax _ false
  · refine printed_clearTmp.bind fun _ ↦ (printed_sys _).bind fun n ↦ ?_
    refine .ite ?_ (keeps_setRax n false)
    exact keeps_get.bind fun g ↦ (keeps_writing _).bind fun _ ↦ keeps_setRax n false

theorem printed_handleWrite : Keeps (OnOs Printed) (handleWrite base) := by
  rw [handleWrite]
  refine keeps_getCpu.bind fun cpu ↦ (keeps_reading _).bind fun bytes ↦ ?_
  have hend := printed_sys_setRax (dispatch .write cpu.rdi cpu.rsi cpu.rdx 0) false
  exact .ite ((printed_process _).bind fun _ ↦ hend) hend

theorem printed_handleExecve (hrun : ∀ image argv envp, Keeps Printed (run image argv envp)) :
    Keeps (OnOs Printed) (handleExecve run base) := fun g ↦ by
  rcases handleExecve_cases base g with ⟨name, argv, envp, rec, -, h⟩ | ⟨-, ⟨r, h⟩ | ⟨e, h⟩⟩
  · have hfile : Keeps (OnOs Printed) (execFile run name argv envp rec) :=
      (printed_sys _).bind fun _ ↦ (attempt_keeps (hrun _ _ _)).bind fun _ ↦
        .ite (keeps_setRax 0 true) (keeps_setRax (-enoexec) false)
    rw [KeepsAt, h]
    exact hfile g
  · rw [KeepsAt, h]
    refine ⟨fun _ _ hx ↦ ?_, fun _ _ hx ↦ by cases hx⟩
    cases hx
    exact List.prefix_rfl
  · rw [KeepsAt, h]
    refine ⟨fun _ _ hx ↦ (by cases hx), fun _ _ hx ↦ ?_⟩
    cases hx
    exact List.prefix_rfl

theorem printed_handleSyscall (hrun : ∀ image argv envp, Keeps Printed (run image argv envp)) :
    Keeps (OnOs Printed) (handleSyscall run tmp base) := by
  rw [handleSyscall]
  refine keeps_getCpu.bind fun cpu ↦ ?_
  split
  · exact printed_handleRead
  · exact printed_handleWrite
  · exact printed_sys_setRax _ false
  · exact printed_sys_setRax _ false
  · exact printed_handleExecve hrun
  · exact printed_sys_setRax _ true
  · exact printed_sys_setRax _ true
  · exact keeps_getCpu.bind fun cpu ↦ printed_sys_setRax _ false

/-- **What a run has written stays on the terminal**, and what is nested in it. -/
theorem printed_runLinuxElf (depth : ℕ) (image : List U8) (argv envp : List String) :
    Keeps Printed (runLinuxElf tmp depth image argv envp) := by
  induction depth generalizing image argv envp with
  | zero => exact keeps_throw _
  | succ depth ih =>
    rw [runLinuxElf]
    exact (keeps_lift _).bind fun prog ↦ runProgram_keeps fun base ↦ printed_handleSyscall ih

theorem LeavesNoTrace.untouched {name : String} {rec : FileRecord} {e : RunError}
    (h : LeavesNoTrace run base g) (htarget : ExecTarget base g name argv envp rec)
    (hrun : run rec.data (execArgs name argv) envp g.os.started = .error (.err e) os') :
    Untouched g.os os' := by
  rcases handleExecve_cases base g with ⟨name', argv', envp', rec', htarget', hexec⟩ | ⟨hnone, -⟩
  · obtain ⟨rfl, rfl, rfl, rfl⟩ := htarget.unique htarget'
    exact (leavesNoTrace_of_target hexec).mp h e _ hrun
  · exact absurd htarget (hnone _ _ _ _)

/-- **A failed `execve` that leaves no trace has written nothing**: no step of the program that it
has run writes to the terminal. -/
theorem screen_of_leavesNoTrace {name : String} {rec : FileRecord} {last s s' : Guest Os} {i : ℕ}
    (h : LeavesNoTrace (runLinuxElf tmp (depth + 1)) base g)
    (htarget : ExecTarget base g name argv envp rec)
    (hload : loadLinuxElf rec.data (execArgs name argv) envp = .ok prog)
    (hsteps : StepsIn (handleSyscall (runLinuxElf tmp depth) tmp prog.base) prog.base k
      (prog.guest g.os.started) last)
    (hfails : FailsAt (handleSyscall (runLinuxElf tmp depth) tmp prog.base) prog.base k last)
    (hi : i < k) (hs : StepsIn (handleSyscall (runLinuxElf tmp depth) tmp prog.base) prog.base i
      (prog.guest g.os.started) s)
    (hstep : Step (handleSyscall (runLinuxElf tmp depth) tmp prog.base) prog.base s s') :
    s'.os.screen = s.os.screen := by
  have hkeeps : Keeps (OnOs Printed)
      (execOne (handleSyscall (runLinuxElf tmp depth) tmp prog.base) prog.base) :=
    execOne_keeps (printed_handleSyscall (printed_runLinuxElf depth))
  have hchain {j : ℕ} {t t' : Guest Os} (ht : StepsIn (handleSyscall (runLinuxElf tmp depth) tmp
      prog.base) prog.base j t t') : Printed t.os t'.os :=
    ht.chain (R := OnOs Printed) fun _ _ u u' _ hu ↦ (hkeeps u).1 false u' hu
  obtain ⟨m, hrest⟩ := hsteps.rest hi hs hstep
  obtain ⟨e, hrun⟩ := runLinuxElf_eq_err.mpr (.inr ⟨prog, hload, k, last, hsteps, hfails, rfl⟩)
  -- nothing is on the terminal in the end that was not there before
  have hsame : last.os.screen = g.os.screen := (h.untouched htarget hrun).screen
  have hbefore := (hchain hs).length_le
  have hafter := (hchain hrest).length_le
  rw [hsame] at hafter
  exact ((hchain (.head hstep (.refl s'))).eq_of_length_le (hafter.trans hbefore)).symm

/-! ### A program that makes a system call and fails -/

/-- `getpid`, and a byte that is no instruction. -/
abbrev getpidCode : List U8 := callCode 39 0 [0x06]

set_option maxRecDepth 8000 in
theorem codeFile_getpid : CodeFile getpidCode := ⟨rfl, by decide⟩

/-- The next system call of the program is `execve("a", NULL, NULL)`. -/
def atExecve (os : Os) : Guest Os where
  cpu := { Cpu.start 0x400000 0x400000 with rax := 59, rdi := 0x400000 }
  mem := [0x61, 0]
  os := os

theorem atExecve_target {image : Image} {rec : FileRecord}
    (hroot : os.world.kernel.rootfs = some image) (hopen : Fs.open image.bytes "a" = .ok rec) :
    ExecTarget 0x400000 (atExecve os) "a" [] [] rec := by
  have hpath : readUserCstr 0x400000 (atExecve os).mem 0x400000 = .ok (some "a") :=
    readUserCstr_a (by decide) rfl rfl
  exact ⟨⟨"a", hpath, by rfl⟩, rfl, rfl, image, hroot, hopen⟩

/-- Behind its system call. -/
def afterGetpid (sp : U64) (mem : List U8) (os : Os) : Guest Os where
  cpu := { Cpu.start sp codeAddr with rax := os.world.kernel.pid.setWidth 64, rip := codeAddr + 12 }
  mem := mem
  os := os

section Steps

variable {sp : U64} {mem : List U8} {i : ℕ} {s s' : Guest Os}

theorem step_getpid (hin : CallIn 39 0 [0x06] mem) :
    Step (handleSyscall run tmp codeAddr) codeAddr (atCall 39 0 sp mem os)
      (afterGetpid sp mem os) := by
  have hnr : Nr.decode (atCall 39 0 sp mem os).cpu.rax.toNat = .getpid := rfl
  have hcall : handleSyscall run tmp codeAddr (atCall 39 0 sp mem os) =
      .ok false { atCall 39 0 sp mem os with cpu := { (atCall 39 0 sp mem os).cpu with
        rax := os.world.kernel.pid.setWidth 64 } } := by
    rw [handleSyscall, bind_getCpu, hnr]
    rfl
  exact hin.execOne_call sp os hcall rfl

attribute [local simp] arms setArm movArm zeroArm pushArm popArm loadArm movImmArm leaRipArm testArm
  leaArm movHighArm movLowArm storeImmArm storeImmSpArm jmpArm jmpShortArm jeArm
  aluImm8Arm aluImm32Arm movLoadArm firstArm_none firstArm_arm_of_not firstArm_arm_of in
theorem execOne_six (h : g.code base 0 = 0x06) :
    ∃ e, execOne syscall base g = .error (.err e) g := by
  obtain ⟨b, hb, hx⟩ := execOne_of_code syscall (by rw [h]; decide)
  have h0 : b[0] = 0x06 := (hb 0 (by decide)).trans h
  refine ⟨.unsupportedInstruction g.cpu.rip b, ?_⟩
  rw [hx]
  simp [h0]
  rfl

theorem afterGetpid_fails (hin : CallIn 39 0 [0x06] mem) :
    ∃ e, execOne syscall codeAddr (afterGetpid sp mem os) =
      .error (.err e) (afterGetpid sp mem os) := by
  have hat : (afterGetpid sp mem os).At codeAddr (callCode 39 0 [0x06]) 12 := hin.at rfl rfl
  exact execOne_six (hat.code_eq (k := 0) (by decide))

/-- None of the steps has changed anything. -/
theorem untouched_getpid (hin : CallIn 39 0 [0x06] mem)
    (hs : StepsIn (handleSyscall run tmp codeAddr) codeAddr i (atEntry sp mem os) s)
    (hstep : Step (handleSyscall run tmp codeAddr) codeAddr s s') : Untouched s.os s'.os := by
  have hmov : Step (handleSyscall run tmp codeAddr) codeAddr (atEntry sp mem os)
      (betweenMoves 39 sp mem os) := hin.step_mov_eax sp os
  have hmov' : Step (handleSyscall run tmp codeAddr) codeAddr (betweenMoves 39 sp mem os)
      (atCall 39 0 sp mem os) := hin.step_mov_edi sp os
  have hcall : Step (handleSyscall run tmp codeAddr) codeAddr (atCall 39 0 sp mem os)
      (afterGetpid sp mem os) := step_getpid hin
  obtain ⟨e, hfails⟩ : ∃ e, execOne (handleSyscall run tmp codeAddr) codeAddr
      (afterGetpid sp mem os) = .error (.err e) (afterGetpid sp mem os) := afterGetpid_fails hin
  cases hs with
  | refl =>
    cases hmov.symm.trans hstep
    exact .rfl
  | head h hs =>
    cases hmov.symm.trans h
    cases hs with
    | refl =>
      cases hmov'.symm.trans hstep
      exact .rfl
    | head h hs =>
      cases hmov'.symm.trans h
      cases hs with
      | refl =>
        cases hcall.symm.trans hstep
        exact .rfl
      | head h hs =>
        cases hcall.symm.trans h
        cases hs with
        | refl => cases hfails.symm.trans hstep
        | head h _ => cases hfails.symm.trans h

end Steps

/-- The program is loaded, and comes to its failure. -/
theorem getpid_loaded : ∃ prog sp mem, loadLinuxElf (codeFile getpidCode) (execArgs "a" []) [] =
    .ok prog ∧ CallIn 39 0 [0x06] mem ∧ prog.base = codeAddr ∧
      ∀ os, prog.guest os = atEntry sp mem os := by
  obtain ⟨⟨base, mem, sp, entry⟩, hload, rfl, rfl, hcode, hmem⟩ :=
    codeFile_getpid.loads (oneArg "a" (by decide)) .nil (by decide)
  dsimp only at hcode hmem
  have hsize : linuxRunner.stackSize = 131072 := rfl
  have hlen := codeFile_getpid.length_le
  exact ⟨_, sp, mem, hload, ⟨hcode, by omega, by decide, by decide⟩, rfl, fun _ ↦ rfl⟩

theorem getpid_harmless (h : os.AlreadyStarted) :
    Harmless tmp depth os (codeFile getpidCode) (execArgs "a" []) [] := by
  obtain ⟨prog, sp, mem, hload, hin, hbase, hguest⟩ := getpid_loaded
  refine ⟨fun e herr ↦ ?_, fun prog' hload' ↦ ?_⟩
  · cases hload.symm.trans herr
  · obtain rfl := Except.ok.inj (hload.symm.trans hload')
    rw [LinuxProgram.Harmless, hbase, hguest]
    exact fun k last _ _ ↦ ⟨h, fun i _ s s' ↦ untouched_getpid hin⟩

theorem getpid_fails : ∃ e, runLinuxElf tmp (depth + 1) (codeFile getpidCode) (execArgs "a" []) []
    os = .error (.err e) os := by
  obtain ⟨prog, sp, mem, hload, hin, hbase, hguest⟩ := getpid_loaded
  refine runLinuxElf_eq_err.mpr (.inr ⟨prog, hload, 3, afterGetpid sp mem os, ?_, .inl ?_, rfl⟩)
  · rw [hbase, hguest]
    exact .head (hin.step_mov_eax sp os) (.head (hin.step_mov_edi sp os)
      (.head (step_getpid hin) (.refl _)))
  · obtain ⟨e, hfails⟩ := afterGetpid_fails hin
    rw [hbase]
    exact ⟨by decide, e, _, hfails⟩

theorem handleExecve_getpid {rec : FileRecord}
    (htarget : ExecTarget 0x400000 (atExecve os) "a" [] [] rec)
    (hdata : rec.data = codeFile getpidCode) :
    ∃ g', handleExecve (runLinuxElf tmp (depth + 1)) 0x400000 (atExecve os) = .ok false g' ∧
      g'.cpu.rax = -enoexec := by
  obtain ⟨e, hrun⟩ : ∃ e, runLinuxElf tmp (depth + 1) rec.data (execArgs "a" []) []
      (atExecve os).os.started = .error (.err e) (atExecve os).os.started := hdata ▸ getpid_fails
  rw [htarget.handleExecve_eq, hrun]
  exact ⟨_, rfl, rfl⟩

/-- The disk was mounted, and a program was started. -/
def startedOs : Os := (Os.mounted codeFile_getpid.disk).started

/-- **An `execve` of it fails and leaves no trace**, where a program was started before. -/
theorem leavesNoTrace_of_harmless_getpid :
    LeavesNoTrace (runLinuxElf ⟨1, by decide⟩ 1) 0x400000 (atExecve startedOs) ∧
      ∃ g', handleExecve (runLinuxElf ⟨1, by decide⟩ 1) 0x400000 (atExecve startedOs) =
        .ok false g' ∧ g'.cpu.rax = -enoexec := by
  obtain ⟨rec, hopen, hdata⟩ := codeFile_getpid.open_disk
  have htarget : ExecTarget 0x400000 (atExecve startedOs) "a" [] [] rec :=
    atExecve_target rfl hopen
  refine ⟨leavesNoTrace_of_harmless _ 0 _ _ fun name argv envp rec' htarget' ↦ ?_,
    handleExecve_getpid htarget hdata⟩
  obtain ⟨rfl, rfl, rfl, rfl⟩ := htarget.unique htarget'
  rw [hdata]
  exact getpid_harmless ⟨rfl, rfl⟩

/-! ### A file that is not a program -/

theorem runLinuxElf_of_refused {e : RunError}
    (h : loadLinuxElf image argv envp = .error (.err e)) :
    runLinuxElf tmp (depth + 1) image argv envp os = .error (.err e) os := by
  simp only [runLinuxElf, bind_apply, RustM.lift, h]

/-- An image with one file, which is empty. -/
def emptyFile : List BuildFile := [⟨"a", 0o644, []⟩]

theorem emptyFile_fits : Build.Fits emptyFile := by
  refine ⟨by decide, by decide, fun file hfile ↦ ?_, by decide⟩
  rw [List.mem_singleton.mp hfile]
  decide

/-- A disk with the file. -/
def emptyDisk : Image := ⟨Build.lfs1 emptyFile, Build.length_lfs1_lt emptyFile_fits⟩

/-- **An `execve` of the empty file fails**, and leaves an exit to be waited for. -/
theorem execve_leaves_trace : ¬∀ (tmp : StackSlot) (depth : ℕ),
    LeavesNoTrace (runLinuxElf tmp (depth + 1)) 0x400000 (atExecve (Os.mounted emptyDisk)) := by
  intro h
  obtain ⟨rec, hopen, hdata⟩ := Build.exists_open_lfs1 emptyFile_fits
    (show emptyFile.find? (·.name = "a") = some ⟨"a", 0o644, []⟩ from rfl)
  have hload : loadLinuxElf rec.data (execArgs "a" []) [] = .error (.err (.parse .tooSmall)) := by
    rw [hdata]
    rfl
  have htarget : ExecTarget 0x400000 (atExecve (Os.mounted emptyDisk)) "a" [] [] rec :=
    atExecve_target rfl hopen
  have hwaits : true = false :=
    ((h ⟨1, by decide⟩ 0).untouched htarget (runLinuxElf_of_refused hload)).exitWaitable
  cases hwaits

end LeonOS
