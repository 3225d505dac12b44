import LeonOS.Interp.Execve
import LeonOS.Interp.Stops

/-!
# What is counted of a run

The run of an interpreted program is a tree: `execve` runs another program inside of one of its
instructions, on the same stack, with a step counter of its own.  An `Account` says of such a run
how many instructions were executed in all of its programs, how deep they were nested, which exits
they made and how many of them were started by `execve`.  `accountRun` takes it along the functions
that the run goes through, and `execOne_cases` is the only place where an instruction is looked at:
either it is a system call, or what is outside of the program stays as it is.
-/

set_option autoImplicit false

namespace LeonOS

open Bytes RustM

/-! ## Instructions -/

section Instructions

variable {ω : Type} {g : Guest ω} {base : U64} {syscall : Interp ω Bool}

/-- `rip` is at a `syscall`. -/
def Guest.AtSyscall (g : Guest ω) (base : U64) : Prop :=
  g.code base 0 = 0x0F ∧ g.code base 1 = 0x05

instance : Decidable (g.AtSyscall base) := inferInstanceAs (Decidable (_ ∧ _))

theorem arms_of_not_syscall {b : Vector U8 8} (h : ¬(b.get 0 = 0x0F ∧ b.get 1 = 0x05))
    (syscall' : Interp ω Bool) : arms syscall base b = arms syscall' base b := by
  have harm (body body' : Interp ω Bool) : arm (b[0] = 0x0F ∧ b[1] = 0x05) body =
      arm (b[0] = 0x0F ∧ b[1] = 0x05) body' := by
    rw [arm, arm, if_neg (show ¬(b[0] = 0x0F ∧ b[1] = 0x05) from h),
      if_neg (show ¬(b[0] = 0x0F ∧ b[1] = 0x05) from h)]
  unfold arms
  rw [harm _ (do
    let exit ← syscall'
    ripAdd 2
    return exit)]

/-- An instruction that is not a `syscall` does not depend on what one does. -/
theorem execOne_of_not_atSyscall (h : ¬g.AtSyscall base) (syscall' : Interp ω Bool) :
    execOne syscall base g = execOne syscall' base g := by
  rw [execOne, execOne, bind_getCpu, bind_getCpu, bind_reading, bind_reading]
  cases hb : readBytes base g.mem g.cpu.rip with
  | error e => rfl
  | ok b =>
    have hcode : ¬(b[0] = 0x0F ∧ b[1] = 0x05) := by
      rw [readBytes_eq_ok hb 0 (by decide), readBytes_eq_ok hb 1 (by decide)]
      exact h
    dsimp only
    rw [arms_of_not_syscall hcode syscall']

/-- It leaves what is outside of the program alone. -/
theorem execOne_keepsOs (syscall : Interp ω Bool) (h : ¬g.AtSyscall base) :
    KeepsAt (OnOs Eq) (execOne syscall base) g := by
  have hkeeps : Keeps (OnOs (ω := ω) Eq) (execOne (pure false) base) :=
    execOne_keeps (keeps_pure false)
  have hat := hkeeps g
  have hsame : execOne syscall base g = execOne (pure false) base g :=
    execOne_of_not_atSyscall h (pure false)
  rw [KeepsAt, ← hsame] at hat
  exact hat

section Chain

attribute [local simp] arms setArm movArm zeroArm pushArm popArm loadArm movImmArm leaRipArm testArm
  leaArm movHighArm movLowArm storeImmArm storeImmSpArm jmpArm jmpShortArm jeArm
  aluImm8Arm aluImm32Arm movLoadArm firstArm_none firstArm_arm_of_not firstArm_arm_of

/-- A `syscall`. -/
theorem execOne_syscall (h : g.AtSyscall base) : execOne syscall base g = (do
    let exit ← syscall
    ripAdd 2
    return exit) g := by
  obtain ⟨h0, h1⟩ := h
  obtain ⟨b, hb, hx⟩ := execOne_of_code syscall (by rw [h0]; decide)
  have h0 : b[0] = 0x0F := (hb 0 (by decide)).trans h0
  have h1 : b[1] = 0x05 := (hb 1 (by decide)).trans h1
  rw [hx]
  simp [h0, h1]

end Chain

/-- What comes of a `syscall` is what comes of the call, unless `rip` is at the end. -/
theorem execOne_syscall_cases (syscall : Interp ω Bool) (h : g.AtSyscall base) :
    (∃ exit g', syscall g = .ok exit g' ∧ (execOne syscall base g = .error .panic g' ∨
      execOne syscall base g = .ok exit { g' with cpu := { g'.cpu with rip := g'.nextRip 2 } })) ∨
    ∃ e g', syscall g = .error e g' ∧ execOne syscall base g = .error e g' := by
  rw [execOne_syscall h, bind_apply]
  cases hcall : syscall g with
  | error e g' => exact .inr ⟨e, g', rfl, rfl⟩
  | ok exit g' =>
    refine .inl ⟨exit, g', rfl, ?_⟩
    dsimp only
    rw [ripAdd, bind_assoc, bind_getCpu, bind_assoc]
    cases hadd : (Rust.addWord g'.cpu.rip 2 : Rust RunError U64) with
    | error e =>
      refine .inl ?_
      rw [Rust.addWord] at hadd
      split at hadd
      · cases hadd
      · cases hadd
        rfl
    | ok rip =>
      obtain ⟨-, rfl⟩ := Rust.addWord_eq_ok.mp hadd
      exact .inr rfl

end Instructions

/-! ## Accounts -/

/-- What is counted. -/
structure Account where
  /-- The instructions that were executed, in all programs. -/
  instructions : ℕ
  /-- The number of programs that ran inside of the first, each inside of the one before. -/
  nesting : ℕ
  /-- The number of programs that `execve` has started. -/
  starts : ℕ
  /-- The arguments of `exit` and `exit_group`. -/
  exits : List (BitVec 32)

namespace Account

/-- Nothing. -/
def none : Account := ⟨0, 0, 0, []⟩

/-- An instruction. -/
def one : Account := ⟨1, 0, 0, []⟩

/-- An exit. -/
def exit (code : BitVec 32) : Account := ⟨0, 0, 0, [code]⟩

/-- One thing after another. -/
def seq (a b : Account) : Account where
  instructions := a.instructions + b.instructions
  nesting := max a.nesting b.nesting
  starts := a.starts + b.starts
  exits := a.exits ++ b.exits

/-- A program that was started by `execve`. -/
def nest (a : Account) : Account := { a with nesting := a.nesting + 1, starts := a.starts + 1 }

end Account

/-- The file that `execve` is to run, its arguments and its environment. -/
def execTarget (base : U64) (g : Guest Os) : Option (List U8 × List String × List String) := do
  let path ← (readUserCstr base g.mem g.cpu.rdi).toOption.join
  let argv ← (readUserStrArray base g.mem g.cpu.rsi 64).toOption
  let envp ← (readUserStrArray base g.mem g.cpu.rdx 64).toOption
  let name ← normalizeExecPath path
  let image ← g.os.world.kernel.rootfs
  let rec ← (Fs.open image.bytes name).toOption
  return (rec.data, execArgs name argv, envp)

/-- The account of a system call; `account` is that of the programs it may run. -/
def accountCall (account : List U8 → List String → List String → Os → Account) (base : U64)
    (g : Guest Os) : Account :=
  match Nr.decode g.cpu.rax.toNat with
  | .exit | .exitGroup => .exit (g.cpu.rdi.setWidth 32)
  | .execve =>
    match execTarget base g with
    | some (image, argv, envp) => (account image argv envp g.os.started).nest
    | none => .none
  | _ => .none

/-- The account of an instruction; `call` is that of a system call. -/
def accountStep (call : Guest Os → Account) (base : U64) (g : Guest Os) : Account :=
  if g.AtSyscall base then Account.one.seq (call g) else .one

/-- The account of the step loop, with `n` steps to go. -/
def accountSteps (syscall : Interp Os Bool) (call : Guest Os → Account) (base : U64) :
    ℕ → Guest Os → Account
  | 0, _ => .none
  | n + 1, g =>
    match execOne syscall base g with
    | .ok false g' => (accountStep call base g).seq (accountSteps syscall call base n g')
    | _ => accountStep call base g

/-- A loaded program before its first instruction. -/
def LinuxProgram.guest (prog : LinuxProgram) (os : Os) : Guest Os :=
  ⟨Cpu.start prog.initialRsp prog.entry, prog.mem, os⟩

/-- The account of `run_linux_elf_with_args`, with fewer than `depth` programs nested in it. -/
def accountRun (tmp : StackSlot) : ℕ → List U8 → List String → List String → Os → Account
  | 0, _, _, _, _ => .none
  | depth + 1, image, argv, envp, os =>
    match loadLinuxElf image argv envp with
    | .ok prog => accountSteps (handleSyscall (runLinuxElf tmp depth) tmp prog.base)
        (accountCall (accountRun tmp depth) prog.base) prog.base maxSteps
        ⟨Cpu.start prog.initialRsp prog.entry, prog.mem, os⟩
    | .error _ => .none

/-! ## System calls -/

variable {run : Run} {tmp : StackSlot} {base : U64} {g g' : Guest Os} {os : Os} {image : List U8}
  {argv envp : List String}

theorem ExecTarget.execTarget_eq {name : String} {rec : FileRecord}
    (h : ExecTarget base g name argv envp rec) :
    execTarget base g = some (rec.data, execArgs name argv, envp) := by
  obtain ⟨⟨path, hpath, hname⟩, hargv, henvp, image, hmount, hopen⟩ := h
  simp [execTarget, hpath, hname, hargv, henvp, hmount, hopen, Rust.toOption]

theorem exists_execTarget (h : execTarget base g = some (image, argv, envp)) :
    ∃ name argv envp rec, ExecTarget base g name argv envp rec := by
  simp only [execTarget, Option.bind_eq_bind, Option.bind_eq_some_iff] at h
  obtain ⟨path, hpath, argv, hargv, envp, henvp, name, hname, image, hmount, rec, hopen, -⟩ := h
  have hok {ε α : Type} {x : Rust ε α} {a : α} (hx : x.toOption = some a) : x = .ok a := by
    cases x with
    | error e => exact nomatch hx
    | ok b => exact congrArg Except.ok (Option.some_inj.mp hx)
  exact ⟨name, argv, envp, rec, ⟨path, hok (Option.join_eq_some_iff.mp hpath), hname⟩, hok hargv,
    hok henvp, image, hmount, hok hopen⟩

/-- How an `execve` that has found a file ends, when the run of the file ends with `x`. -/
def afterExec (g : Guest Os) (x : EStateM.Result (Fault RunError) Os Unit) :
    EStateM.Result (Fault RunError) (Guest Os) Bool :=
  match x with
  | .ok _ os => .ok true { g with cpu := { g.cpu with rax := 0 }, os := os }
  | .error (.err _) os => .ok false { g with cpu := { g.cpu with rax := -enoexec }, os := os }
  | .error .panic os => .error .panic { g with os := os }

/-- **`execve`**: the file is run, or the answer does not depend on the runner and nothing is
done. -/
theorem handleExecve_spec (base : U64) (g : Guest Os) :
    match execTarget base g with
    | some (image, argv, envp) =>
      ∀ run : Run, handleExecve run base g = afterExec g (run image argv envp g.os.started)
    | none =>
      (∃ r, ∀ run, handleExecve run base g = .ok false { g with cpu := { g.cpu with rax := r } }) ∨
        ∃ e, ∀ run, handleExecve run base g = .error e g := by
  rcases handleExecve_cases base g with ⟨name, argv, envp, rec, htarget, hrun⟩ | ⟨hnone, hrun⟩
  · rw [htarget.execTarget_eq]
    intro run
    rw [hrun, execFile_eq]
    rfl
  · cases h : execTarget base g with
    | none => exact hrun
    | some target =>
      obtain ⟨name, argv, envp, rec, htarget⟩ := exists_execTarget h
      exact absurd htarget (hnone name argv envp rec)

theorem ExecTarget.handleExecve_eq {name : String} {rec : FileRecord}
    (h : ExecTarget base g name argv envp rec) (run : Run) : handleExecve run base g =
      afterExec g (run rec.data (execArgs name argv) envp g.os.started) := by
  have hspec := handleExecve_spec base g
  rw [h.execTarget_eq] at hspec
  exact hspec run

end LeonOS
