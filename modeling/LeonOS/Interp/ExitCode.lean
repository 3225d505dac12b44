import LeonOS.Interp.Account

/-!
# The exit code that a run leaves

`LAST_EXIT` after the run of an interpreted program is the argument of its exit, whichever of the
nested programs made it; it is 0 when there was none but a program was started by `execve`; and else
it is what it was before (`Account.exitCode`).  Nothing marks it at the start of a run.
-/

set_option autoImplicit false

namespace LeonOS

open Bytes RustM

/-- `LAST_EXIT`. -/
def Os.lastExit (os : Os) : BitVec 32 := os.world.kernel.lastExit

/-- The exit code after a run, if it was `code` before. -/
def Account.exitCode (a : Account) (code : BitVec 32) : BitVec 32 :=
  a.exits.getLast?.getD (if a.starts = 0 then code else 0)

/-- **The exit code is left as the account says**, and an error comes without an exit. -/
structure RunLeaves {σ : Type} (lastExit : σ → BitVec 32) (a : Account) (code : BitVec 32)
    (x : EStateM.Result (Fault RunError) σ Unit) : Prop where
  /-- The run returns. -/
  returns : ∀ s, x = .ok () s → lastExit s = a.exitCode code
  /-- It fails. -/
  fails : ∀ e s, x = .error (.err e) s → a.exits = [] ∧ lastExit s = a.exitCode code

/-- The same of a system call or of an instruction, after which the program may go on. -/
structure CallLeaves (a : Account) (code : BitVec 32)
    (x : EStateM.Result (Fault RunError) (Guest Os) Bool) : Prop where
  /-- The program ends. -/
  stops : ∀ g, x = .ok true g → g.os.lastExit = a.exitCode code
  /-- It goes on. -/
  goes : ∀ g, x = .ok false g → a.exits = [] ∧ g.os.lastExit = a.exitCode code
  /-- It fails. -/
  fails : ∀ e g, x = .error (.err e) g → a.exits = [] ∧ g.os.lastExit = a.exitCode code

namespace Account

variable {a b : Account} {code : BitVec 32}

@[simp] theorem exitCode_none : none.exitCode code = code := rfl

@[simp] theorem exitCode_one : one.exitCode code = code := rfl

@[simp] theorem exitCode_exit (arg : BitVec 32) : (exit arg).exitCode code = arg := rfl

@[simp] theorem exits_nest : a.nest.exits = a.exits := rfl

@[simp] theorem exits_one_seq : (one.seq a).exits = a.exits := rfl

/-- `execve` marks the code 0 before the program runs. -/
@[simp] theorem exitCode_nest : a.nest.exitCode code = a.exitCode 0 := by
  have hstarts : a.nest.starts ≠ 0 := Nat.succ_ne_zero a.starts
  rw [exitCode, exitCode, if_neg hstarts, ite_self]
  rfl

@[simp] theorem exitCode_one_seq : (one.seq a).exitCode code = a.exitCode code := by
  have hstarts : (one.seq a).starts = a.starts := Nat.zero_add a.starts
  rw [exitCode, exitCode, hstarts]
  rfl

theorem exits_seq (h : a.exits = []) : (a.seq b).exits = b.exits := by
  rw [seq, h, List.nil_append]

theorem exitCode_seq (h : a.exits = []) :
    (a.seq b).exitCode code = b.exitCode (a.exitCode code) := by
  have hstarts : (a.seq b).starts = a.starts + b.starts := rfl
  have hcode : a.exitCode code = if a.starts = 0 then code else 0 := by
    rw [exitCode, h]
    rfl
  rw [exitCode, exitCode, exits_seq h, hcode, hstarts]
  congr 1
  by_cases hb : b.starts = 0
  · rw [hb, Nat.add_zero, if_pos rfl]
  · rw [if_neg hb, if_neg fun hsum ↦ hb (Nat.eq_zero_of_add_eq_zero_left hsum)]

end Account

variable {run : Run} {tmp : StackSlot} {base : U64} {g g' : Guest Os} {os : Os} {code : BitVec 32}
  {a : Account} {call : Guest Os → Account} {syscall : Interp Os Bool}

/-! ## System calls -/

/-- The exit code is the same. -/
def SameCode (k k' : Kernel) : Prop := k'.lastExit = k.lastExit

instance : IsPreorder Kernel SameCode where
  refl _ := rfl
  trans _ _ _ h h' := Eq.trans h' h

theorem Effect.sameCode {k k' : Kernel} {nr : Nr} {arg0 arg1 : U64} (h : Effect k nr arg0 arg1 k')
    (hexit : nr ≠ .exit) (hgroup : nr ≠ .exitGroup) : SameCode k k' := by
  cases h with
  | exited hnr =>
    rcases hnr with rfl | rfl
    · exact absurd rfl hexit
    · exact absurd rfl hgroup
  | brk =>
    rw [Kernel.brkSet]
    split <;> rfl
  | _ => rfl

theorem readStdinByteBlocking_sameCode (w : World) :
    Ensures readStdinByteBlocking w fun _ w' ↦ SameCode w.kernel w'.kernel :=
  ensures_readStdinByteBlocking rfl fun _ ↦ rfl

theorem callLeaves_of_keeps {x : Interp Os Bool}
    (h : KeepsAt (OnOs (OnKernel SameCode)) x g) : CallLeaves .none g.os.lastExit (x g) where
  stops g' hx := h.1 _ g' hx
  goes g' hx := ⟨rfl, h.1 _ g' hx⟩
  fails e g' hx := ⟨rfl, h.2 e g' hx⟩

theorem callLeaves_afterExec {x : EStateM.Result (Fault RunError) Os Unit}
    (h : RunLeaves Os.lastExit a 0 x) : CallLeaves a.nest code (afterExec g x) := by
  cases x with
  | ok u os =>
    refine ⟨fun g' hx ↦ ?_, fun _ hx ↦ (nomatch hx), fun _ _ hx ↦ (nomatch hx)⟩
    cases hx
    rw [Account.exitCode_nest]
    exact h.returns os rfl
  | error e os =>
    cases e with
    | panic => exact ⟨fun _ hx ↦ (nomatch hx), fun _ hx ↦ (nomatch hx), fun _ _ hx ↦ (nomatch hx)⟩
    | err e =>
      refine ⟨fun _ hx ↦ (nomatch hx), fun g' hx ↦ ?_, fun _ _ hx ↦ (nomatch hx)⟩
      cases hx
      rw [Account.exitCode_nest]
      exact h.fails e os rfl

/-- **What a system call leaves.** -/
theorem handleSyscall_leaves {account : List U8 → List String → List String → Os → Account}
    (hrun : ∀ image argv envp os, RunLeaves Os.lastExit (account image argv envp os) os.lastExit
      (run image argv envp os)) (g : Guest Os) :
    CallLeaves (accountCall account base g) g.os.lastExit (handleSyscall run tmp base g) := by
  by_cases hexit : Nr.decode g.cpu.rax.toNat = .exit ∨ Nr.decode g.cpu.rax.toNat = .exitGroup
  · have haccount : accountCall account base g = .exit (g.cpu.rdi.setWidth 32) := by
      rcases hexit with h | h <;> rw [accountCall, h]
    rw [haccount, handleSyscall_exit hexit]
    refine ⟨fun g' hx ↦ ?_, fun _ hx ↦ (by cases hx), fun _ _ hx ↦ (by cases hx)⟩
    cases hx
    rfl
  obtain ⟨hexit, hgroup⟩ := not_or.mp hexit
  by_cases hexec : Nr.decode g.cpu.rax.toNat = .execve
  · have hspec := handleExecve_spec base g
    rw [handleSyscall_of_execve hexec, accountCall, hexec]
    cases htarget : execTarget base g with
    | some target =>
      rw [htarget] at hspec
      dsimp only at hspec ⊢
      rw [hspec run]
      exact callLeaves_afterExec (hrun _ _ _ g.os.started)
    | none =>
      rw [htarget] at hspec
      dsimp only at hspec ⊢
      rcases hspec with ⟨r, hspec⟩ | ⟨e, hspec⟩
      · rw [hspec run]
        refine ⟨fun _ hx ↦ (by cases hx), fun g' hx ↦ ?_, fun _ _ hx ↦ (by cases hx)⟩
        cases hx
        exact ⟨rfl, rfl⟩
      · rw [hspec run]
        refine ⟨fun _ hx ↦ (by cases hx), fun _ hx ↦ (by cases hx), fun e' g' hx ↦ ?_⟩
        cases hx
        exact ⟨rfl, rfl⟩
  · have haccount : accountCall account base g = .none := by
      unfold accountCall
      split
      · exact absurd ‹_› hexit
      · exact absurd ‹_› hgroup
      · exact absurd ‹_› hexec
      · rfl
    rw [haccount]
    exact callLeaves_of_keeps (handleSyscall_keepsAt readStdinByteBlocking_sameCode
      (fun _ _ _ _ _ ↦ dispatch_effect.mono fun _ _ h ↦ h.sameCode hexit hgroup) hexit hgroup hexec)

/-! ## Instructions and programs -/

/-- **What an instruction leaves.** -/
theorem execOne_leaves (hcall : ∀ g, CallLeaves (call g) g.os.lastExit (syscall g)) (g : Guest Os) :
    CallLeaves (accountStep call base g) g.os.lastExit (execOne syscall base g) := by
  by_cases hat : g.AtSyscall base
  · have h := hcall g
    rw [accountStep, if_pos hat]
    rcases execOne_syscall_cases syscall hat with
      ⟨exit, g', hrun, hstep | hstep⟩ | ⟨e, g', hrun, hstep⟩
    · rw [hstep]
      exact ⟨fun _ hx ↦ (nomatch hx), fun _ hx ↦ (nomatch hx), fun _ _ hx ↦ (nomatch hx)⟩
    · rw [hstep]
      rw [hrun] at h
      refine ⟨fun _ hx ↦ ?_, fun _ hx ↦ ?_, fun _ _ hx ↦ (nomatch hx)⟩
      · cases hx
        rw [Account.exitCode_one_seq]
        exact h.stops g' rfl
      · cases hx
        rw [Account.exitCode_one_seq]
        exact h.goes g' rfl
    · rw [hstep]
      rw [hrun] at h
      refine ⟨fun _ hx ↦ (nomatch hx), fun _ hx ↦ (nomatch hx), fun _ _ hx ↦ ?_⟩
      cases hx
      rw [Account.exitCode_one_seq]
      exact h.fails _ g' rfl
  · rw [accountStep, if_neg hat]
    obtain ⟨hok, herr⟩ := execOne_keepsOs syscall hat
    have hsame {g' : Guest Os} (h : OnOs Eq g g') : g'.os.lastExit = g.os.lastExit :=
      congrArg Os.lastExit (Eq.symm h)
    exact ⟨fun g' hx ↦ hsame (hok _ g' hx), fun g' hx ↦ ⟨rfl, hsame (hok _ g' hx)⟩,
      fun e g' hx ↦ ⟨rfl, hsame (herr e g' hx)⟩⟩

/-- What the step loop leaves. -/
theorem runSteps_leaves (hcall : ∀ g, CallLeaves (call g) g.os.lastExit (syscall g)) (n : ℕ)
    (g : Guest Os) : RunLeaves (fun g : Guest Os ↦ g.os.lastExit)
      (accountSteps syscall call base n g) g.os.lastExit (runSteps syscall base n g) := by
  induction n generalizing g with
  | zero =>
    refine ⟨fun _ hx ↦ (by cases hx), fun _ g' hx ↦ ?_⟩
    cases hx
    exact ⟨rfl, rfl⟩
  | succ n ih =>
    have hstep : CallLeaves (accountStep call base g) g.os.lastExit (execOne syscall base g) :=
      execOne_leaves hcall g
    rw [runSteps, accountSteps, bind_apply]
    cases hrun : execOne syscall base g with
    | error e g' =>
      rw [hrun] at hstep
      refine ⟨fun _ hx ↦ (by cases hx), fun e' g'' hx ↦ ?_⟩
      cases hx
      exact hstep.fails _ g' rfl
    | ok stop g' =>
      rw [hrun] at hstep
      cases stop with
      | true =>
        refine ⟨fun g'' hx ↦ ?_, fun _ _ hx ↦ (by cases hx)⟩
        cases hx
        exact hstep.stops g' rfl
      | false =>
        obtain ⟨hexits, hcode⟩ := hstep.goes g' rfl
        have hrest := ih g'
        rw [hcode] at hrest
        refine ⟨fun g'' hx ↦ ?_, fun e g'' hx ↦ ?_⟩
        · rw [Account.exitCode_seq hexits]
          exact hrest.returns g'' hx
        · rw [Account.exitCode_seq hexits, Account.exits_seq hexits]
          exact hrest.fails e g'' hx

/-- **What a program leaves.** -/
theorem runLinuxElf_leaves (depth : ℕ) (image : List U8) (argv envp : List String) (os : Os) :
    RunLeaves Os.lastExit (accountRun tmp depth image argv envp os) os.lastExit
      (runLinuxElf tmp depth image argv envp os) := by
  induction depth generalizing image argv envp os with
  | zero => exact ⟨fun _ hx ↦ (by cases hx), fun _ _ hx ↦ (by cases hx)⟩
  | succ depth ih =>
    simp only [runLinuxElf, accountRun, bind_apply, RustM.lift]
    cases hload : loadLinuxElf image argv envp with
    | error e =>
      refine ⟨fun _ hx ↦ (by cases hx), fun e' os' hx ↦ ?_⟩
      cases hx
      exact ⟨rfl, rfl⟩
    | ok prog =>
      dsimp only
      have hcall : ∀ g, CallLeaves (accountCall (accountRun tmp depth) prog.base g) g.os.lastExit
          (handleSyscall (runLinuxElf tmp depth) tmp prog.base g) := handleSyscall_leaves ih
      have hsteps : RunLeaves (fun g : Guest Os ↦ g.os.lastExit)
          (accountSteps (handleSyscall (runLinuxElf tmp depth) tmp prog.base)
            (accountCall (accountRun tmp depth) prog.base) prog.base maxSteps
            ⟨Cpu.start prog.initialRsp prog.entry, prog.mem, os⟩) os.lastExit
          (runSteps (handleSyscall (runLinuxElf tmp depth) tmp prog.base) prog.base maxSteps
            ⟨Cpu.start prog.initialRsp prog.entry, prog.mem, os⟩) :=
        runSteps_leaves hcall maxSteps _
      rw [runProgram]
      generalize accountSteps (handleSyscall (runLinuxElf tmp depth) tmp prog.base)
        (accountCall (accountRun tmp depth) prog.base) prog.base maxSteps
        ⟨Cpu.start prog.initialRsp prog.entry, prog.mem, os⟩ = a at hsteps ⊢
      cases hrun : runSteps (handleSyscall (runLinuxElf tmp depth) tmp prog.base) prog.base maxSteps
          ⟨Cpu.start prog.initialRsp prog.entry, prog.mem, os⟩ with
      | ok u g' =>
        rw [hrun] at hsteps
        refine ⟨fun os' hx ↦ ?_, fun _ _ hx ↦ (by cases hx)⟩
        cases hx
        exact hsteps.returns g' rfl
      | error e g' =>
        rw [hrun] at hsteps
        refine ⟨fun _ hx ↦ (by cases hx), fun e' os' hx ↦ ?_⟩
        cases hx
        exact hsteps.fails _ g' rfl

end LeonOS
