import LeonOS.Fs.RoundTrip
import LeonOS.Interp.Effect

/-!
# Failed `execve`s

An `execve` that is answered with an error should have done nothing (`LeavesNoTrace`).  It has when
the error is found before the new program is run (`leavesNoTrace_of_noTarget`).  But the run itself
can fail too, and then the caller is told `-ENOEXEC` and goes on, in the state that the run has left
behind (`leavesNoTrace_of_target`).
-/

set_option autoImplicit false

namespace LeonOS

open Bytes RustM

/-- Nothing happened that anyone but the caller can see. -/
structure Untouched (os os' : Os) : Prop where
  /-- The exit code. -/
  lastExit : os'.world.kernel.lastExit = os.world.kernel.lastExit
  /-- The flag that it waits. -/
  exitWaitable : os'.world.kernel.exitWaitable = os.world.kernel.exitWaitable
  /-- The descriptors. -/
  fdTable : os'.world.kernel.fdTable = os.world.kernel.fdTable
  /-- The break. -/
  brk : os'.world.kernel.brk = os.world.kernel.brk
  /-- The cursor of `mmap`. -/
  mmapBase : os'.world.kernel.mmapBase = os.world.kernel.mmapBase
  /-- Nothing was written to the terminal. -/
  screen : os'.screen = os.screen
  /-- No byte of stdin was consumed. -/
  polled : os'.world.kernel.polled = os.world.kernel.polled

/-- **A failed `execve` leaves no trace**: if it returns an error to the program, that is all that
has changed. -/
def LeavesNoTrace (run : Run) (base : U64) (g : Guest Os) : Prop :=
  ∀ g', handleExecve run base g = .ok false g' → g'.cpu.rax.toInt < 0 →
    Untouched g.os g'.os ∧ g'.mem = g.mem ∧ g'.cpu = { g.cpu with rax := g'.cpu.rax }

/-- The exit code 0 was marked. -/
def Os.started (os : Os) : Os :=
  { os with world := { os.world with kernel := os.world.kernel.markExitCode 0 } }

/-- The arguments of a program. -/
def execArgs (name : String) (argv : List String) : List String :=
  if argv = [] then [name] else argv

variable {run : Run} {base : U64} {g g' : Guest Os} {os os' : Os}

theorem Untouched.rfl : Untouched os os :=
  ⟨.refl _, .refl _, .refl _, .refl _, .refl _, .refl _, .refl _⟩

theorem untouched_started : Untouched os os.started ↔
    os.world.kernel.lastExit = 0 ∧ os.world.kernel.exitWaitable = true := by
  constructor
  · intro h
    exact ⟨h.lastExit.symm, h.exitWaitable.symm⟩
  · rintro ⟨hcode, hflag⟩
    exact ⟨hcode.symm, hflag.symm, .refl _, .refl _, .refl _, .refl _, .refl _⟩

/-- There is one file to run. -/
theorem ExecTarget.unique {name name' : String} {argv argv' envp envp' : List String}
    {rec rec' : FileRecord} (h : ExecTarget base g name argv envp rec)
    (h' : ExecTarget base g name' argv' envp' rec') :
    name = name' ∧ argv = argv' ∧ envp = envp' ∧ rec = rec' := by
  obtain ⟨path, hpath, hname⟩ := h.path
  obtain ⟨path', hpath', hname'⟩ := h'.path
  obtain rfl := Option.some_inj.mp (Except.ok.inj (hpath.symm.trans hpath'))
  obtain rfl := Option.some_inj.mp (hname.symm.trans hname')
  obtain ⟨image, hmount, hopen⟩ := h.file
  obtain ⟨image', hmount', hopen'⟩ := h'.file
  obtain rfl := Option.some_inj.mp (hmount.symm.trans hmount')
  exact ⟨rfl, Except.ok.inj (h.argv.symm.trans h'.argv), Except.ok.inj (h.envp.symm.trans h'.envp),
    Except.ok.inj (hopen.symm.trans hopen')⟩

/-- How the run of a file ends. -/
theorem execFile_eq (name : String) (argv envp : List String) (rec : FileRecord) :
    execFile run name argv envp rec g =
      match run rec.data (execArgs name argv) envp g.os.started with
      | .ok _ os => .ok true { g with cpu := { g.cpu with rax := 0 }, os := os }
      | .error (.err _) os => .ok false { g with cpu := { g.cpu with rax := -enoexec }, os := os }
      | .error .panic os => .error .panic { g with os := os } := by
  have hmark : sys (modifyKernel (·.markExitCode 0)) g = .ok () { g with os := g.os.started } := rfl
  rw [execFile, bind_apply, hmark]
  dsimp only
  rw [bind_apply, attempt, ← execArgs]
  cases run rec.data (execArgs name argv) envp g.os.started with
  | ok _ os => rfl
  | error e os => cases e <;> rfl

/-- A file that is run leaves no trace just when its run fails in a state without one. -/
theorem leavesNoTrace_of_target {name : String} {argv envp : List String} {rec : FileRecord}
    (h : ∀ run, handleExecve run base g = execFile run name argv envp rec g) :
    LeavesNoTrace run base g ↔ ∀ e os', run rec.data (execArgs name argv) envp g.os.started =
      .error (.err e) os' → Untouched g.os os' := by
  rw [LeavesNoTrace, h run, execFile_eq]
  constructor
  · intro hclean e os' hrun
    rw [hrun] at hclean
    exact (hclean _ rfl (show (-enoexec).toInt < 0 by decide)).1
  · intro hquiet g' hg' _
    cases hrun : run rec.data (execArgs name argv) envp g.os.started with
    | ok u os' =>
      rw [hrun] at hg'
      exact absurd (EStateM.Result.ok.inj hg').1 (by decide)
    | error e os' =>
      rw [hrun] at hg'
      cases e with
      | panic => exact nomatch hg'
      | err e =>
        obtain rfl := (EStateM.Result.ok.inj hg').2
        exact ⟨hquiet e os' hrun, rfl, rfl⟩

theorem leavesNoTrace_of_noTarget
    (h : ∀ name argv envp rec, ¬ExecTarget base g name argv envp rec) :
    LeavesNoTrace run base g := by
  rcases handleExecve_cases base g with ⟨name, argv, envp, rec, htarget, -⟩ | ⟨-, hrun⟩
  · exact absurd htarget (h name argv envp rec)
  intro g' hg' _
  rcases hrun with ⟨r, hrun⟩ | ⟨e, hrun⟩
  · rw [hrun] at hg'
    obtain rfl := (EStateM.Result.ok.inj hg').2
    exact ⟨.rfl, rfl, rfl⟩
  · rw [hrun] at hg'
    exact nomatch hg'

end LeonOS
