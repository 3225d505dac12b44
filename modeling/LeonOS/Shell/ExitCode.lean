import LeonOS.Interp.Programs
import LeonOS.Lib.Runs
import LeonOS.Native.Effect
import LeonOS.Shell.Run

/-!
# The exit codes that the shell reports

The shell reports `LAST_EXIT` after the run of a program.  That should be the code of the last exit
that the run has made, and 0 if it has made none (`ReportsOwn`).

The native runner marks the code 0 before it enters a program, and so does `execve`.  The
interpreter marks nothing for a program that the shell starts.  So the code of such a program is
right exactly if it exits, if it starts another one, or if the code was 0 before
(`reportsOwn_iff`).
-/

set_option autoImplicit false

namespace LeonOS

open Bytes RustM Runs Elf

variable {m : Machine} {cmd : String} {s s' : Shell} {os os' : Os} {exits : List (BitVec 32)}
  {image : List U8} {argv : List String}

/-- **The report is of the run**: the code that was printed is that of the last exit in the run, or
0. -/
def Shell.ReportsOwn (s : Shell) : Prop :=
  ∀ code interp, s.report = .exited code interp → code = s.exits.getLast?.getD 0

/-- A program that the command has interpreted, if it returns, has made an exit or has started
another program, or the code was 0 before. -/
def Machine.SetsCode (m : Machine) (cmd : String) (s : Shell) : Prop :=
  ∀ image argv vaddr type os', m.Finds cmd image argv →
    loadNativeElf m.buffers image argv [] = .error (.err (.fixedVaddrUnsupported vaddr type)) →
    m.interpret image argv s.os = .ok () os' →
      (m.account image argv s.os).exits ≠ [] ∨ (m.account image argv s.os).starts ≠ 0 ∨
        s.os.lastExit = 0

/-! ## Native programs -/

/-- A native program leaves the code of its exit, or the one that was there. -/
theorem NativeRuns.lastExit_eq (h : NativeRuns os exits os') :
    os'.lastExit = exits.getLast?.getD os.lastExit := by
  induction h with
  | ret => rfl
  | @exit nr a0 a1 a2 a3 r os os' hexit h =>
    have hmark : nativeSyscall nr a0 a1 a2 a3 = do
        nativeMarkExit a0
        return 0 := by
      rcases hexit with h | h <;> rw [nativeSyscall, h]
    rw [hmark] at h
    obtain ⟨-, rfl⟩ := EStateM.Result.ok.inj h
    rfl
  | @call nr a0 a1 a2 a3 r os os₁ os' exits hexit hgroup h hrest ih =>
    have hkeeps : Ensures (nativeSyscall nr a0 a1 a2 a3) os fun _ os' ↦
        SameCode os.world.kernel os'.world.kernel := by
      rw [nativeSyscall]
      generalize Nr.decode nr.toNat = nr at hexit hgroup
      have hdispatch : Ensures (nativeDispatch nr a0 a1 a2 a3) os fun _ os' ↦
          SameCode os.world.kernel os'.world.kernel :=
        nativeDispatch_keeps readStdinByteBlocking_sameCode
          (fun w ↦ dispatch_effect.mono fun _ _ h ↦ h.sameCode hexit hgroup) os
      cases nr with
      | exit => exact absurd rfl hexit
      | exitGroup => exact absurd rfl hgroup
      | _ => exact hdispatch
    have hsame : os₁.lastExit = os.lastExit := hkeeps r os₁ h
    rw [ih, hsame]
  | memory _ ih => exact ih

/-! ## One command -/

theorem Account.exitCode_eq_getD_iff {a : Account} {code : BitVec 32} :
    a.exitCode code = a.exits.getLast?.getD 0 ↔ a.exits ≠ [] ∨ a.starts ≠ 0 ∨ code = 0 := by
  rw [exitCode]
  cases hlast : a.exits.getLast? with
  | none =>
    have hnil := List.getLast?_eq_none_iff.mp hlast
    rw [Option.getD_none, Option.getD_none, hnil]
    by_cases hstarts : a.starts = 0 <;> simp [hstarts]
  | some last =>
    have hne : a.exits ≠ [] := fun hnil ↦ by
      rw [hnil] at hlast
      cases hlast
    exact iff_of_true rfl (.inl hne)

/-- **The report of one command** is of its run exactly if the run sets the code. -/
theorem Machine.step_reportsOwn_iff :
    (∀ s', Shell.Step m cmd s s' → s'.ReportsOwn) ↔ m.SetsCode cmd s := by
  constructor
  · intro h image argv vaddr type os' hfile hload hrun
    have hown := h _ (.interpreted hfile hload hrun) os'.lastExit true rfl
    have hleaves := (runLinuxElf_leaves (m.depth + 1) image argv [] s.os).returns os' hrun
    exact Account.exitCode_eq_getD_iff.mp (hleaves.symm.trans hown)
  · intro h s' hstep code interp hreport
    cases hstep with
    | noRamdisk | notFound | failedNative | notExecutable | failedInterp => exact nomatch hreport
    | native hfile hload hstart hrun =>
      obtain ⟨rfl, -⟩ := Report.exited.inj hreport
      obtain ⟨-, rfl⟩ := EStateM.Result.ok.inj hstart
      exact hrun.lastExit_eq
    | @interpreted image argv vaddr type s os' hfile hload hrun =>
      obtain ⟨rfl, -⟩ := Report.exited.inj hreport
      have hleaves := (runLinuxElf_leaves (m.depth + 1) image argv [] s.os).returns os' hrun
      exact hleaves.trans
        (Account.exitCode_eq_getD_iff.mpr (h image argv vaddr type os' hfile hload hrun))

/-! ## Histories -/

/-- **In every history**, all reports are of their runs if and only if all runs set the code. -/
theorem reportsOwn_iff (m : Machine) (s : Shell) (cmds : List String) :
    AllSteps (Shell.Step m) (fun cmd s ↦ ∀ s', Shell.Step m cmd s s' → s'.ReportsOwn) s cmds ↔
      AllSteps (Shell.Step m) m.SetsCode s cmds :=
  allSteps_congr (P := fun _ ↦ True) (fun _ _ _ _ _ _ ↦ trivial)
    (fun _ _ _ ↦ Machine.step_reportsOwn_iff) trivial

/-! ### A code that is left over -/

/-- A program that exits with the code 7, and one that returns. -/
def twoPrograms : List BuildFile :=
  [⟨"a", 0o755, codeFile (callCode 60 7 [])⟩, ⟨"b", 0o755, codeFile [0xC3]⟩]

theorem fits_twoPrograms : Build.Fits twoPrograms := by
  refine ⟨by decide, ?_, ?_, ?_⟩
  · simp only [twoPrograms, List.forall_mem_cons]
    exact ⟨by decide, by decide, List.forall_mem_nil _⟩
  · simp only [Build.NamesFit, twoPrograms, List.forall_mem_cons]
    exact ⟨by decide, by decide, List.forall_mem_nil _⟩
  · have hlen (code : List U8) : (codeFile code).length = 120 + code.length := by
      rw [codeFile, List.length_append, length_codeHeaders]
    simp only [twoPrograms, Build.datas, List.flatMap_cons, List.flatMap_nil, List.length_append,
      hlen, length_callCode]
    decide

/-- A machine with the two on its disk. -/
def twoProgramsMachine : Machine where
  ramdisk := some ⟨Build.lfs1 twoPrograms, Build.length_lfs1_lt fits_twoPrograms⟩
  buffers := ⟨fun _ ↦ 0, zero_base_fits⟩
  tmp := ⟨1, one_addr_ne_zero⟩
  depth := 0

set_option maxRecDepth 8000 in
theorem codeFile_exitSeven : CodeFile (callCode 60 7 []) := ⟨rfl, by decide⟩

theorem finds_exitSeven : twoProgramsMachine.Finds "run a" (codeFile (callCode 60 7 [])) ["a"] := by
  obtain ⟨rec, hopen, hdata⟩ := Build.exists_open_lfs1 fits_twoPrograms
    (show twoPrograms.find? (·.name = "a") = some ⟨"a", 0o755, _⟩ from rfl)
  exact ⟨"a", "", _, rec, by decide, rfl, hopen, hdata.symm, by decide⟩

theorem finds_return : twoProgramsMachine.Finds "run b" (codeFile [0xC3]) ["b"] := by
  obtain ⟨rec, hopen, hdata⟩ := Build.exists_open_lfs1 fits_twoPrograms
    (show twoPrograms.find? (·.name = "b") = some ⟨"b", 0o755, _⟩ from rfl)
  exact ⟨"b", "", _, rec, by decide, rfl, hopen, hdata.symm, by decide⟩

/-- The first program leaves its code. -/
theorem interpret_exitSeven (os : Os) : ∃ os',
    twoProgramsMachine.interpret (codeFile (callCode 60 7 [])) ["a"] os = .ok () os' ∧
      os'.lastExit = 7 := by
  obtain ⟨sp, mem, hcode, hmem, hrun⟩ :=
    codeFile_exitSeven.run_eq (oneArg "a" (by decide)) .nil (by decide)
  have hin : CallIn 60 7 [] mem := ⟨hcode, hmem, by decide, by decide⟩
  obtain ⟨hrun, -⟩ := hrun twoProgramsMachine.tmp twoProgramsMachine.depth os
  have hmax : maxSteps = 131069 + 1 + 2 := rfl
  have hcall (run : Run) (tmp : StackSlot) :
      handleSyscall run tmp codeAddr (atCall 60 7 sp mem os) = _ := handleSyscall_exit (.inl rfl)
  rw [hmax, hin.runSteps_eq, runSteps_of_stop (hin.execOne_call sp os (hcall _ _) rfl)] at hrun
  exact ⟨_, hrun, rfl⟩

/-- The second leaves the code that was there, and makes no exit. -/
theorem interpret_return (os : Os) :
    twoProgramsMachine.interpret (codeFile [0xC3]) ["b"] os = .ok () os ∧
      twoProgramsMachine.account (codeFile [0xC3]) ["b"] os = .one :=
  runLinuxElf_return (oneArg "b" (by decide)) .nil (by decide) _ _ os

/-- After a program that exits with 7, the code of one that just returns is reported to be 7. -/
theorem reports_code_of_other_run :
    ¬AllSteps (Shell.Step twoProgramsMachine)
      (fun cmd s ↦ ∀ s', Shell.Step twoProgramsMachine cmd s s' → s'.ReportsOwn)
      (twoProgramsMachine.boot heldKey fun _ ↦ 0) ["run a", "run b"] := by
  intro h
  obtain ⟨os, hrun, hseven⟩ := interpret_exitSeven (twoProgramsMachine.boot heldKey fun _ ↦ 0).os
  have hfirst := Shell.Step.interpreted finds_exitSeven (codeFile_exitSeven.loadNativeElf_eq _ _ _)
    hrun
  obtain ⟨hown, -⟩ := allSteps_cons.mp ((allSteps_cons.mp h).2 _ hfirst)
  obtain ⟨hrun', haccount⟩ := interpret_return os
  have hsets := Machine.step_reportsOwn_iff.mp hown _ _ _ _ os finds_return
    (codeFile_return.loadNativeElf_eq _ _ _) hrun'
  dsimp only at hsets
  rw [haccount, hseven] at hsets
  exact absurd hsets (by decide)

end LeonOS
