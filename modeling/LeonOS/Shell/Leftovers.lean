import LeonOS.Interp.Programs
import LeonOS.Kernel.Effect
import LeonOS.Kernel.Tables
import LeonOS.Lib.Runs
import LeonOS.Native.Effect
import LeonOS.Runs.Addresses
import LeonOS.Shell.Run

/-!
# What runs leave to the next

Nothing is reset between two `run` commands.  A program is entered with the descriptors, the break
and the `mmap` cursor that the run before has left (`Machine.Enters.tables_eq`), and only the first
finds those of a fresh boot.  But that is all that an earlier run can do to what a program is
answered when it opens, duplicates, closes and reads files, and asks for memory: histories that
leave the same tables leave the same answers (`run_takes_over`).
-/

set_option autoImplicit false

namespace LeonOS

open Bytes RustM Runs Elf

/-- What the two runners are the same to. -/
def SameOs (os os' : Os) : Prop := SameTables os.world os'.world

/-! ## Interpreted programs -/

section Interp

variable {α : Type} {tmp : StackSlot} {base fd : U64} {run : Run} {start n cap got : ℕ}
  {g g' : Guest Os}

theorem process_agrees (bytes : List U8) : Agrees (SameGuest SameOs) (process bytes) :=
  agrees_modify fun _ _ h ↦ ⟨h.cpu, h.mem, h.os⟩

theorem setRax_agrees (v : U64) (stop : Bool) : Agrees (SameGuest SameOs) (setRax v stop) :=
  (modifyCpu_agrees _).bind fun _ ↦ agrees_pure stop

theorem sys_agrees {x : SysM α} (h : Agrees SameTables x) : Agrees (SameGuest SameOs) (sys x) :=
  fun g g' hg ↦ by
    rw [sys, sys]
    obtain ⟨a, w, w', hx, hx', hw⟩ | ⟨e, w, w', hx, hx', hw⟩ := (h _ _ hg.os).ends
    · rw [hx, hx']
      exact .ok ⟨hg.cpu, hg.mem, hw⟩
    · rw [hx, hx']
      cases e with
      | err e => exact e.elim
      | panic => exact .error ⟨hg.cpu, hg.mem, hw⟩

theorem readLineFrom_agrees : Agrees (SameGuest SameOs) (readLineFrom start n got) := by
  induction n generalizing got with
  | zero => exact agrees_pure got
  | succ n ih =>
    rw [readLineFrom]
    refine (sys_agrees readStdinByteBlocking_agrees).bind fun ch ↦ ?_
    cases ch with
    | none => exact agrees_pure got
    | some ch =>
      exact (writing_agrees _).bind fun _ ↦ (process_agrees _).bind fun _ ↦
        (agrees_pure _).ite ih

theorem readThroughTmp_agrees : Agrees (SameGuest SameOs) (readThroughTmp tmp start cap fd) := by
  have hclear : Agrees (SameGuest SameOs) (clearTmp tmp) := agrees_modify fun _ _ h ↦
    ⟨h.cpu, h.mem, ⟨h.os.tables, h.os.rootfs, h.os.pending,
      congrArg (poke · tmp.addr.toNat (List.replicate 256 0)) h.os.ram⟩⟩
  rw [readThroughTmp]
  refine hclear.bind fun _ ↦ (sys_agrees (dispatch_agrees (by decide))).bind fun n ↦ ?_
  refine .ite (fun g g' h ↦ ?_) (setRax_agrees n false)
  rw [bind_get, bind_get, h.os.ram]
  exact ((writing_agrees _).bind fun _ ↦ setRax_agrees n false) g g' h

theorem handleRead_agrees : Agrees (SameGuest SameOs) (handleRead tmp base) := by
  rw [handleRead]
  refine getCpu_agrees.bind fun cpu ↦ (reading_agrees _).bind fun start g g' h ↦ ?_
  rw [bind_get, bind_get, h.mem]
  exact (Agrees.ite (setRax_agrees 0 false) (.ite
    (readLineFrom_agrees.bind fun got ↦ setRax_agrees _ false) readThroughTmp_agrees)) g g' h

theorem handleWrite_agrees : Agrees (SameGuest SameOs) (handleWrite base) := by
  rw [handleWrite]
  refine getCpu_agrees.bind fun cpu ↦ (reading_agrees _).bind fun bytes ↦ ?_
  have hend : Agrees (SameGuest SameOs)
      (sys (dispatch .write cpu.rdi cpu.rsi cpu.rdx 0) >>= fun n ↦ setRax n false) :=
    (sys_agrees (dispatch_agrees (by decide))).bind fun n ↦ setRax_agrees n false
  exact .ite ((process_agrees bytes).bind fun _ ↦ hend) hend

/-- **A system call of an interpreted program.** -/
theorem handleSyscall_agrees (hnr : Nr.decode g.cpu.rax.toNat ∈ tableCalls)
    (h : SameGuest SameOs g g') : Alike (SameGuest SameOs) (handleSyscall run tmp base g)
      (handleSyscall run tmp base g') := by
  have hdefault : Agrees (SameGuest SameOs) (handleDefault (Nr.decode g.cpu.rax.toNat)) :=
    getCpu_agrees.bind fun cpu ↦ (sys_agrees (dispatch_agrees hnr)).bind fun n ↦
      setRax_agrees n false
  rw [handleSyscall, bind_getCpu, bind_getCpu, ← h.cpu]
  generalize Nr.decode g.cpu.rax.toNat = nr at hnr hdefault
  simp only [tableCalls, List.mem_cons, List.not_mem_nil, or_false] at hnr
  rcases hnr with rfl | rfl | rfl | rfl | rfl | rfl | rfl
  · exact hdefault g g' h
  · exact hdefault g g' h
  · exact hdefault g g' h
  · exact handleRead_agrees g g' h
  · exact ((sys_agrees (dispatch_agrees (by decide))).bind fun n ↦ setRax_agrees n false) g g' h
  · exact hdefault g g' h
  · exact handleWrite_agrees g g' h

/-- Two programs at the same place are at the same instruction. -/
theorem SameGuest.code_eq {ω : Type} {R : ω → ω → Prop} {g g' : Guest ω} (h : SameGuest R g g') :
    g.code base = g'.code base := by
  funext i
  rw [Guest.code, Guest.code, h.cpu, h.mem]

/-- **An instruction**, unless it makes another call. -/
theorem execOne_sameGuest
    (hnr : g.AtSyscall base → Nr.decode g.cpu.rax.toNat ∈ tableCalls) (h : SameGuest SameOs g g') :
    Alike (SameGuest SameOs) (execOne (handleSyscall run tmp base) base g)
      (execOne (handleSyscall run tmp base) base g') := by
  by_cases hat : g.AtSyscall base
  · have hat' : g'.AtSyscall base := by
      rw [Guest.AtSyscall, ← h.code_eq]
      exact hat
    rw [execOne_syscall hat, execOne_syscall hat']
    refine (handleSyscall_agrees (hnr hat) h).bind fun exit ↦ ?_
    exact (closed_ripAdd closed_agrees 2).bind fun _ ↦ agrees_pure exit
  · have hat' : ¬g'.AtSyscall base := by
      rw [Guest.AtSyscall, ← h.code_eq]
      exact hat
    rw [execOne_of_not_atSyscall hat (pure false), execOne_of_not_atSyscall hat' (pure false)]
    exact execOne_agrees (agrees_pure false) g g' h

/-- **The answers to an interpreted program** in its first `n` instructions, until it makes another
call: the result, and memory after the call. -/
def interpAnswers (syscall : Interp Os Bool) (base : U64) : ℕ → Guest Os → List (U64 × List U8)
  | 0, _ => []
  | n + 1, g =>
    if g.AtSyscall base ∧ Nr.decode g.cpu.rax.toNat ∉ tableCalls then []
    else match execOne syscall base g with
      | .ok stop g' =>
        let rest := if stop then [] else interpAnswers syscall base n g'
        if g.AtSyscall base then (g'.cpu.rax, g'.mem) :: rest else rest
      | .error _ _ => []

/-- **Two interpreted programs** are answered the same. -/
theorem interpAnswers_eq (h : SameGuest SameOs g g') :
    interpAnswers (handleSyscall run tmp base) base n g =
      interpAnswers (handleSyscall run tmp base) base n g' := by
  induction n generalizing g g' with
  | zero => rfl
  | succ n ih =>
    have hat : g.AtSyscall base ↔ g'.AtSyscall base := by
      rw [Guest.AtSyscall, Guest.AtSyscall, h.code_eq]
    rw [interpAnswers, interpAnswers, ← h.cpu]
    simp only [← hat]
    by_cases hother : g.AtSyscall base ∧ Nr.decode g.cpu.rax.toNat ∉ tableCalls
    · rw [if_pos hother, if_pos hother]
    · rw [if_neg hother, if_neg hother]
      have hstep : Alike (SameGuest SameOs) (execOne (handleSyscall run tmp base) base g)
          (execOne (handleSyscall run tmp base) base g') :=
        execOne_sameGuest (fun hat ↦ not_not.mp fun hnr ↦ hother ⟨hat, hnr⟩) h
      obtain ⟨stop, g₁, g₁', hx, hx', h₁⟩ | ⟨e, g₁, g₁', hx, hx', -⟩ := hstep.ends
      · rw [hx, hx']
        dsimp only
        rw [h₁.cpu, h₁.mem, ih h₁]
      · rw [hx, hx']

end Interp

/-! ## Native programs -/

section Native

variable {α σ : Type} {nr : Nr} {a0 a1 a2 a3 : U64} {os os' : Os} {n : ℕ}

theorem nativeSys_agrees {x : SysM α} (h : Agrees SameTables x) : Agrees SameOs (nativeSys x) :=
  fun os os' hos ↦ by
    rw [nativeSys, nativeSys]
    obtain ⟨a, w, w', hx, hx', hw⟩ | ⟨e, w, w', hx, hx', hw⟩ := (h _ _ hos).ends
    · rw [hx, hx']
      exact .ok hw
    · rw [hx, hx']
      exact .error hw

theorem nativeReadFrom_agrees (ptr n got : ℕ) : Agrees SameTables (nativeReadFrom ptr n got) := by
  induction n generalizing got with
  | zero => exact agrees_pure _
  | succ n ih =>
    rw [nativeReadFrom]
    refine readStdinByteBlocking_agrees.bind fun ch ↦ ?_
    cases ch with
    | none => exact agrees_pure _
    | some ch => exact (store_agrees _ _).bind fun _ ↦ (agrees_pure _).ite (ih _)

/-- **The dispatcher of native programs.** -/
theorem nativeDispatch_agrees (hnr : nr ∈ tableCalls) :
    Agrees SameOs (nativeDispatch nr a0 a1 a2 a3) := by
  have hsys : Agrees SameOs (nativeSys (dispatch nr a0 a1 a2 a3)) :=
    nativeSys_agrees (dispatch_agrees hnr)
  simp only [tableCalls, List.mem_cons, List.not_mem_nil, or_false] at hnr
  rcases hnr with rfl | rfl | rfl | rfl | rfl | rfl | rfl
  · exact hsys
  · exact hsys
  · exact hsys
  · rw [nativeDispatch]
    refine .ite (.ite (agrees_pure 0) ?_) hsys
    exact nativeSys_agrees (nativeReadFrom_agrees _ _ 0)
  · exact hsys
  · exact hsys
  · rw [nativeDispatch]
    have hterm : Agrees SameOs (termWrite a1.toNat a2.toNat) :=
      agrees_modify fun _ _ h ↦ ⟨h.tables, h.rootfs, h.pending, h.ram⟩
    exact .ite (hterm.bind fun _ ↦ agrees_pure a2) hsys

/-- What a native program does next, as far as the kernel can tell: its registers are in `σ`. -/
inductive Deed (σ : Type) where
  /-- It returns. -/
  | ret
  /-- It leaves memory like this. -/
  | memory (ram : ℕ → U8) (s : σ)
  /-- It makes a system call. -/
  | call (nr a0 a1 a2 a3 : U64) (next : U64 → σ)

/-- **The answers to a native program** in its first `n` deeds, until it makes another call: the
result, and memory after the call. -/
def nativeAnswers (next : σ → (ℕ → U8) → Deed σ) : ℕ → σ → Os → List (U64 × (ℕ → U8))
  | 0, _, _ => []
  | n + 1, s, os =>
    match next s os.world.ram with
    | .ret => []
    | .memory ram s => nativeAnswers next n s { os with world := { os.world with ram := ram } }
    | .call nr a0 a1 a2 a3 s =>
      if Nr.decode nr.toNat ∈ tableCalls then
        match nativeSyscall nr a0 a1 a2 a3 os with
        | .ok r os => (r, os.world.ram) :: nativeAnswers next n (s r) os
        | .error _ _ => []
      else []

/-- **Two native programs** are answered the same. -/
theorem nativeAnswers_eq {next : σ → (ℕ → U8) → Deed σ} {s : σ} (h : SameOs os os') :
    nativeAnswers next n s os = nativeAnswers next n s os' := by
  induction n generalizing s os os' with
  | zero => rfl
  | succ n ih =>
    rw [nativeAnswers, nativeAnswers, h.ram]
    cases next s os'.world.ram with
    | ret => rfl
    | memory ram s => exact ih ⟨h.tables, h.rootfs, h.pending, rfl⟩
    | call nr a0 a1 a2 a3 s =>
      dsimp only
      by_cases hnr : Nr.decode nr.toNat ∈ tableCalls
      · have hcall : nativeSyscall nr a0 a1 a2 a3 =
            nativeDispatch (Nr.decode nr.toNat) a0 a1 a2 a3 := by
          rw [nativeSyscall]
          generalize Nr.decode nr.toNat = nr at hnr
          cases nr with
          | exit | exitGroup => exact absurd hnr (by decide)
          | _ => rfl
        rw [if_pos hnr, if_pos hnr, hcall]
        obtain ⟨r, os₁, os₁', hx, hx', h₁⟩ | ⟨e, os₁, os₁', hx, hx', -⟩ :=
          (nativeDispatch_agrees hnr os os' h).ends
        · rw [hx, hx']
          dsimp only
          rw [h₁.ram, ih h₁]
        · rw [hx, hx']
      · rw [if_neg hnr, if_neg hnr]

end Native

/-! ## The image -/

variable {m : Machine} {cmd : String} {s s' : Shell} {os os' : Os} {exits : List (BitVec 32)}

/-- The same image is mounted. -/
def SameRootfs (k k' : Kernel) : Prop := k'.rootfs = k.rootfs

instance : IsPreorder Kernel SameRootfs where
  refl _ := rfl
  trans _ _ _ h h' := h'.trans h

theorem readStdinByteBlocking_sameRootfs (w : World) :
    Ensures readStdinByteBlocking w fun _ w' ↦ SameRootfs w.kernel w'.kernel :=
  ensures_readStdinByteBlocking rfl fun _ ↦ rfl

theorem dispatch_sameRootfs (nr : Nr) (a0 a1 a2 a3 : U64) (w : World) :
    Ensures (dispatch nr a0 a1 a2 a3) w fun _ w' ↦ SameRootfs w.kernel w'.kernel :=
  dispatch_effect.mono fun _ _ h ↦ h.rootfs

theorem NativeRuns.rootfs_eq (h : NativeRuns os exits os') :
    os'.world.kernel.rootfs = os.world.kernel.rootfs := by
  have hcall {nr a0 a1 a2 a3 r : U64} {os os₁ : Os}
      (h : nativeSyscall nr a0 a1 a2 a3 os = .ok r os₁) :
      os₁.world.kernel.rootfs = os.world.kernel.rootfs := by
    have hdispatch (nr : Nr) : Ensures (nativeDispatch nr a0 a1 a2 a3) os fun _ os' ↦
        SameRootfs os.world.kernel os'.world.kernel :=
      nativeDispatch_keeps readStdinByteBlocking_sameRootfs (dispatch_sameRootfs _ _ _ _ _) os
    rw [nativeSyscall] at h
    generalize Nr.decode nr.toNat = nr at h
    cases nr with
    | exit | exitGroup =>
      obtain ⟨-, rfl⟩ := EStateM.Result.ok.inj h
      rfl
    | _ => exact hdispatch _ r os₁ h
  induction h with
  | ret => rfl
  | exit _ h => exact hcall h
  | call _ _ h _ ih => exact ih.trans (hcall h)
  | memory _ ih => exact ih

/-- A command does not mount anything. -/
theorem Shell.Step.rootfs_eq (h : Shell.Step m cmd s s') :
    s'.os.world.kernel.rootfs = s.os.world.kernel.rootfs := by
  have hinterp (image : List U8) (argv : List String) :
      KeepsAt (OnKernel SameRootfs) (m.interpret image argv) s.os :=
    runLinuxElf_keeps readStdinByteBlocking_sameRootfs dispatch_sameRootfs _ _ _ _ s.os
  cases h with
  | noRamdisk | notFound | failedNative | notExecutable => rfl
  | native _ _ hstart hrun =>
    obtain ⟨-, rfl⟩ := EStateM.Result.ok.inj hstart
    exact hrun.rootfs_eq
  | interpreted _ _ hrun => exact (hinterp _ _).1 _ _ hrun
  | failedInterp _ _ hrun => exact (hinterp _ _).2 _ _ hrun

/-! ## Entries -/

/-- **A command enters its program**, with the kernel that the program finds. -/
inductive Machine.Enters (m : Machine) (cmd : String) (os : Os) : Os → Prop
  | native {image : List U8} {argv : List String} {prog : NativeProgram} {os' : Os}
      (hfile : m.Finds cmd image argv) (hload : loadNativeElf m.buffers image argv [] = .ok prog)
      (hstart : nativeStart os = .ok () os') : Enters m cmd os os'
  | interpreted {image : List U8} {argv : List String} {vaddr : ℕ} {type : BitVec 16}
      {prog : LinuxProgram} (hfile : m.Finds cmd image argv)
      (hload : loadNativeElf m.buffers image argv [] =
        .error (.err (.fixedVaddrUnsupported vaddr type)))
      (hprog : loadLinuxElf image argv [] = .ok prog) : Enters m cmd os os

/-- It finds what was left, whichever the runner. -/
theorem Machine.Enters.kernel_eq (h : m.Enters cmd os os') : os'.world.kernel =
    os.world.kernel ∨ os'.world.kernel = os.world.kernel.markExitCode 0 := by
  cases h with
  | native _ _ hstart =>
    obtain ⟨-, rfl⟩ := EStateM.Result.ok.inj hstart
    exact .inr rfl
  | interpreted => exact .inl rfl

theorem Machine.Enters.tables_eq (h : m.Enters cmd os os') :
    os'.world.kernel.tables = os.world.kernel.tables := by
  obtain h | h := h.kernel_eq
  · rw [h]
  · rw [h]
    rfl

/-- A shell that was just started has fresh tables: to mount the image frees the descriptors. -/
theorem Machine.tables_boot (m : Machine) (reader : Stdin) (ram : ℕ → U8) :
    (m.boot reader ram).os.world.kernel.tables = .fresh := by
  rw [boot, bootKernel]
  dsimp only
  split
  · split <;> rfl
  · rfl

/-! ## Histories -/

/-- **Every program is answered the same** in both. -/
structure SameAnswers (m : Machine) (os os' : Os) : Prop where
  /-- A native program. -/
  native {σ : Type} (next : σ → (ℕ → U8) → Deed σ) (s : σ) (n : ℕ) :
    nativeAnswers next n s os = nativeAnswers next n s os'
  /-- An interpreted program. -/
  interpreted (prog : LinuxProgram) (n : ℕ) :
    interpAnswers (handleSyscall (runLinuxElf m.tmp m.depth) m.tmp prog.base) prog.base n
        ⟨Cpu.start prog.initialRsp prog.entry, prog.mem, os⟩ =
      interpAnswers (handleSyscall (runLinuxElf m.tmp m.depth) m.tmp prog.base) prog.base n
        ⟨Cpu.start prog.initialRsp prog.entry, prog.mem, os'⟩

theorem SameOs.sameAnswers (h : SameOs os os') : SameAnswers m os os' :=
  ⟨fun _ _ _ ↦ nativeAnswers_eq h, fun _ _ ↦ interpAnswers_eq ⟨rfl, rfl, h⟩⟩

/-- The kernel, with other memory. -/
def Os.withRam (os : Os) (ram : ℕ → U8) : Os := { os with world := { os.world with ram := ram } }

/-- The image that a history finds mounted does not depend on the history. -/
theorem Machine.rootfs_eq {reader : Stdin} {ram : ℕ → U8} {cmds : List String}
    (h : Trace (Shell.Step m) (m.boot reader ram) cmds s) (henter : m.Enters cmd s.os os) :
    os.world.kernel.rootfs = m.ramdisk.filter fun disk ↦ (Fs.header disk.bytes).isOk := by
  have hboot : (m.boot reader ram).os.world.kernel.rootfs =
      m.ramdisk.filter fun disk ↦ (Fs.header disk.bytes).isOk := by
    rw [boot, bootKernel]
    cases m.ramdisk with
    | none => rfl
    | some disk =>
      dsimp only [Option.filter]
      split <;> rfl
  have hend := h.keeps (P := fun s ↦ s.os.world.kernel.rootfs = _)
    (fun _ _ _ hs hstep ↦ hstep.rootfs_eq.trans hs) hboot
  obtain h | h := henter.kernel_eq
  · rw [h, hend]
  · rw [h, ← hend]
    rfl

theorem Machine.Enters.pending_eq (h : m.Enters cmd os os') :
    os'.world.kernel.pending = os.world.kernel.pending := by
  obtain h | h := h.kernel_eq
  · rw [h]
  · rw [h]
    rfl

/-- **What a run finds**: the tables that were left, and those of a fresh boot at first.  Histories
that leave the same tables are the same to every program. -/
theorem run_takes_over (m : Machine) {reader reader' : Stdin} {ram ram' : ℕ → U8}
    {cmds cmds' : List String} {s s' : Shell} {cmd cmd' : String} {os os' : Os}
    (hrun : Trace (Shell.Step m) (m.boot reader ram) cmds s) (henter : m.Enters cmd s.os os)
    (hrun' : Trace (Shell.Step m) (m.boot reader' ram') cmds' s')
    (henter' : m.Enters cmd' s'.os os') :
    os.world.kernel.tables = s.os.world.kernel.tables ∧
      (cmds = [] → os.world.kernel.tables = .fresh) ∧
      (s.os.world.kernel.tables = s'.os.world.kernel.tables →
        s.os.world.kernel.pending = s'.os.world.kernel.pending →
          ∀ mem, SameAnswers m (os.withRam mem) (os'.withRam mem)) := by
  refine ⟨henter.tables_eq, ?_, fun htables hpending mem ↦ SameOs.sameAnswers ?_⟩
  · rintro rfl
    cases hrun
    exact henter.tables_eq.trans (m.tables_boot reader ram)
  · refine ⟨?_, (Machine.rootfs_eq hrun henter).trans (Machine.rootfs_eq hrun' henter').symm, ?_,
      rfl⟩
    · exact henter.tables_eq.trans (htables.trans henter'.tables_eq.symm)
    · exact henter.pending_eq.trans (hpending.trans henter'.pending_eq.symm)

/-! ### A machine with one program -/

/-- A machine with a file of code on its disk. -/
def Elf.CodeFile.machine {code : List U8} (h : CodeFile code) : Machine where
  ramdisk := some h.disk
  buffers := ⟨fun _ ↦ 0, zero_base_fits⟩
  tmp := ⟨1, one_addr_ne_zero⟩
  depth := 0

theorem Elf.CodeFile.finds {code : List U8} (h : CodeFile code) :
    h.machine.Finds "run a" (codeFile code) ["a"] := by
  obtain ⟨rec, hopen, hdata⟩ := h.open_disk
  exact ⟨"a", "", _, rec, by decide, rfl, hopen, hdata.symm, by decide⟩

theorem Elf.CodeFile.enters {code : List U8} (h : CodeFile code) (os : Os) :
    h.machine.Enters "run a" os os := by
  obtain ⟨prog, hprog, -⟩ := h.loads (oneArg "a" (by decide)) .nil (by decide)
  exact .interpreted h.finds (h.loadNativeElf_eq _ _ _) hprog

/-- To a program, it is the same whether it is the first or comes after one that just returns. -/
theorem run_takes_over_return :
    ∃ s os, Trace (Shell.Step codeFile_return.machine)
        (codeFile_return.machine.boot heldKey fun _ ↦ 0) ["run a"] s ∧
      codeFile_return.machine.Enters "run a" s.os os ∧ os.world.kernel.tables = .fresh ∧
        SameAnswers codeFile_return.machine
          ((codeFile_return.machine.boot heldKey fun _ ↦ 0).os.withRam fun _ ↦ 0)
          (os.withRam fun _ ↦ 0) := by
  let start : Shell := codeFile_return.machine.boot heldKey fun _ ↦ 0
  have hreturn : codeFile_return.machine.interpret (codeFile [0xC3]) ["a"] start.os =
      .ok () start.os :=
    (runLinuxElf_return (oneArg "a" (by decide)) .nil (by decide) _ _ start.os).1
  have hstep := Shell.Step.interpreted codeFile_return.finds
    (codeFile_return.loadNativeElf_eq _ _ _) hreturn
  have henter := codeFile_return.enters start.os
  obtain ⟨-, hfresh, hsame⟩ := run_takes_over codeFile_return.machine (.nil start) henter
    (.single hstep) henter
  exact ⟨_, start.os, .single hstep, henter, hfresh rfl, hsame rfl rfl fun _ ↦ 0⟩

/-- `mmap`, and a return. -/
abbrev mmapCode : List U8 := callCode 9 0 [0xC3]

set_option maxRecDepth 8000 in
theorem codeFile_mmap : CodeFile mmapCode := ⟨rfl, by decide⟩

theorem handleSyscall_mmap (run : Run) (tmp : StackSlot) (base : U64) {next : U64} {g : Guest Os}
    (hnr : Nr.decode g.cpu.rax.toNat = .mmap)
    (h : sysMmap g.cpu.rsi g.os.world = .ok g.os.world.kernel.mmapBase
      { g.os.world with kernel := { g.os.world.kernel with mmapBase := next } }) :
    handleSyscall run tmp base g = .ok false { g with
      cpu := { g.cpu with rax := g.os.world.kernel.mmapBase }
      os := { g.os with world := { g.os.world with
        kernel := { g.os.world.kernel with mmapBase := next } } } } := by
  have hdefault : handleDefault .mmap g =
      (sys (sysMmap g.cpu.rsi) >>= fun n ↦ setRax n false) g := by
    rw [handleDefault, bind_getCpu, dispatch]
  rw [handleSyscall, bind_getCpu, hnr]
  dsimp only
  rw [hdefault, RustM.bind_apply, sys, h]
  rfl

/-- The program leaves the cursor where the next page is. -/
theorem interpret_mmap (os : Os) : ∃ os',
    codeFile_mmap.machine.interpret (codeFile mmapCode) ["a"] os = .ok () os' ∧
      os'.world.kernel.mmapBase.toNat = (os.world.kernel.mmapBase.toNat + 0x1000) % 2 ^ 64 := by
  obtain ⟨sp, mem, hcode, hmem, hrun⟩ :=
    codeFile_mmap.run_eq (oneArg "a" (by decide)) .nil (by decide)
  have hin : CallIn 9 0 [0xC3] mem := ⟨hcode, hmem, by decide, by decide⟩
  obtain ⟨hrun, -⟩ := hrun codeFile_mmap.machine.tmp codeFile_mmap.machine.depth os
  obtain ⟨next, hmmap, hnext⟩ :=
    sysMmap_ok os.world (show (0 : U64).toNat + 0xFFF < 2 ^ 64 by decide)
  have hrsi : (atCall 9 0 sp mem os).cpu.rsi = 0 := rfl
  have hnr : Nr.decode (atCall 9 0 sp mem os).cpu.rax.toNat = .mmap := rfl
  have hcall := handleSyscall_mmap
    (runLinuxElf codeFile_mmap.machine.tmp codeFile_mmap.machine.depth) codeFile_mmap.machine.tmp
    codeAddr hnr (hrsi ▸ hmmap)
  have hmax : maxSteps = 131068 + 4 := rfl
  rw [hmax, hin.runSteps_call_ret sp os 131068 hcall rfl rfl] at hrun
  exact ⟨_, hrun, hnext⟩

/-- **After a program that has asked for memory**, the next does not find the cursor of a fresh
boot. -/
theorem run_finds_moved_cursor :
    ∃ s os, Trace (Shell.Step codeFile_mmap.machine)
        (codeFile_mmap.machine.boot heldKey fun _ ↦ 0) ["run a"] s ∧
      codeFile_mmap.machine.Enters "run a" s.os os ∧ os.world.kernel.tables ≠ .fresh := by
  let start : Shell := codeFile_mmap.machine.boot heldKey fun _ ↦ 0
  have hboot : start.os.world.kernel.tables = .fresh := codeFile_mmap.machine.tables_boot _ _
  have hbase : start.os.world.kernel.mmapBase = Tables.fresh.mmapBase := by
    rw [← Kernel.mmapBase_tables, hboot]
  obtain ⟨os', hrun, hnext⟩ := interpret_mmap start.os
  have hstep := Shell.Step.interpreted codeFile_mmap.finds (codeFile_mmap.loadNativeElf_eq _ _ _)
    hrun
  refine ⟨_, os', .single hstep, codeFile_mmap.enters os', fun hfresh ↦ ?_⟩
  have hsame : os'.world.kernel.mmapBase = Tables.fresh.mmapBase := by
    rw [← Kernel.mmapBase_tables, hfresh]
  rw [hbase, hsame] at hnext
  exact absurd hnext (by decide)

end LeonOS
