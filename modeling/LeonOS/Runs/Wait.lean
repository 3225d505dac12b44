import LeonOS.Interp.Effect
import LeonOS.Kernel.Wait
import LeonOS.Lib.Runs
import LeonOS.Native.Effect

/-!
# Waiting for programs

What programs, started one after another by the shell, can learn from `wait4`.  A history is a run
of `Event`s from the boot on: mounts, starts of native programs, and system calls of native and of
interpreted programs.  The start of an interpreted program does nothing to the kernel and is no
event; a program that `execve` runs inside of another has its own events after it.

The exit that a history leaves to be waited for (`Stage.pending`) is filled by `exit` and
`exit_group`, and emptied by a `wait4` that succeeds.  `wait4` is right in a state when it answers
as `waitSpec` says for this exit.

The kernel, though, takes more for an exit than that: `run_native_elf_with_args` and `execve` call
`mark_exit_code(0)` for the program they start.  So `wait4` stays right exactly as long as such a
start only ever comes while an exit waits whose code is a zero for `wait4` already
(`waitsRight_iff`).
-/

set_option autoImplicit false

namespace LeonOS

open Bytes RustM Runs

/-! ## Histories -/

/-- What can happen. -/
inductive Event where
  /-- `set_rootfs`. -/
  | mount (image : Image)
  /-- A native program is entered. -/
  | nativeStart
  /-- A system call of a native program. -/
  | native (nr a0 a1 a2 a3 : U64)
  /-- A system call of an interpreted program, with its registers and memory. -/
  | interpreted (base : U64) (cpu : Cpu) (mem : List U8)

namespace Event

/-- The number, and the first two arguments, of a system call. -/
def call : Event → Option (Nr × U64 × U64)
  | .mount _ | .nativeStart => none
  | .native nr a0 a1 _ _ => some (.decode nr.toNat, a0, a1)
  | .interpreted _ cpu _ => some (.decode cpu.rax.toNat, cpu.rdi, cpu.rsi)

/-- The runner of the programs of `execve` when what they do comes later. -/
def later : Run := fun _ _ _ ↦ pure ()

/-- The event, its result and the state afterwards.  A system call that ends in a runtime error
ends the program. -/
inductive Ran (tmp : StackSlot) : Event → Os → U64 → Os → Prop
  | mount {image : Image} {os : Os} : Ran tmp (.mount image) os 0
      { os with world := { os.world with kernel := os.world.kernel.setRootfs image } }
  | nativeStart {os os' : Os} (h : LeonOS.nativeStart os = .ok () os') :
      Ran tmp .nativeStart os 0 os'
  | native {nr a0 a1 a2 a3 r : U64} {os os' : Os}
      (h : nativeSyscall nr a0 a1 a2 a3 os = .ok r os') : Ran tmp (.native nr a0 a1 a2 a3) os r os'
  | interpreted {base : U64} {cpu : Cpu} {mem : List U8} {os : Os} {stop : Bool} {g : Guest Os}
      (h : handleSyscall later tmp base ⟨cpu, mem, os⟩ = .ok stop g) :
      Ran tmp (.interpreted base cpu mem) os g.cpu.rax g.os
  | failed {base : U64} {cpu : Cpu} {mem : List U8} {os : Os} {e : RunError} {g : Guest Os}
      (h : handleSyscall later tmp base ⟨cpu, mem, os⟩ = .error (.err e) g) :
      Ran tmp (.interpreted base cpu mem) os g.cpu.rax g.os

/-- The exit that is left to be waited for, if `pending` was before and the result is `r`. -/
def pendingAfter (e : Event) (r : U64) (pending : Option (BitVec 32)) : Option (BitVec 32) :=
  match e.call with
  | some (nr, arg0, _) => nr.pendingAfter arg0 r pending
  | none => pending

end Event

/-- A stage of a history: the exit that is left to be waited for, and the system. -/
structure Stage where
  /-- The code of the last exit, unless a `wait4` has reported it. -/
  pending : Option (BitVec 32)
  /-- The system. -/
  os : Os

/-- A step of a history. -/
def Event.Step (tmp : StackSlot) (e : Event) (s s' : Stage) : Prop :=
  ∃ r, e.Ran tmp s.os r s'.os ∧ s'.pending = e.pendingAfter r s.pending

/-- **`wait4` is right**: whoever calls it is answered what the history says. -/
def Stage.WaitsRight (tmp : StackSlot) (s : Stage) : Prop :=
  ∀ (e : Event) (pid statusPtr : U64), e.call = some (.wait4, pid, statusPtr) →
    ∃ r os', e.Ran tmp s.os r os' ∧ (r, os'.world.ram) =
      waitSpec s.pending (s.os.world.kernel.pid.setWidth 64) pid statusPtr s.os.world.ram

/-! ## Starts of programs -/

/-- The event starts a program in a way that marks an exit. -/
def Event.Starts (e : Event) (os : Os) : Prop :=
  match e with
  | .nativeStart => True
  | .interpreted base cpu mem => Nr.decode cpu.rax.toNat = .execve ∧
      ∃ name argv envp rec, ExecTarget base ⟨cpu, mem, os⟩ name argv envp rec
  | _ => False

/-- A start of a program does not show when the exit that waits has a zero for its low byte. -/
def Event.Harmless (e : Event) (s : Stage) : Prop :=
  e.Starts s.os → ∃ code, s.pending = some code ∧ lowByte code = 0

/-! ## Native programs -/

variable {tmp : StackSlot} {nr a0 a1 a2 a3 r : U64} {os os' : Os}

theorem nativeDispatch_waitable {nr : Nr} (hexit : nr ≠ .exit) (hgroup : nr ≠ .exitGroup)
    (hwait : nr ≠ .wait4) : Ensures (nativeDispatch nr a0 a1 a2 a3) os fun _ os' ↦
      SameWaitable os.world.kernel os'.world.kernel :=
  nativeDispatch_keeps readStdinByteBlocking_waitable
    (fun _ ↦ dispatch_waitable hexit hgroup hwait) os

theorem nativeSyscall_waitable : Ensures (nativeSyscall nr a0 a1 a2 a3) os fun r os' ↦
    os'.world.kernel.waitable =
      (Nr.decode nr.toNat).pendingAfter a0 r os.world.kernel.waitable := by
  rw [nativeSyscall]
  generalize Nr.decode nr.toNat = nr
  by_cases hexit : nr = .exit
  · subst hexit
    exact (ensures_of_eq rfl).mpr rfl
  by_cases hgroup : nr = .exitGroup
  · subst hgroup
    exact (ensures_of_eq rfl).mpr rfl
  by_cases hwait : nr = .wait4
  · subst hwait
    obtain ⟨w, hrun, -, hwaitable⟩ := wait4_spec a0 a1 a2 a3 os.world
    exact ensures_nativeSys.mpr ((ensures_of_eq hrun).mpr hwaitable)
  · simp only [Nr.pendingAfter_of_ne hexit hgroup hwait]
    cases nr with
    | exit => exact absurd rfl hexit
    | exitGroup => exact absurd rfl hgroup
    | _ => exact nativeDispatch_waitable hexit hgroup hwait

/-! ## Interpreted programs -/

variable {base : U64} {g : Guest Os}

/-- A call that neither exits, nor waits, nor starts a program. -/
theorem handleSyscall_waitable {run : Run} (hexit : Nr.decode g.cpu.rax.toNat ≠ .exit)
    (hgroup : Nr.decode g.cpu.rax.toNat ≠ .exitGroup)
    (hwait : Nr.decode g.cpu.rax.toNat ≠ .wait4) (hexec : Nr.decode g.cpu.rax.toNat ≠ .execve) :
    KeepsAt (OnOs (OnKernel SameWaitable)) (handleSyscall run tmp base) g :=
  handleSyscall_keepsAt readStdinByteBlocking_waitable
    (fun _ _ _ _ _ ↦ dispatch_waitable hexit hgroup hwait) hexit hgroup hexec

/-- `wait4` goes to `dispatch`. -/
theorem handleSyscall_wait4 {run : Run} {w : World} (h : Nr.decode g.cpu.rax.toNat = .wait4)
    (hrun : dispatch .wait4 g.cpu.rdi g.cpu.rsi g.cpu.rdx g.cpu.r10 g.os.world = .ok r w) :
    handleSyscall run tmp base g = .ok false
      { g with cpu := { g.cpu with rax := r }, os := { g.os with world := w } } := by
  rw [handleSyscall, bind_getCpu, h]
  change handleDefault .wait4 g = _
  rw [handleDefault, bind_getCpu, bind_apply, sys, hrun]
  rfl

/-- `execve` marks an exit when it finds a file. -/
theorem handleSyscall_execve (h : Nr.decode g.cpu.rax.toNat = .execve) :
    (∃ name argv envp rec, ExecTarget base g name argv envp rec ∧
      handleSyscall Event.later tmp base g = .ok true { g with
        cpu := { g.cpu with rax := 0 }
        os := { g.os with world := { g.os.world with
          kernel := g.os.world.kernel.markExitCode 0 } } }) ∨
    (∀ name argv envp rec, ¬ExecTarget base g name argv envp rec) ∧
      KeepsAt (OnOs (OnKernel SameWaitable)) (handleSyscall Event.later tmp base) g := by
  rw [KeepsAt, handleSyscall_of_execve h]
  rcases handleExecve_cases base g with ⟨name, argv, envp, rec, htarget, hrun⟩ | ⟨hnone, hrun⟩
  · exact .inl ⟨name, argv, envp, rec, htarget, hrun Event.later⟩
  · refine .inr ⟨hnone, ?_⟩
    rcases hrun with ⟨r, hrun⟩ | ⟨e, hrun⟩
    · rw [hrun]
      refine ⟨fun _ _ h ↦ ?_, fun _ _ h ↦ by cases h⟩
      cases h
      exact Eq.refl _
    · rw [hrun]
      refine ⟨fun _ _ h ↦ (by cases h), fun _ _ h ↦ ?_⟩
      cases h
      exact Eq.refl _

/-- **What an interpreted call does to the exit that waits**, when it does not start a program. -/
theorem handleSyscall_pendingAfter (hstart : Nr.decode g.cpu.rax.toNat = .execve →
    ∀ name argv envp rec, ¬ExecTarget base g name argv envp rec) :
    (∀ stop g', handleSyscall Event.later tmp base g = .ok stop g' →
      g'.os.world.kernel.waitable = (Nr.decode g.cpu.rax.toNat).pendingAfter g.cpu.rdi g'.cpu.rax
        g.os.world.kernel.waitable) ∧
    ∀ e g', handleSyscall Event.later tmp base g = .error (.err e) g' →
      g'.os.world.kernel.waitable = (Nr.decode g.cpu.rax.toNat).pendingAfter g.cpu.rdi g'.cpu.rax
        g.os.world.kernel.waitable := by
  by_cases hexit : Nr.decode g.cpu.rax.toNat = .exit
  · rw [handleSyscall_exit (.inl hexit), hexit]
    refine ⟨fun _ _ h ↦ ?_, fun _ _ h ↦ nomatch h⟩
    cases h
    rfl
  by_cases hgroup : Nr.decode g.cpu.rax.toNat = .exitGroup
  · rw [handleSyscall_exit (.inr hgroup), hgroup]
    refine ⟨fun _ _ h ↦ ?_, fun _ _ h ↦ nomatch h⟩
    cases h
    rfl
  by_cases hwait : Nr.decode g.cpu.rax.toNat = .wait4
  · obtain ⟨w, hrun, -, hwaitable⟩ :=
      wait4_spec g.cpu.rdi g.cpu.rsi g.cpu.rdx g.cpu.r10 g.os.world
    rw [handleSyscall_wait4 hwait hrun, hwait]
    refine ⟨fun _ _ h ↦ ?_, fun _ _ h ↦ nomatch h⟩
    cases h
    exact hwaitable
  simp only [Nr.pendingAfter_of_ne hexit hgroup hwait]
  by_cases hexec : Nr.decode g.cpu.rax.toNat = .execve
  · rcases handleSyscall_execve hexec with ⟨_, _, _, _, htarget, -⟩ | ⟨-, hkeeps⟩
    · exact absurd htarget (hstart hexec _ _ _ _)
    · exact hkeeps
  · exact handleSyscall_waitable hexit hgroup hwait hexec

/-! ## Programs are histories -/

/-- Some events lead from one state of the system to another. -/
def Reaches (tmp : StackSlot) (os os' : Os) : Prop :=
  ∀ pending, ∃ es pending', Trace (Event.Step tmp) ⟨pending, os⟩ es ⟨pending', os'⟩

instance : IsPreorder Os (Reaches tmp) where
  refl _ pending := ⟨[], pending, .nil _⟩
  trans _ _ _ h h' pending := by
    obtain ⟨es, pending₁, hrun⟩ := h pending
    obtain ⟨es', pending', hrun'⟩ := h' pending₁
    exact ⟨es ++ es', pending', hrun.append hrun'⟩

theorem Event.Ran.reaches {e : Event} (h : e.Ran tmp os r os') : Reaches tmp os os' :=
  fun pending ↦ ⟨[e], e.pendingAfter r pending, .single ⟨r, h, rfl⟩⟩

/-- A system call is an event, followed by those of the program that it runs. -/
theorem handleSyscall_reaches {run : Run}
    (hrun : ∀ image argv envp, Keeps (Reaches tmp) (run image argv envp)) :
    Keeps (OnOs (Reaches tmp)) (handleSyscall run tmp base) := by
  intro g
  have hevent : KeepsAt (OnOs (Reaches tmp)) (handleSyscall Event.later tmp base) g :=
    ⟨fun _ _ h ↦ (Event.Ran.interpreted h).reaches, fun _ _ h ↦ (Event.Ran.failed h).reaches⟩
  by_cases hexec : Nr.decode g.cpu.rax.toNat = .execve
  · have harm : ∀ run, handleSyscall run tmp base g = handleExecve run base g := fun run ↦ by
      rw [handleSyscall, bind_getCpu, hexec]
    rcases handleExecve_cases base g with ⟨name, argv, envp, rec, -, heq⟩ | ⟨-, heq⟩
    · have hmark := hevent.1 true _ ((harm Event.later).trans (heq Event.later))
      rw [KeepsAt, harm run, heq run]
      -- what is run starts where the event has ended
      have hrest : Keeps (OnOs (Reaches tmp)) (do
          if ← attempt (run rec.data (if argv = [] then [name] else argv) envp) then setRax 0 true
          else setRax (-enoexec) false) :=
        (attempt_keeps (hrun _ _ _)).bind fun _ ↦ .ite (keeps_setRax _ _) (keeps_setRax _ _)
      obtain ⟨hok, herr⟩ := hrest { g with os := { g.os with world := { g.os.world with
        kernel := g.os.world.kernel.markExitCode 0 } } }
      exact ⟨fun b g' h ↦ IsTrans.trans _ _ _ hmark (hok b g' h),
        fun e g' h ↦ IsTrans.trans _ _ _ hmark (herr e g' h)⟩
    · rw [KeepsAt, harm Event.later] at hevent
      rw [KeepsAt, harm run]
      rcases heq with ⟨r, heq⟩ | ⟨e, heq⟩
      · rw [heq run, ← heq Event.later]
        exact hevent
      · rw [heq run, ← heq Event.later]
        exact hevent
  · rw [KeepsAt, handleSyscall_of_ne_execve run Event.later hexec]
    exact hevent

/-- **The run of a program is a history**, with the programs that it runs inside. -/
theorem runLinuxElf_reaches (tmp : StackSlot) (depth : ℕ) (image : List U8)
    (argv envp : List String) : Keeps (Reaches tmp) (runLinuxElf tmp depth image argv envp) := by
  induction depth generalizing image argv envp with
  | zero => exact keeps_throw _
  | succ depth ih =>
    exact (keeps_lift _).bind fun prog ↦ runProgram_keeps fun base ↦ handleSyscall_reaches ih

/-! ## What an event does to the exit that waits -/

/-- What the start of a program marks. -/
theorem Event.Ran.waitable_of_starts {e : Event} (h : e.Ran tmp os r os') (hstart : e.Starts os) :
    os'.world.kernel.waitable = some 0 := by
  cases h with
  | mount | native => exact absurd hstart id
  | nativeStart h =>
    cases h
    rfl
  | @interpreted base cpu mem _ _ _ h =>
    obtain ⟨hnr, name, argv, envp, rec, htarget⟩ := hstart
    rcases handleSyscall_execve (g := ⟨cpu, mem, os⟩) hnr with ⟨_, _, _, _, _, hrun⟩ | ⟨hnone, -⟩
    · cases hrun.symm.trans h
      rfl
    · exact absurd htarget (hnone _ _ _ _)
  | @failed base cpu mem _ _ _ h =>
    obtain ⟨hnr, name, argv, envp, rec, htarget⟩ := hstart
    rcases handleSyscall_execve (g := ⟨cpu, mem, os⟩) hnr with ⟨_, _, _, _, _, hrun⟩ | ⟨hnone, -⟩
    · exact nomatch hrun.symm.trans h
    · exact absurd htarget (hnone _ _ _ _)

/-- Every other event does what the history says. -/
theorem Event.Ran.waitable_of_not_starts {e : Event} (h : e.Ran tmp os r os')
    (hstart : ¬e.Starts os) :
    os'.world.kernel.waitable = e.pendingAfter r os.world.kernel.waitable := by
  cases h with
  | mount => rfl
  | nativeStart => exact absurd trivial hstart
  | native h => exact nativeSyscall_waitable _ _ h
  | @interpreted base cpu mem _ _ _ h =>
    have hnone : Nr.decode cpu.rax.toNat = .execve → ∀ name argv envp rec,
        ¬ExecTarget base ⟨cpu, mem, os⟩ name argv envp rec :=
      fun hnr name argv envp rec htarget ↦ hstart ⟨hnr, name, argv, envp, rec, htarget⟩
    exact (handleSyscall_pendingAfter (g := ⟨cpu, mem, os⟩) hnone).1 _ _ h
  | @failed base cpu mem _ _ _ h =>
    have hnone : Nr.decode cpu.rax.toNat = .execve → ∀ name argv envp rec,
        ¬ExecTarget base ⟨cpu, mem, os⟩ name argv envp rec :=
      fun hnr name argv envp rec htarget ↦ hstart ⟨hnr, name, argv, envp, rec, htarget⟩
    exact (handleSyscall_pendingAfter (g := ⟨cpu, mem, os⟩) hnone).2 _ _ h

/-- A start leaves the exit of the history alone, and goes through. -/
theorem Event.Starts.ran (tmp : StackSlot) {e : Event} (h : e.Starts os) :
    (∃ r os', e.Ran tmp os r os') ∧ ∀ r pending, e.pendingAfter r pending = pending := by
  cases e with
  | mount | native => exact absurd h id
  | nativeStart => exact ⟨⟨_, _, .nativeStart rfl⟩, fun _ _ ↦ rfl⟩
  | interpreted base cpu mem =>
    obtain ⟨hnr, name, argv, envp, rec, htarget⟩ := h
    refine ⟨?_, fun r pending ↦ ?_⟩
    · rcases handleSyscall_execve (g := ⟨cpu, mem, os⟩) hnr with ⟨_, _, _, _, _, hrun⟩ | ⟨hnone, -⟩
      · exact ⟨_, _, .interpreted hrun⟩
      · exact absurd htarget (hnone _ _ _ _)
    · rw [Event.pendingAfter, Event.call]
      simp only [hnr]
      rfl

/-! ## The protocol -/

variable {s s' : Stage} {e : Event}

/-- **The invariant**: the exit that the kernel holds is the one of the history, as far as `wait4`
reports it. -/
def Stage.Matches (s : Stage) : Prop :=
  s.os.world.kernel.waitable.map lowByte = s.pending.map lowByte

/-- A `wait4` of either kind of program. -/
theorem Event.ran_wait4 (tmp : StackSlot) (os : Os) {pid statusPtr : U64}
    (h : e.call = some (.wait4, pid, statusPtr)) :
    ∃ r os', e.Ran tmp os r os' ∧ (r, os'.world.ram) = waitSpec os.world.kernel.waitable
      (os.world.kernel.pid.setWidth 64) pid statusPtr os.world.ram := by
  cases e with
  | mount | nativeStart => exact nomatch h
  | native nr a0 a1 a2 a3 =>
    simp only [Event.call, Option.some.injEq, Prod.mk.injEq] at h
    obtain ⟨hnr, rfl, rfl⟩ := h
    obtain ⟨w, hrun, hram, -⟩ := wait4_spec a0 a1 a2 a3 os.world
    refine ⟨_, { os with world := w }, .native ?_, Prod.ext rfl hram⟩
    rw [nativeSyscall, hnr]
    simp only [nativeDispatch, nativeSys, hrun]
  | interpreted base cpu mem =>
    simp only [Event.call, Option.some.injEq, Prod.mk.injEq] at h
    obtain ⟨hnr, rfl, rfl⟩ := h
    obtain ⟨w, hrun, hram, -⟩ := wait4_spec cpu.rdi cpu.rsi cpu.rdx cpu.r10 os.world
    exact ⟨_, _, .interpreted (handleSyscall_wait4 (g := ⟨cpu, mem, os⟩) hnr hrun),
      Prod.ext rfl hram⟩

/-- `wait4` is right exactly as long as the kernel holds the exit of the history. -/
theorem Stage.waitsRight_iff : s.WaitsRight tmp ↔ s.Matches := by
  constructor
  · intro h
    obtain ⟨r, os', hran, hspec⟩ := h (.native 61 0 8 0 0) 0 8 rfl
    obtain ⟨w, hrun, hram, -⟩ := wait4_spec 0 8 0 0 s.os.world
    cases hran with
    | native hsys =>
      have hown : nativeSyscall 61 0 8 0 0 s.os = .ok (waitSpec s.os.world.kernel.waitable
          (s.os.world.kernel.pid.setWidth 64) 0 8 s.os.world.ram).1 { s.os with world := w } := by
        change nativeSys (dispatch .wait4 0 8 0 0) s.os = _
        rw [nativeSys, hrun]
      cases hown.symm.trans hsys
      have hsame : waitSpec s.os.world.kernel.waitable (s.os.world.kernel.pid.setWidth 64) 0 8
          s.os.world.ram = waitSpec s.pending (s.os.world.kernel.pid.setWidth 64) 0 8
          s.os.world.ram := by
        rw [← hspec]
        exact Prod.ext rfl hram.symm
      exact waitSpec_inj hsame
  · intro h e pid statusPtr hcall
    obtain ⟨r, os', hran, hspec⟩ := e.ran_wait4 tmp s.os hcall
    exact ⟨r, os', hran, hspec.trans (waitSpec_congr h _ _ _ _)⟩

/-- What a harmless event keeps. -/
theorem Event.Step.matches (hstep : e.Step tmp s s') (hs : s.Matches) (hharm : e.Harmless s) :
    s'.Matches := by
  obtain ⟨r, hran, hpending⟩ := hstep
  rw [Stage.Matches, hpending]
  by_cases hstart : e.Starts s.os
  · obtain ⟨code, hsome, hzero⟩ := hharm hstart
    rw [hran.waitable_of_starts hstart, (hstart.ran tmp).2, hsome, Option.map_some,
      Option.map_some, hzero]
    rfl
  · rw [hran.waitable_of_not_starts hstart, Event.pendingAfter, Event.pendingAfter]
    cases e.call with
    | none => exact hs
    | some call => exact Nr.map_lowByte_pendingAfter hs call.1 call.2.1 r

/-- An event that keeps the invariant is harmless. -/
theorem Event.harmless_of_matches (h : ∀ s', e.Step tmp s s' → s'.Matches) : e.Harmless s := by
  intro hstart
  obtain ⟨⟨r, os', hran⟩, hpending⟩ := hstart.ran tmp
  have hs' := h ⟨s.pending, os'⟩ ⟨r, hran, (hpending r s.pending).symm⟩
  rw [Stage.Matches, hran.waitable_of_starts hstart, Option.map_some, eq_comm] at hs'
  exact Option.map_eq_some_iff.mp hs'

/-- **When the protocol holds**: `wait4` is right in every state of a history exactly when every
start of a program comes while an exit waits whose low byte is zero. -/
theorem waitsRight_always_iff (tmp : StackSlot) (os : Os) (es : List Event)
    (hboot : os.world.kernel.exitWaitable = false) :
    Always (Event.Step tmp) (Stage.WaitsRight tmp) ⟨none, os⟩ es ↔
      AllSteps (Event.Step tmp) Event.Harmless ⟨none, os⟩ es := by
  have hstart : Stage.Matches ⟨none, os⟩ := by
    rw [Stage.Matches, Kernel.waitable, hboot]
    rfl
  have hright : Stage.WaitsRight tmp = Stage.Matches := funext fun _ ↦ propext Stage.waitsRight_iff
  rw [hright]
  exact always_iff (fun _ _ _ hs hharm hstep ↦ Event.Step.matches hstep hs hharm)
    (fun _ _ _ h ↦ Event.harmless_of_matches h) hstart

/-! ### An exit that is written over -/

/-- A machine that has just been booted. -/
def bootedOs : Os := ⟨⟨.boot, fun _ ↦ 0, []⟩, []⟩

/-- One native program exits with 7, and another is started. -/
def exitThenStart : List Event := [.nativeStart, .native 60 7 0 0 0, .nativeStart]

theorem waitsRight_always_exit :
    Always (Event.Step ⟨1, by decide⟩) (Stage.WaitsRight ⟨1, by decide⟩) ⟨none, bootedOs⟩
        exitThenStart ↔
      AllSteps (Event.Step ⟨1, by decide⟩) Event.Harmless ⟨none, bootedOs⟩ exitThenStart :=
  waitsRight_always_iff ⟨1, by decide⟩ bootedOs exitThenStart rfl

/-- `wait4` then reports a zero. -/
theorem exit_overwritten : ¬∀ (tmp : StackSlot) (es : List Event),
    Always (Event.Step tmp) (Stage.WaitsRight tmp) ⟨none, bootedOs⟩ es := by
  intro h
  let tmp : StackSlot := ⟨1, by decide⟩
  let marked (code : BitVec 32) : Os :=
    { bootedOs with world := { bootedOs.world with kernel := Kernel.boot.markExitCode code } }
  have hstart : Event.nativeStart.Step tmp ⟨none, bootedOs⟩ ⟨none, marked 0⟩ :=
    ⟨0, .nativeStart rfl, rfl⟩
  have hexit : (Event.native 60 7 0 0 0).Step tmp ⟨none, marked 0⟩ ⟨some 7, marked 7⟩ :=
    ⟨0, .native rfl, rfl⟩
  have hagain : Event.nativeStart.Step tmp ⟨some 7, marked 7⟩ ⟨some 7, marked 0⟩ :=
    ⟨0, .nativeStart rfl, rfl⟩
  have hrun : Trace (Event.Step tmp) ⟨none, bootedOs⟩ exitThenStart ⟨some 7, marked 0⟩ :=
    .cons hstart (.cons hexit (.single hagain))
  have hmatch : some (lowByte 0) = some (lowByte 7) :=
    Stage.waitsRight_iff.mp (h tmp exitThenStart _ _ List.prefix_rfl hrun)
  exact absurd hmatch (by decide)

end LeonOS
