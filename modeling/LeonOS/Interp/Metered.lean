import LeonOS.Interp.Account
import LeonOS.Kernel.HeapHistory
import LeonOS.Lib.Metered

/-!
# Runs on a heap and a stack

`execve` runs the new program on the kernel's stack, inside of the system call of the old one, and
the memory of every program is a vector on the heap, which takes no block back.  `meteredRun` is
`run_linux_elf_with_args` with both: it ends in a panic where `alloc` returns null, as
`alloc_error` does not return, and where the stack has no frame left.  Its meter also counts the
instructions, the programs, and how many of them were inside of one another.

Where such a run does not panic, it is the run of the interpreter (`meteredRun_follows`).  However
it ends, the heap that is used up bounds the programs that were loaded, and so the instructions and
the nesting (`meteredRun_bounded`).
-/

set_option autoImplicit false

namespace LeonOS

open Bytes RustM

/-! ## The heap -/

/-- **The blocks that a run asks for.**  How vectors, strings and the terminal grow is up to code
that is not the kernel's, and is left open. -/
structure Allocations where
  /-- Those of the loading phase, for a file, its arguments and its environment. -/
  load : List U8 → List String → List String → List Layout
  /-- Those of a system call. -/
  call : U64 → Guest Os → List Layout
  /-- The memory of the program is one of them. -/
  memory : ∀ image l argv envp, Elf.layout linuxRunner image = .ok l →
    ∃ block ∈ load image argv envp, block.size = l.totalLen

/-! ## The meter -/

/-- What a run has used. -/
structure Meter where
  /-- The end of the blocks on the heap. -/
  next : ℕ
  /-- The instructions, of all programs. -/
  instructions : ℕ
  /-- The programs that were loaded. -/
  programs : ℕ
  /-- How many programs the innermost program was inside of. -/
  nesting : ℕ

/-- Nothing but a part of the heap. -/
def Meter.start (next : ℕ) : Meter := ⟨next, 0, 0, 0⟩

/-- An instruction. -/
def Meter.tick (m : Meter) : Meter := { m with instructions := m.instructions + 1 }

/-- A program, inside of `level` others. -/
def Meter.enter (m : Meter) (level : ℕ) : Meter :=
  { m with programs := m.programs + 1, nesting := max m.nesting level }

variable {σ : Type}

/-- Blocks are taken from the heap. -/
def takeBlocks (r : Region) (blocks : σ → List Layout) : RustM RunError (σ × Meter) Unit := fun s ↦
  (r.allocAll (blocks s.1) s.2.next).elim (.error .panic s) fun next ↦
    .ok () (s.1, { s.2 with next := next })

/-! ## Runs -/

/-- A runner with a meter. -/
abbrev MeteredRun := List U8 → List String → List String → RustM RunError (Os × Meter) Unit

/-- The program that the next instruction starts, with its arguments and its environment. -/
def Guest.nextProgram (g : Guest Os) (base : U64) :
    Option (List U8 × List String × List String) :=
  if g.AtSyscall base ∧ Nr.decode g.cpu.rax.toNat = .execve then execTarget base g else none

/-- The blocks of the next instruction. -/
def Allocations.step (a : Allocations) (base : U64) (g : Guest Os) : List Layout :=
  if g.AtSyscall base then a.call base g else []

/-- The run of the program that the next instruction starts, if it starts one.  It is handed to
`handle_syscall` as the runner that does the same. -/
def nestedRun (run : MeteredRun) (base : U64) : RustM RunError (Guest Os × Meter) Run := fun s ↦
  (s.1.nextProgram base).elim (.ok (fun _ _ _ ↦ pure ()) s) fun p ↦
    .ok (fun _ _ _ _ ↦ seen Prod.fst (run p.1 p.2.1 p.2.2 (s.1.os.started, s.2)))
      (s.1, (endState (run p.1 p.2.1 p.2.2 (s.1.os.started, s.2))).2)

/-- An instruction. -/
def meteredStep (r : Region) (a : Allocations) (run : MeteredRun) (tmp : StackSlot) (base : U64) :
    RustM RunError (Guest Os × Meter) Bool := do
  modifyMeter Meter.tick
  takeBlocks r (a.step base)
  let nested ← nestedRun run base
  metered (execOne (handleSyscall nested tmp base) base)

/-- The run of a loaded program. -/
def meteredProgram (r : Region) (a : Allocations) (run : MeteredRun) (tmp : StackSlot)
    (prog : LinuxProgram) : RustM RunError (Os × Meter) Unit := fun s ↦
  seen (fun t ↦ (t.1.os, t.2))
    (loop (meteredStep r a run tmp prog.base) (metered stepLimit) maxSteps (prog.guest s.1, s.2))

/-- **`run_linux_elf_with_args` on a heap**, inside of `level` other programs and with room on the
stack for fewer than `depth` inside of it. -/
def meteredRun (r : Region) (a : Allocations) (tmp : StackSlot) : ℕ → ℕ → MeteredRun
  | 0, _, _, _, _ => throw .panic
  | depth + 1, level, image, argv, envp => do
    takeBlocks r fun _ ↦ a.load image argv envp
    let prog ← RustM.lift (loadLinuxElf image argv envp)
    modifyMeter (Meter.enter · level)
    meteredProgram r a (meteredRun r a tmp depth (level + 1)) tmp prog

variable {r : Region} {a : Allocations} {tmp : StackSlot} {depth level n : ℕ} {base : U64}
  {run run' : Run} {mrun : MeteredRun} {g : Guest Os} {image : List U8} {argv envp : List String}
  {prog : LinuxProgram} {blocks : σ → List Layout}

/-! ## The next program -/

theorem nextProgram_eq_some {p : List U8 × List String × List String} :
    g.nextProgram base = some p ↔
      g.AtSyscall base ∧ Nr.decode g.cpu.rax.toNat = .execve ∧ execTarget base g = some p := by
  rw [Guest.nextProgram, Option.ite_none_right_eq_some, and_assoc]

/-- An instruction does not look at the runner, but for the run of the next program. -/
theorem execOne_congr (h : ∀ image argv envp, g.nextProgram base = some (image, argv, envp) →
      run image argv envp g.os.started = run' image argv envp g.os.started) :
    execOne (handleSyscall run tmp base) base g = execOne (handleSyscall run' tmp base) base g := by
  by_cases hat : g.AtSyscall base
  · have hcall : handleSyscall run tmp base g = handleSyscall run' tmp base g := by
      by_cases hnr : Nr.decode g.cpu.rax.toNat = .execve
      · rw [handleSyscall_of_execve hnr, handleSyscall_of_execve hnr]
        have hspec := handleExecve_spec base g
        cases htarget : execTarget base g with
        | none =>
          rw [htarget] at hspec
          obtain ⟨v, hv⟩ | ⟨e, he⟩ := hspec
          · rw [hv, hv]
          · rw [he, he]
        | some p =>
          rw [htarget] at hspec
          have hsame := h p.1 p.2.1 p.2.2 (nextProgram_eq_some.mpr ⟨hat, hnr, htarget⟩)
          exact (hspec run).trans ((congrArg (afterExec g) hsame).trans (hspec run').symm)
      · exact handleSyscall_of_ne_execve _ _ hnr
    rw [execOne_syscall hat, execOne_syscall hat, bind_apply, bind_apply, hcall]
  · exact execOne_of_not_atSyscall hat _

/-- It panics where the next program does. -/
theorem panics_of_nextProgram (h : g.nextProgram base = some (image, argv, envp))
    (hrun : Panics (run image argv envp) g.os.started) :
    Panics (execOne (handleSyscall run tmp base) base) g := by
  obtain ⟨hat, hnr, htarget⟩ := nextProgram_eq_some.mp h
  obtain ⟨os, hos⟩ := hrun
  have hspec := handleExecve_spec base g
  rw [htarget] at hspec
  have hcall : handleSyscall run tmp base g = .error .panic { g with os := os } := by
    rw [handleSyscall_of_execve hnr]
    refine (hspec run).trans ?_
    rw [hos]
    rfl
  rw [Panics, execOne_syscall hat, bind_apply, hcall]
  exact ⟨_, rfl⟩

/-! ## Panics -/

theorem panics_takeBlocks_bind {α : Type} {f : Unit → RustM RunError (σ × Meter) α}
    {s : σ × Meter} : Panics (takeBlocks r blocks >>= f) s ↔
      r.allocAll (blocks s.1) s.2.next = none ∨ ∃ next, r.allocAll (blocks s.1) s.2.next = some next ∧
        Panics (f ()) (s.1, { s.2 with next := next }) := by
  rw [Panics, bind_apply, takeBlocks]
  cases r.allocAll (blocks s.1) s.2.next with
  | none => simp
  | some next => simp [Panics]

theorem panics_seen {α τ : Type} {f : σ → τ} {x : RustM RunError σ α} {s : σ} :
    (∃ t, seen f (x s) = .error .panic t) ↔ Panics x s := by
  rw [Panics]
  cases x s with
  | ok a t => simp [seen]
  | error e t => simp [seen]

/-! ## It is the run of the interpreter -/

theorem follows_takeBlocks : Follows (takeBlocks r blocks) (pure () : RustM RunError σ Unit) := by
  intro s
  rw [Panics, takeBlocks]
  cases r.allocAll (blocks s.1) s.2.next with
  | none => exact .inl ⟨s, rfl⟩
  | some next => exact .inr rfl

/-- **An instruction** with a meter is one without. -/
theorem meteredStep_follows (h : ∀ image argv envp, Follows (mrun image argv envp)
      (run image argv envp)) :
    Follows (meteredStep r a mrun tmp base) (execOne (handleSyscall run tmp base) base) := by
  refine (follows_modifyMeter _).after (follows_takeBlocks.after fun s ↦ ?_)
  rw [Panics, bind_apply, nestedRun]
  cases hnext : s.1.nextProgram base with
  | none =>
    have hsame : execOne (handleSyscall (fun _ _ _ ↦ pure ()) tmp base) base s.1 =
        execOne (handleSyscall run tmp base) base s.1 :=
      execOne_congr fun image argv envp hsome ↦ by cases hnext.symm.trans hsome
    rw [← hsame]
    exact follows_metered _ s
  | some p =>
    dsimp only [Option.elim]
    rcases h p.1 p.2.1 p.2.2 (s.1.os.started, s.2) with ⟨t, hpanic⟩ | hsame
    · refine .inl (panics_metered.mpr (panics_of_nextProgram hnext ⟨t.1, ?_⟩))
      rw [hpanic]
      rfl
    · have hstep : execOne (handleSyscall (fun _ _ _ _ ↦
            seen Prod.fst (mrun p.1 p.2.1 p.2.2 (s.1.os.started, s.2))) tmp base) base s.1 =
          execOne (handleSyscall run tmp base) base s.1 :=
        execOne_congr fun image argv envp hsome ↦ by
          obtain rfl := Option.some_inj.mp (hnext.symm.trans hsome)
          exact hsame
      rw [← hstep]
      exact follows_metered _ (s.1, _)

/-- **The run of the interpreter** is the run on a heap and a stack, where that does not panic. -/
theorem meteredRun_follows (depth level : ℕ) (image : List U8) (argv envp : List String) :
    Follows (meteredRun r a tmp depth level image argv envp)
      (runLinuxElf tmp depth image argv envp) := by
  induction depth generalizing level image argv envp with
  | zero => exact fun s ↦ .inl ⟨s, rfl⟩
  | succ depth ih =>
    refine follows_takeBlocks.after ?_
    refine (follows_lift _).bind fun prog ↦ (follows_modifyMeter _).after fun s ↦ ?_
    have hstep : Follows (meteredStep r a (meteredRun r a tmp depth (level + 1)) tmp prog.base)
        (execOne (handleSyscall (runLinuxElf tmp depth) tmp prog.base) prog.base) :=
      meteredStep_follows (ih (level + 1))
    have hloop := hstep.loop (follows_metered stepLimit) maxSteps (prog.guest s.1, s.2)
    rw [← runSteps_eq_loop] at hloop
    rw [Panics, meteredProgram, runProgram, LinuxProgram.guest]
    rw [Panics, LinuxProgram.guest] at hloop
    rcases hloop with ⟨t, hpanic⟩ | hsame
    · rw [hpanic]
      exact .inl ⟨_, rfl⟩
    · rw [← hsame]
      refine .inr ?_
      cases loop (meteredStep r a (meteredRun r a tmp depth (level + 1)) tmp prog.base)
        (metered stepLimit) maxSteps
        (⟨Cpu.start prog.initialRsp prog.entry, prog.mem, s.1⟩, s.2) <;> rfl

/-! ## What it uses -/

/-- The heap that the memory of a program takes at least. -/
abbrev programSize : ℕ := linuxRunner.stackSize + 1

/-- **What a part of a run uses** of a heap, besides `n` instructions: for each program that it
loads, a part of the heap and the right to as many instructions as the step limit allows. -/
structure Meter.Spent (r : Region) (n : ℕ) (m m' : Meter) : Prop where
  /-- Programs are only counted up. -/
  programs : m.programs ≤ m'.programs
  /-- The heap that they took. -/
  heap : m.next + programSize * m'.programs ≤ m'.next + programSize * m.programs
  /-- It is not used up. -/
  room : m.next ≤ r.stop → m'.next ≤ r.stop
  /-- Their instructions. -/
  instructions :
    m'.instructions + maxSteps * m.programs ≤ m.instructions + maxSteps * m'.programs + n
  /-- There were as many as were inside of one another. -/
  nesting : m'.nesting ≤ max m.nesting m'.programs

variable {m m' m₁ : Meter} {k : ℕ}

theorem Meter.Spent.refl (m : Meter) : Meter.Spent r n m m :=
  ⟨le_rfl, le_rfl, id, Nat.le_add_right _ _, le_max_left _ _⟩

theorem Meter.Spent.trans (h : Meter.Spent r n m m₁) (h' : Meter.Spent r k m₁ m') :
    Meter.Spent r (n + k) m m' where
  programs := h.programs.trans h'.programs
  heap := by
    have hheap := h.heap
    have hheap' := h'.heap
    omega
  room hm := h'.room (h.room hm)
  instructions := by
    have hinstr := h.instructions
    have hinstr' := h'.instructions
    omega
  nesting := by
    have hnest := h.nesting
    have hnest' := h'.nesting
    have hle := h'.programs
    omega

theorem Meter.Spent.mono (h : Meter.Spent r n m m') (hle : n ≤ k) : Meter.Spent r k m m' :=
  ⟨h.programs, h.heap, h.room, h.instructions.trans (Nat.add_le_add_left hle _), h.nesting⟩

theorem Meter.Spent.taken {blocks : List Layout} {next : ℕ}
    (h : r.allocAll blocks m.next = some next) : Meter.Spent r 0 m { m with next := next } := by
  obtain ⟨hle, hroom⟩ := Region.allocAll_spent h
  exact ⟨le_rfl, by dsimp only; omega, hroom, le_rfl, le_max_left _ _⟩

theorem Meter.Spent.tick (m : Meter) : Meter.Spent r 1 m m.tick :=
  ⟨le_rfl, le_rfl, id, (Nat.add_right_comm _ _ _).le, le_max_left _ _⟩

/-- A run inside of `level` programs that were loaded spends no more than that. -/
def Spends (r : Region) (level n : ℕ) (s t : σ × Meter) : Prop :=
  level ≤ s.2.programs → Meter.Spent r n s.2 t.2

theorem spends_takeBlocks : Leaves (Spends r level 0) (takeBlocks r blocks) := by
  intro s _
  rw [takeBlocks]
  cases h : r.allocAll (blocks s.1) s.2.next with
  | none => exact .refl s.2
  | some next => exact .taken h

theorem Spends.trans {s t u : σ × Meter} (h : Spends r level n s t) (h' : Spends r level k t u) :
    Spends r level (n + k) s u := fun hlevel ↦
  (h hlevel).trans (h' (hlevel.trans (h hlevel).programs))

theorem spends_metered {α : Type} (x : RustM RunError σ α) :
    Leaves (Spends r level 0) (metered x : RustM RunError (σ × Meter) α) := by
  intro s _
  rw [metered, endState_seen]
  exact .refl s.2

theorem spends_nestedRun (h : ∀ image argv envp, Leaves (Spends r level 0) (mrun image argv envp)) :
    Leaves (Spends r level 0) (nestedRun mrun base) := by
  intro s hlevel
  rw [nestedRun]
  cases s.1.nextProgram base with
  | none => exact .refl s.2
  | some p => exact h p.1 p.2.1 p.2.2 (s.1.os.started, s.2) hlevel

/-- **An instruction** is one, and what the program is that it starts. -/
theorem spends_meteredStep
    (h : ∀ image argv envp, Leaves (Spends r level 0) (mrun image argv envp)) :
    Leaves (Spends r level 1) (meteredStep r a mrun tmp base) := by
  have hseq {k n : ℕ} (s t u : Guest Os × Meter) (h : Spends r level k s t)
      (h' : Spends r level n t u) : Spends r level (k + n) s u := h.trans h'
  have htick : Leaves (Spends r level 1) (modifyMeter Meter.tick :
      RustM RunError (Guest Os × Meter) Unit) := fun s _ ↦ .tick s.2
  have hrest : Leaves (Spends r level 0) (nestedRun mrun base >>= fun nested ↦
      metered (execOne (handleSyscall nested tmp base) base)) :=
    (spends_nestedRun h).bind (fun _ ↦ spends_metered _) (fun _ _ ↦ id) hseq
  have htake : Leaves (Spends r level 0) (takeBlocks r (a.step base) >>= fun _ ↦
      nestedRun mrun base >>= fun nested ↦
        metered (execOne (handleSyscall nested tmp base) base)) :=
    spends_takeBlocks.bind (fun _ ↦ hrest) (fun _ _ ↦ id) hseq
  exact htick.bind (fun _ ↦ htake) (fun _ _ ↦ id) hseq

/-- A program takes its memory from the heap before its first instruction. -/
theorem spent_enter {next : ℕ} (hload : loadLinuxElf image argv envp = .ok prog)
    (h : r.allocAll (a.load image argv envp) m.next = some next) (hlevel : level ≤ m.programs)
    (hrest : Meter.Spent r maxSteps (Meter.enter { m with next := next } level) m') :
    Meter.Spent r 0 m m' := by
  obtain ⟨hle, hroom⟩ := Region.allocAll_spent h
  obtain ⟨⟨l, mem⟩, himage, -⟩ := Rust.bind_eq_ok.mp hload
  obtain ⟨l', hlayout, -⟩ := Rust.bind_eq_ok.mp himage
  obtain ⟨block, hblock, hsize⟩ := a.memory image l' argv envp hlayout
  have hmemory : programSize ≤ l'.totalLen := layout_stack_lt hlayout
  have hsum : block.size ≤ ((a.load image argv envp).map Layout.size).sum :=
    List.single_le_sum (fun _ _ ↦ Nat.zero_le _) _ (List.mem_map_of_mem hblock)
  obtain ⟨hprograms, hheap, hroom', hinstr, hnest⟩ := hrest
  rw [Meter.enter] at hprograms hheap hroom' hinstr hnest
  dsimp only at hprograms hheap hroom' hinstr hnest
  refine ⟨by omega, ?_, fun hm ↦ hroom' (hroom hm), ?_, by omega⟩
  · rw [Nat.mul_succ] at hheap
    omega
  · rw [Nat.mul_succ] at hinstr
    omega

/-- **A run** spends the heap and the instructions of the programs that it loads. -/
theorem spends_meteredRun (depth level : ℕ) (image : List U8) (argv envp : List String) :
    Leaves (Spends r level 0) (meteredRun r a tmp depth level image argv envp) := by
  induction depth generalizing level image argv envp with
  | zero => exact fun s _ ↦ .refl s.2
  | succ depth ih =>
    have hsteps (prog : LinuxProgram) : Leaves (Spends r (level + 1) maxSteps)
        (loop (meteredStep r a (meteredRun r a tmp depth (level + 1)) tmp prog.base)
          (metered stepLimit) maxSteps) :=
      leaves_loop (R := Spends r (level + 1)) (spends_meteredStep (ih (level + 1)))
        (spends_metered _) (fun s _ ↦ .refl s.2) (fun _ _ _ _ hle h hlevel ↦ (h hlevel).mono hle)
        (fun _ _ _ _ _ h h' ↦ h.trans h') maxSteps
    have hprogram (prog : LinuxProgram) : Leaves (Spends r (level + 1) maxSteps)
        (meteredProgram r a (meteredRun r a tmp depth (level + 1)) tmp prog) := fun s hlevel ↦ by
      rw [meteredProgram, endState_seen]
      exact hsteps prog (prog.guest s.1, s.2) hlevel
    intro s hlevel
    rw [meteredRun, bind_apply, takeBlocks]
    cases htake : r.allocAll (a.load image argv envp) s.2.next with
    | none => exact .refl s.2
    | some next =>
      dsimp only [Option.elim]
      rw [bind_apply]
      cases hload : loadLinuxElf image argv envp with
      | error e => exact .taken htake
      | ok prog =>
        refine spent_enter hload htake hlevel ?_
        exact hprogram prog (s.1, Meter.enter { s.2 with next := next } level)
          (Nat.succ_le_succ hlevel)

/-- How many programs there is heap for. -/
abbrev mostPrograms : ℕ := heapSize / programSize

/-- **However a run ends**, there were no more programs than there is heap for, and no more
instructions than these may take. -/
theorem meteredRun_bounded (a : Allocations) (tmp : StackSlot) (hsize : r.size = heapSize)
    {next : ℕ} (hstart : r.start ≤ next) (hstop : next ≤ r.stop) (depth : ℕ) (image : List U8)
    (argv envp : List String) (os : Os) {m : Meter}
    (hm : (endState (meteredRun r a tmp depth 0 image argv envp (os, .start next))).2 = m) :
    m.instructions ≤ maxSteps * mostPrograms ∧ m.nesting ≤ mostPrograms := by
  have hspent : Meter.Spent r 0 (.start next) m := by
    rw [← hm]
    exact spends_meteredRun depth 0 image argv envp (os, .start next) (Nat.zero_le _)
  obtain ⟨-, hheap, hroom, hinstr, hnest⟩ := hspent
  rw [Meter.start] at hheap hroom hinstr hnest
  dsimp only at hheap hroom hinstr hnest
  have hstop' : m.next ≤ r.start + heapSize := hsize ▸ hroom hstop
  have hprograms : m.programs ≤ mostPrograms := by
    rw [mostPrograms, Nat.le_div_iff_mul_le (show 0 < programSize from Nat.succ_pos _), Nat.mul_comm]
    omega
  have hmul := Nat.mul_le_mul_left maxSteps hprograms
  omega

end LeonOS
